import RdmaRpc.Client.Requests

/-!
# Client — Answers

Whether every accepted request is answered to its caller.  The callback of an accepted request
is called in one place only, when `on_recv_resp` handles its response; `on_send_req` and
`on_disconnect` call none, and from `kv_mempool_free` on there is no pool to handle a response with
(`run_down`).  So a disconnect leaves no request unanswered exactly when it finds none without a
response, and none whose response is still to be handled (`answered_iff`).
-/

namespace RdmaRpc
open Lib

namespace Client

/-- Every accepted request with a callback has had it called once, with success just if its
response was delivered. -/
def Answered (c : Client) : Prop :=
  ∀ k call, c.calls[k]? = some call → call.accepted = true → call.args.cb ≠ none →
    ∃ r, c.called.filter (·.call = k) = [r] ∧ (r.success = true ↔ k ∈ c.delivered)

/-- Every accepted request with a callback has a response, and none is still to be handled. -/
def Settled (c : Client) : Prop :=
  ∀ k call, c.calls[k]? = some call → call.accepted = true → call.args.cb ≠ none →
    k ∈ c.delivered ∧ k ∉ c.responses

theorem filter_eq_singleton {α : Type} {f : α → Nat} {l : List α} (hnd : (l.map f).Nodup) {r : α}
    (hr : r ∈ l) : l.filter (f · = f r) = [r] := by
  induction l with
  | nil => cases hr
  | cons a l ih =>
      obtain ⟨ha, hnd⟩ := List.nodup_cons.mp hnd
      rcases List.mem_cons.mp hr with rfl | hr
      · have : l.filter (f · = f r) = [] := List.filter_eq_nil_iff.mpr fun x hx => by
          simpa using fun heq : f x = f r => ha (heq ▸ List.mem_map_of_mem hx)
        simp [this]
      · have hne : f a ≠ f r := fun heq => ha (heq ▸ List.mem_map_of_mem hr)
        simp [hne, ih hnd hr]

section
variable {conn : ConnId} {qp : QpNum} {buf : Nat} {mem : Mem} {tr tr' : List Event}
  {s s' : Client × Mem} {e : Event}

theorem init_mp (conn qp buf : Nat) : (init conn qp buf).mp = ⟨buf, poolCount, ctxSize,
    (List.range poolCount).map fun i => buf + i * ctxSize⟩ := kvMempoolCreate_eq _ _ _

theorem sound_init : (init conn qp buf).Sound := by
  have hmp := init_mp conn qp buf
  have hfree : (init conn qp buf).mp.free ++ (init conn qp buf).returning.map Prod.snd =
      (List.range poolCount).map fun i => buf + i * ctxSize := by
    rw [hmp]
    show _ ++ [] = _
    rw [List.append_nil]
  refine ⟨by rw [hmp], by rw [hmp], ?_, fun x hx => ?_, fun k call hw => ?_, List.nodup_nil,
    fun e he => (by cases he), List.nodup_nil, fun r hr => (by cases hr), fun _ k hk => (by cases hk)⟩
  · rw [hfree]
    exact nodup_elements ⟨buf, poolCount, ctxSize, []⟩ (Nat.succ_pos _)
  · rw [hfree] at hx
    rw [hmp]
    exact hx
  · exact absurd hw.recorded (by simp [init])

theorem sound_run (hp : Along step (fun s e => s.1.Proper e) (init conn qp buf, mem) tr)
    (h : run step (init conn qp buf, mem) tr = .ok s) : s.1.Sound :=
  run_invariant_along (P := fun s => s.1.Sound) (fun _ _ _ hs hp h => sound_step hs hp h)
    sound_init hp h

/-- A request is answered once its response has been handled, and not before. -/
theorem Sound.called_iff {c : Client} (hs : c.Sound) (hup : c.stage = .up) {k : Nat} {call : Call}
    (hc : c.calls[k]? = some call) (ha : call.accepted = true) :
    k ∈ c.called.map Callback.call ↔ k ∈ c.delivered ∧ k ∉ c.responses := by
  constructor
  · intro hk
    refine ⟨?_, fun hres => ?_⟩
    · obtain ⟨r, hr, rfl⟩ := List.mem_map.mp hk
      obtain ⟨call', cb, hc', -, -, hd⟩ := hs.right r hr
      rw [hc, Option.some.injEq] at hc'
      exact hd (hc' ▸ ha)
    · obtain ⟨e, he, rfl⟩ := List.mem_map.mp hres
      obtain ⟨he, hr⟩ := List.mem_filter.mp he
      obtain ⟨-, -, -, call', hw, -⟩ := hs.response e he hr
      exact hw.uncalled hk
  · rintro ⟨hd, hres⟩
    exact (hs.answered hup k hd).resolve_left hres

/-- Once the pool is freed, no request is accepted and no callback is called. -/
theorem step_down (hdown : s.1.stage ≠ .up) (h : step s e = .ok s') :
    s'.1.stage ≠ .up ∧ s'.1.calls = s.1.calls ∧ s'.1.called = s.1.called ∧
      s.1.delivered ⊆ s'.1.delivered := by
  rcases step_cases h with ⟨a, pick, rr, rs, -, h⟩ | ⟨h, -⟩
  · exact absurd (kvRdmaSendReq_eq_ok h).1 hdown
  · cases e with
    | sendReq a pick rr rs => cases h
    | transmit =>
        obtain ⟨p, sends, -, hc⟩ := react_transmit h
        rw [hc]
        exact ⟨hdown, rfl, rfl, List.Subset.refl _⟩
    | sendDone en =>
        obtain ⟨p, sent, -, hc⟩ := react_sendDone h
        rw [hc]
        exact ⟨hdown, rfl, rfl, List.Subset.refl _⟩
    | sendFail code fields =>
        obtain ⟨p, sends, -, hc⟩ := react_sendFail h
        rw [hc]
        exact ⟨hdown, rfl, rfl, List.Subset.refl _⟩
    | deliver k imm byteLen =>
        obtain ⟨-, hc⟩ := react_deliver.mp h
        rw [hc]
        exact ⟨hdown, rfl, rfl, List.subset_append_left _ _⟩
    | recvFail code fields =>
        obtain ⟨-, hc⟩ := react_recvFail h
        rw [hc]
        exact ⟨hdown, rfl, rfl, List.Subset.refl _⟩
    | poll t k =>
        rw [react_poll h]
        exact ⟨hdown, rfl, rfl, List.Subset.refl _⟩
    | handle t =>
        -- a response would be handled with the pool
        obtain ⟨e, cq, -, ⟨-, -, hup, -⟩ | ⟨-, hc⟩⟩ := react_handle h
        · exact absurd hup hdown
        · rw [hc]
          exact ⟨hdown, rfl, rfl, List.Subset.refl _⟩
    | put t =>
        obtain ⟨ele, returning, -, hup, -⟩ := react_put h
        exact absurd hup hdown
    | disconnected => exact absurd (react_disconnected h).1 hdown
    | destroyQp drop =>
        obtain ⟨-, hc⟩ := react_destroyQp h
        rw [hc]
        exact ⟨nofun, rfl, rfl, List.Subset.refl _⟩
    | freeConn =>
        obtain ⟨-, hc⟩ := react_freeConn h
        rw [hc]
        exact ⟨nofun, rfl, rfl, List.Subset.refl _⟩

theorem run_down (hdown : s.1.stage ≠ .up) (h : run step s tr = .ok s') :
    s'.1.calls = s.1.calls ∧ s'.1.called = s.1.called ∧ s.1.delivered ⊆ s'.1.delivered := by
  refine (run_invariant (P := fun s' : Client × Mem => s'.1.stage ≠ .up ∧
    s'.1.calls = s.1.calls ∧ s'.1.called = s.1.called ∧ s.1.delivered ⊆ s'.1.delivered)
    (fun s₁ e s₂ hs₁ h => ?_) ⟨hdown, rfl, rfl, List.Subset.refl _⟩ h).2
  obtain ⟨hdown₁, hcalls₁, hcalled₁, hdel₁⟩ := hs₁
  obtain ⟨hdown₂, hcalls₂, hcalled₂, hdel₂⟩ := step_down hdown₁ h
  exact ⟨hdown₂, hcalls₂.trans hcalls₁, hcalled₂.trans hcalled₁, List.Subset.trans hdel₁ hdel₂⟩

/-- **Answers.**  Whatever comes after a disconnect has begun, and so when `on_disconnect` has
returned, every accepted request has been answered exactly once if and only if the disconnect found
none still to be answered. -/
theorem answered_iff (hp : Along step (fun s e => s.1.Proper e) (init conn qp buf, mem) tr)
    (h : run step (init conn qp buf, mem) tr = .ok s)
    (hd : run step s (.disconnected :: tr') = .ok s') : Answered s'.1 ↔ Settled s.1 := by
  have hs := sound_run hp h
  obtain ⟨s₁, hd₁, hd₂⟩ := Outcome.bind_eq_ok.mp hd
  rcases step_cases hd₁ with ⟨a, pick, rr, rs, he, -⟩ | ⟨hd₁, -⟩
  · cases he
  obtain ⟨hup, hc'⟩ := react_disconnected hd₁
  obtain ⟨hcalls, hcalled, hdel⟩ := run_down (by rw [hc']; nofun) hd₂
  rw [hc'] at hcalls hcalled hdel
  simp only [Answered, Settled, hcalls, hcalled]
  constructor
  · -- no callback is called any more, so what is answered after was answered before
    intro hans k call hc ha hcb
    obtain ⟨r, hr, -⟩ := hans k call hc ha hcb
    refine (hs.called_iff hup hc ha).mp ?_
    have hmem : r ∈ s.1.called.filter (·.call = k) := by rw [hr]; exact List.mem_singleton_self r
    obtain ⟨hmem, hk⟩ := List.mem_filter.mp hmem
    exact of_decide_eq_true hk ▸ List.mem_map_of_mem hmem
  · intro hset k call hc ha hcb
    obtain ⟨r, hr, rfl⟩ := List.mem_map.mp ((hs.called_iff hup hc ha).mpr (hset k call hc ha hcb))
    refine ⟨r, filter_eq_singleton hs.called_nodup hr, ?_⟩
    obtain ⟨call', cb, hc', -, heq, hdel'⟩ := hs.right r hr
    rw [hc, Option.some.injEq] at hc'
    rw [heq, ← hc']
    exact ⟨fun _ => heq ▸ hdel (hdel' (hc' ▸ ha)), fun _ => ha⟩

end

/-! ### A request answered, and a request cut off -/

/-- A request of four bytes at 64, with its response at 128. -/
def smallReq : SendReq := ⟨⟨64, 16, 0, 0⟩, 4, ⟨128, 4, 0, 5⟩, none, some 1, 0⟩

/-- The first element of the new pool. -/
theorem get_init (conn qp buf : Nat) : kvMempoolGet (init conn qp buf).mp 0 = some (buf,
    ⟨buf, poolCount, ctxSize, ((List.range poolCount).map fun i => buf + i * ctxSize).tail⟩) := by
  rw [init_mp]
  simp [kvMempoolGet, poolCount]

/-- The connection with the first request accepted. -/
theorem run_smallReq : ∃ free, run step (init 0 7 4096, fun _ => 0)
    [.sendReq smallReq 0 false false] =
      .ok (((init 0 7 4096).take smallReq 4096 ⟨4096, poolCount, ctxSize, free⟩).accept smallReq 4096,
        Mem.write (fun _ => 0) 64
          (header ⟨4096, poolCount, ctxSize, free⟩ smallReq 4096).bytes) := by
  have hget := get_init 0 7 4096
  exact ⟨_, run_singleton.trans (kvRdmaSendReq_posted false rfl hget (by decide))⟩

/-- The three steps of `on_disconnect`. -/
def disconnect : List Event := [.disconnected, .destroyQp true, .freeConn]

/-- The peer disconnects while the request is outstanding: its callback is never called. -/
theorem request_unanswered :
    ∃ s s', run step (init 0 7 4096, fun _ => 0) [.sendReq smallReq 0 false false] = .ok s ∧
      run step s disconnect = .ok s' ∧ s'.1.called = [] ∧ ¬ Answered s'.1 := by
  obtain ⟨free, h⟩ := run_smallReq
  refine ⟨_, _, h, rfl, rfl, fun hans => ?_⟩
  obtain ⟨r, hr, -⟩ := hans 0 ⟨smallReq, 4096, true⟩ rfl rfl nofun
  cases hr

/-- The request is sent, and its response delivered and handled. -/
def answerSmallReq : List Event := [.deliver 0 0 4, .poll 0 2, .handle 0, .handle 0, .put 0]

/-- The disconnect finds the request answered, and leaves it so. -/
theorem answered_smallReq :
    ∃ s s', run step (init 0 7 4096, fun _ => 0)
        ([.sendReq smallReq 0 false false, .transmit, .sendDone .good] ++ answerSmallReq) = .ok s ∧
      run step s disconnect = .ok s' ∧ Settled s.1 ∧ Answered s'.1 := by
  obtain ⟨free, h⟩ := run_smallReq
  obtain ⟨s₁, h₁, hcalls₁, hmp₁, hdel₁, s, h₂, hcalls, hdel, hres, s', hd⟩ :
      ∃ s₁, run step (((init 0 7 4096).take smallReq 4096
          ⟨4096, poolCount, ctxSize, free⟩).accept smallReq 4096, Mem.write (fun _ => 0) 64
          (header ⟨4096, poolCount, ctxSize, free⟩ smallReq 4096).bytes)
          [.transmit, .sendDone .good] = .ok s₁ ∧
        s₁.1.calls = [⟨smallReq, 4096, true⟩] ∧ s₁.1.mp.buf = 4096 ∧ s₁.1.delivered = [] ∧
        ∃ s, run step s₁ answerSmallReq = .ok s ∧ s.1.calls = [⟨smallReq, 4096, true⟩] ∧
          s.1.delivered = [0] ∧ s.1.responses = [] ∧ ∃ s', run step s disconnect = .ok s' :=
    ⟨_, rfl, rfl, rfl, rfl, _, rfl, rfl, rfl, rfl, _, rfl⟩
  have hsent := run_append_eq_ok.mpr ⟨_, h, h₁⟩
  -- the response carries the id of the element, its offset in the pool
  have hp : Along step (fun s e => s.1.Proper e) (init 0 7 4096, fun _ => 0)
      ([.sendReq smallReq 0 false false, .transmit, .sendDone .good] ++ answerSmallReq) := by
    refine along_append.mpr ⟨along_of_forall fun s e he => ?_, fun s₂ hs₂ => ?_⟩
    · simp only [List.mem_cons, List.not_mem_nil, or_false] at he
      rcases he with rfl | rfl | rfl <;> trivial
    · cases hsent.symm.trans hs₂
      refine ⟨⟨by simp [hdel₁], _, by rw [hcalls₁]; rfl, rfl, ?_⟩, fun s₃ _ =>
        along_of_forall fun s e he => ?_⟩
      · rw [respImm, kvMempoolGetId, hmp₁]
        rfl
      · simp only [List.mem_cons, List.not_mem_nil, or_false] at he
        rcases he with rfl | rfl | rfl | rfl <;> trivial
  have hrun := run_append_eq_ok.mpr ⟨_, hsent, h₂⟩
  have hset : Settled s.1 := fun k call hc _ _ => by
    rw [hcalls] at hc
    obtain ⟨rfl, -⟩ : k = 0 ∧ _ := by simpa [List.getElem?_singleton] using hc
    exact ⟨by simp [hdel], by simp [hres]⟩
  exact ⟨s, s', hrun, hd, hset, (answered_iff hp hrun hd).mpr hset⟩

end Client

end RdmaRpc
