import RdmaRpc.Client.Answers

/-!
# Client — Lifetimes

Uses of a client's connection record.  `on_recv_resp` reads it, with its pool, through `wr_id`,
and again when it puts the element back; `on_disconnect` frees the pool first, then destroys the
queue pair, and frees the record last, while the pollers run on.

`Orderly` is what spares the pool: a disconnect begins when no response polled is still to be handled
and no element to be put back, no response is polled between the free of the pool and the end of the
queue pair, and none is left on the completion queue by then; and no failed completion is handed to a
handler that reads `wr_id` as something else.
-/

namespace RdmaRpc
open Lib

namespace Client

/-- Nothing the pollers do next uses a connection in vain. -/
def ConnSafe (c : Client) : Prop :=
  ∀ t f, react c (.handle t) = .fault f ∨ react c (.put t) = .fault f → f.ofConn = false

/-- The step spares the record while it is needed. -/
def Orderly (c : Client) : Event → Prop
  | .disconnected => c.returning = [] ∧ ∀ p ∈ c.cq.polled, Responds p.2.wc = false
  | .poll _ k => c.stage = .poolFreed → ∀ e ∈ c.cq.queue.take k, Responds e.wc = false
  | .destroyQp drop => drop = false → ∀ e ∈ c.cq.queue, Responds e.wc = false
  | .sendDone (.bad _ fields) | .sendFail _ fields =>
      fields.opcode ≠ .recv ∧ fields.opcode ≠ .rdmaWrite ∧ fields.opcode ≠ .recvRdmaWithImm
  | .recvFail _ fields => fields.opcode ≠ .recv ∧ fields.opcode ≠ .rdmaWrite
  | _ => True

/-- The handler of the completion reads `wr_id` as what was stored in it. -/
def WellRead (wc : Wc ClientWrId) : Prop :=
  wc.opcode ≠ .recv ∧ wc.opcode ≠ .rdmaWrite ∧ (wc.opcode = .recvRdmaWithImm → Responds wc = true)

/-- The queue pair is there. -/
def HasQp (c : Client) : Prop := c.stage = .up ∨ c.stage = .poolFreed

/-- The record and the pool will be used only while they are there. -/
structure Lively (c : Client) : Prop where
  read : ∀ e ∈ c.cq.all, WellRead e.wc
  polled : c.stage ≠ .up → c.returning = [] ∧ ∀ p ∈ c.cq.polled, Responds p.2.wc = false
  queued : ¬ c.HasQp → c.recvs = 0 ∧ c.sends = [] ∧ c.sent = [] ∧
    ∀ e ∈ c.cq.queue, Responds e.wc = false

section
variable {c c' : Client} {s s' : Client × Mem} {e : Event}

theorem wellRead_send {en : Ending} {ele qp : Nat}
    (h : ∀ code fields, en = .bad code fields →
      fields.opcode ≠ .recv ∧ fields.opcode ≠ .rdmaWrite ∧ fields.opcode ≠ .recvRdmaWithImm) :
    WellRead (en.wc (.ctx ele) qp sendFields) := by
  cases en with
  | good => exact ⟨nofun, nofun, nofun⟩
  | bad code fields =>
      obtain ⟨h₁, h₂, h₃⟩ := h code fields rfl
      exact ⟨h₁, h₂, fun h => absurd h h₃⟩

/-- Where there is work for the queue pair, it is there. -/
theorem Lively.hasQp_of (hl : c.Lively) (h : 0 < c.recvs ∨ c.sends ≠ [] ∨ c.sent ≠ []) : c.HasQp := by
  by_contra hq
  obtain ⟨h₁, h₂, h₃, -⟩ := hl.queued hq
  rcases h with h | h | h
  · exact absurd h₁ (Nat.ne_of_gt h)
  · exact h h₂
  · exact h h₃

/-- A completion added while the queue pair is there. -/
theorem Lively.push (hl : c.Lively) {e : Cqe ClientWrId} (he : WellRead e.wc) (hq : c.HasQp)
    (hcq : c'.cq = c.cq.push e) (hstage : c'.stage = c.stage) (hret : c'.returning = c.returning) :
    c'.Lively := by
  refine ⟨fun e' he' => ?_, ?_, fun hno => absurd hq ?_⟩
  · rw [hcq, Completions.mem_all_push] at he'
    rcases he' with rfl | he'
    · exact he
    · exact hl.read e' he'
  · rw [hcq, hstage, hret]
    exact hl.polled
  · unfold HasQp at hno ⊢
    rwa [hstage] at hno

theorem lively_sendReq (hl : s.1.Lively) {a : SendReq} {pick : Nat} {rr rs : Bool}
    (h : kvRdmaSendReq s.1 s.2 a pick rr rs = .ok s') : s'.1.Lively := by
  obtain ⟨hup, -, ele, mp, -, -, hcase⟩ := kvRdmaSendReq_eq_ok h
  have hc : s'.1.cq = s.1.cq ∧ s'.1.stage = .up := by
    rcases hcase with ⟨-, hc⟩ | ⟨-, -, hc⟩ | ⟨-, -, hc⟩ <;> rw [hc] <;> exact ⟨rfl, hup⟩
  exact ⟨fun e he => hl.read e (hc.1 ▸ he), fun hno => absurd hc.2 hno,
    fun hno => absurd (.inl hc.2) hno⟩

/-- A poll takes no response once the pool is freed. -/
theorem lively_poll (hl : c.Lively) {t : Thread} {k : Nat} (ho : c.Orderly (.poll t k)) :
    Lively { c with cq := c.cq.poll t k } := by
  refine ⟨fun e he => hl.read e (Completions.mem_all_poll.mp he), fun hdown => ?_, fun hno => ?_⟩
  · obtain ⟨hret, hpolled⟩ := hl.polled hdown
    have htake : ∀ e ∈ c.cq.queue.take k, Responds e.wc = false := by
      by_cases hfreed : c.stage = .poolFreed
      · exact ho hfreed
      · obtain ⟨-, -, -, hq⟩ := hl.queued (not_or.mpr ⟨hdown, hfreed⟩)
        exact fun e he => hq e (List.mem_of_mem_take he)
    refine ⟨hret, fun p hp => ?_⟩
    rcases List.mem_append.mp hp with hp | hp
    · exact hpolled p hp
    · obtain ⟨e, he, rfl⟩ := List.mem_map.mp hp
      exact htake e he
  · obtain ⟨h₁, h₂, h₃, hq⟩ := hl.queued hno
    exact ⟨h₁, h₂, h₃, fun e he => hq e (List.mem_of_mem_drop he)⟩

theorem lively_handle (hl : c.Lively) {t : Thread} (h : react c (.handle t) = .ok c') : c'.Lively := by
  obtain ⟨e, cq, hn, hcase⟩ := react_handle h
  have hmem : ∀ e' ∈ cq.all, e' ∈ c.cq.all := fun e' he' => Completions.mem_of_mem_next hn he'
  have hpolled : ∀ p ∈ cq.polled, p ∈ c.cq.polled := fun p hp => by
    obtain ⟨r, hr, hr'⟩ := Option.map_eq_some_iff.mp hn
    cases hr'
    exact (Keyed.pop_sublist hr).subset hp
  rcases hcase with ⟨-, -, hup, -, ctx, cb, -, -, hc⟩ | ⟨-, hc⟩
  · rw [hc]
    exact ⟨fun e' he' => hl.read e' (hmem e' he'), fun hno => absurd hup hno,
      fun hno => absurd (.inl hup) hno⟩
  · rw [hc]
    refine ⟨fun e' he' => hl.read e' (hmem e' he'), fun hdown => ?_, fun hno => ?_⟩
    · obtain ⟨hret, hno⟩ := hl.polled hdown
      exact ⟨hret, fun p hp => hno p (hpolled p hp)⟩
    · rw [Completions.queue_next hn]
      exact hl.queued hno

theorem lively_step (hl : s.1.Lively) (ho : s.1.Orderly e) (h : step s e = .ok s') : s'.1.Lively := by
  rcases step_cases h with ⟨a, pick, rr, rs, rfl, h⟩ | ⟨h, -⟩
  · exact lively_sendReq hl h
  · cases e with
    | sendReq a pick rr rs => cases h
    | transmit =>
        obtain ⟨p, sends, hs, hc⟩ := react_transmit h
        have hq := hl.hasQp_of (.inr (.inl (by simp [hs])))
        rw [hc]
        exact ⟨hl.read, hl.polled, fun hno => absurd hq hno⟩
    | sendDone en =>
        obtain ⟨p, sent, hs, hc⟩ := react_sendDone h
        refine hl.push (wellRead_send fun code fields hen => ?_)
          (hl.hasQp_of (.inr (.inr (by simp [hs])))) (by rw [hc]) (by rw [hc]) (by rw [hc])
        -- the opcode of a failed send is undefined, and the orderly run rules out the ones that
        -- misread it
        subst hen
        exact ho
    | sendFail code fields =>
        obtain ⟨p, sends, hs, hc⟩ := react_sendFail h
        obtain ⟨h₁, h₂, h₃⟩ := ho
        have hr : WellRead ((Ending.bad code fields).wc (.ctx p.wr.wrId) s.1.qp fields) :=
          ⟨h₁, h₂, fun h => absurd h h₃⟩
        exact hl.push hr (hl.hasQp_of (.inr (.inl (by simp [hs])))) (by rw [hc]) (by rw [hc])
          (by rw [hc])
    | deliver k imm byteLen =>
        obtain ⟨hr, hc⟩ := react_deliver.mp h
        have hread : WellRead ⟨.conn s.1.conn, .success, .recvRdmaWithImm, byteLen, imm, true, s.1.qp⟩ :=
          ⟨nofun, nofun, fun _ => rfl⟩
        exact hl.push hread (hl.hasQp_of (.inl hr)) (by rw [hc]) (by rw [hc]) (by rw [hc])
    | recvFail code fields =>
        obtain ⟨hr, hc⟩ := react_recvFail h
        obtain ⟨h₁, h₂⟩ := ho
        have hread : WellRead ((Ending.bad code fields).wc (.conn s.1.conn) s.1.qp fields) :=
          ⟨h₁, h₂, fun h => decide_eq_true h⟩
        exact hl.push hread (hl.hasQp_of (.inl hr)) (by rw [hc]) (by rw [hc]) (by rw [hc])
    | poll t k =>
        rw [react_poll h]
        exact lively_poll hl ho
    | handle t => exact lively_handle hl h
    | put t =>
        obtain ⟨ele, returning, -, hup, hc⟩ := react_put h
        rw [hc]
        exact ⟨hl.read, fun hno => absurd hup hno, fun hno => absurd (.inl hup) hno⟩
    | disconnected =>
        obtain ⟨-, hc⟩ := react_disconnected h
        rw [hc]
        exact ⟨hl.read, fun _ => ho, fun hno => absurd (.inr rfl) hno⟩
    | destroyQp drop =>
        obtain ⟨hfreed, hc⟩ := react_destroyQp h
        have hdown := hl.polled (by rw [hfreed]; nofun)
        rw [hc]
        refine ⟨fun e he => hl.read e (all_drop_sublist.subset he), fun _ => ?_,
          fun _ => ⟨rfl, rfl, rfl, ?_⟩⟩ <;> cases drop
        · exact hdown
        · exact hdown
        · exact ho rfl
        · exact nofun
    | freeConn =>
        obtain ⟨hgone, hc⟩ := react_freeConn h
        have hdown := hl.polled (by rw [hgone]; nofun)
        have hq := hl.queued (by unfold HasQp; rw [hgone]; nofun)
        rw [hc]
        exact ⟨hl.read, fun _ => hdown, fun _ => hq⟩

/-- A completion that aborts is a response, in `on_recv_resp`. -/
theorem Lively.onRecvResp_of_fault (hl : c.Lively) {t : Thread} {f : Fault}
    (h : react c (.handle t) = .fault f) :
    ∃ e cq n, (t, e) ∈ c.cq.polled ∧ Responds e.wc = true ∧ e.wc.wrId = .conn n ∧
      onRecvResp { c with cq } t e.wc = .fault f := by
  simp only [react, Outcome.bind_eq_fault, Outcome.require_ne_fault, Outcome.require_eq_ok,
    Outcome.choose_ne_fault, Outcome.choose_eq_ok, false_or, Prod.exists] at h
  obtain ⟨-, -, e, cq, hn, h⟩ := h
  obtain ⟨h₁, h₂, h₃⟩ := hl.read e (Completions.mem_of_next hn)
  have he : (t, e) ∈ c.cq.polled := by
    obtain ⟨r, hr, hr'⟩ := Option.map_eq_some_iff.mp hn
    cases hr'
    exact Keyed.mem_of_pop hr
  unfold onCompletion rdmaCqPoller at h
  cases hop : e.wc.opcode with
  | recv => exact absurd hop h₁
  | rdmaWrite => exact absurd hop h₂
  | send => simp [hop] at h
  | other code => simp [hop] at h
  | recvRdmaWithImm =>
      have hr := h₃ hop
      cases hid : e.wc.wrId with
      | ctx ele => simp [Responds, hid] at hr
      | conn n => exact ⟨e, cq, n, he, hr, hid, by simpa only [hop] using h⟩

/-- While the record and the pool are there when they will be used, every use is sound. -/
theorem Lively.connSafe (hl : c.Lively) : c.ConnSafe := by
  rintro t f (h | h)
  · obtain ⟨e, cq, n, he, hr, hid, h⟩ := hl.onRecvResp_of_fault h
    -- a response still to be handled keeps the connection
    have hup : c.stage = .up := by
      by_contra hdown
      have := (hl.polled hdown).2 (t, e) he
      rw [hr] at this
      cases this
    simp only [onRecvResp, hid, Outcome.bind_eq_fault, Outcome.check_eq_fault, hup, ne_eq,
      reduceCtorEq, not_false_eq_true, not_true, false_and, false_or, Outcome.deref_eq_fault,
      Outcome.pure_eq, and_false, exists_false, or_false] at h
    rcases h with ⟨-, -, ⟨-, rfl⟩ | ⟨-, -, -, -, ⟨-, rfl⟩ | ⟨-, -, -, rfl⟩⟩⟩ <;> rfl
  · simp only [react, onRecvRespPut, Outcome.bind_eq_fault, Outcome.choose_ne_fault,
      Outcome.choose_eq_ok, false_or, Prod.exists] at h
    obtain ⟨ele, returning, hpop, h⟩ := h
    have hup : c.stage = .up := by
      by_contra hdown
      rw [(hl.polled hdown).1] at hpop
      cases hpop
    simp [hup, Outcome.check] at h

/-- Where every request has a callback, nothing a live connection does can abort. -/
theorem Sound.react_ne_fault (hs : c.Sound) (hl : c.Lively) (hup : c.stage = .up)
    (hcb : ∀ call ∈ c.calls, call.args.cb ≠ none) {e : Event} {f : Fault} : react c e ≠ .fault f := by
  intro h
  cases e with
  | handle t =>
      obtain ⟨e, cq, n, he, hr, hid, h⟩ := hl.onRecvResp_of_fault h
      have he : e ∈ c.cq.all := List.mem_append_right _ (List.mem_map_of_mem he)
      obtain ⟨-, himm, -⟩ := hs.response e he hr
      obtain ⟨call, hw, hele, ho⟩ := hs.callback he hr
      have hcb := hcb call (List.mem_of_getElem? hw.recorded)
      obtain ⟨cb, hcb⟩ := Option.ne_none_iff_exists'.mp hcb
      -- the context is that of the call, and has its callback
      simp [onRecvResp, hid, hup, himm, hele, ho.ctx, ctxOf, hcb, Outcome.check, Outcome.deref] at h
  | put t =>
      simp [react, onRecvRespPut, Outcome.bind_eq_fault, hup] at h
  | disconnected => simp [react, onDisconnectData, Outcome.bind_eq_fault, hup] at h
  | freeConn => simp [react, Outcome.bind_eq_fault, hup] at h
  | transmit => simp only [react] at h; split at h <;> cases h
  | sendDone en => simp only [react] at h; split at h <;> cases h
  | sendFail code fields => simp only [react] at h; split at h <;> cases h
  | _ => simp [react, Outcome.bind_eq_fault] at h

/-- **Lifetimes, on a client.**  After an orderly run no use of the connection can go wrong. -/
theorem connSafe_run {conn : ConnId} {qp : QpNum} {buf : Nat} {mem : Mem} {tr : List Event}
    (ho : Along step (fun s e => s.1.Orderly e) (init conn qp buf, mem) tr)
    (h : run step (init conn qp buf, mem) tr = .ok s) : s.1.ConnSafe := by
  have hinit : (init conn qp buf).Lively :=
    ⟨fun e he => (by cases he), fun hdown => absurd rfl hdown, fun hno => absurd (.inl rfl) hno⟩
  have hl := run_invariant_along (P := fun s => s.1.Lively)
    (fun _ _ _ hl ho h => lively_step hl ho h) hinit ho h
  exact hl.connSafe

end

/-- The request is answered, and the disconnect spares what was needed for it. -/
theorem orderly_answered :
    ∃ s, run step (init 0 7 4096, fun _ => 0) ([.sendReq smallReq 0 false false, .transmit,
        .sendDone .good] ++ answerSmallReq ++ disconnect) = .ok s ∧
      Along step (fun s e => s.1.Orderly e) (init 0 7 4096, fun _ => 0)
        ([.sendReq smallReq 0 false false, .transmit, .sendDone .good] ++ answerSmallReq ++
          disconnect) ∧
      s.1.called.length = 1 ∧ s.1.stage = .freed := by
  obtain ⟨free, h⟩ := run_smallReq
  obtain ⟨s₁, h₁, hup, s₂, h₂, hret, hpolled, s, h₃, hcalled, hgone⟩ :
      ∃ s₁, run step (((init 0 7 4096).take smallReq 4096
          ⟨4096, poolCount, ctxSize, free⟩).accept smallReq 4096, Mem.write (fun _ => 0) 64
          (header ⟨4096, poolCount, ctxSize, free⟩ smallReq 4096).bytes)
          [.transmit, .sendDone .good, .deliver 0 0 4] = .ok s₁ ∧
        s₁.1.stage = .up ∧ ∃ s₂, run step s₁ [.poll 0 2, .handle 0, .handle 0, .put 0] = .ok s₂ ∧
          s₂.1.returning = [] ∧ s₂.1.cq.polled = [] ∧ ∃ s, run step s₂ disconnect = .ok s ∧
            s.1.called.length = 1 ∧ s.1.stage = .freed :=
    ⟨_, rfl, rfl, _, rfl, rfl, rfl, _, rfl, rfl, rfl⟩
  have hsent : run step (init 0 7 4096, fun _ => 0) [.sendReq smallReq 0 false false, .transmit,
      .sendDone .good, .deliver 0 0 4] = .ok s₁ := run_append_eq_ok.mpr ⟨_, h, h₁⟩
  have hanswered : run step (init 0 7 4096, fun _ => 0) ([.sendReq smallReq 0 false false, .transmit,
      .sendDone .good, .deliver 0 0 4] ++ [.poll 0 2, .handle 0, .handle 0, .put 0]) = .ok s₂ :=
    run_append_eq_ok.mpr ⟨_, hsent, h₂⟩
  have hp : Along step (fun s e => s.1.Orderly e) (init 0 7 4096, fun _ => 0)
      ([.sendReq smallReq 0 false false, .transmit, .sendDone .good, .deliver 0 0 4] ++
        [.poll 0 2, .handle 0, .handle 0, .put 0] ++ disconnect) := by
    -- only the poll and the steps of the disconnect have something to spare
    refine along_append.mpr ⟨along_append.mpr ⟨along_of_forall fun s e he => ?_, fun s' hs' => ?_⟩,
      fun s' hs' => ?_⟩
    · simp only [List.mem_cons, List.not_mem_nil, or_false] at he
      rcases he with rfl | rfl | rfl | rfl <;> trivial
    · cases hsent.symm.trans hs'
      refine ⟨fun hfreed => absurd (hup.symm.trans hfreed) nofun, fun s' _ =>
        along_of_forall fun s e he => ?_⟩
      simp only [List.mem_cons, List.not_mem_nil, or_false] at he
      rcases he with rfl | rfl | rfl <;> trivial
    · cases hanswered.symm.trans hs'
      exact ⟨⟨hret, by simp [hpolled]⟩, fun _ _ => ⟨nofun, fun _ _ => ⟨trivial, fun _ _ => trivial⟩⟩⟩
  exact ⟨s, run_append_eq_ok.mpr ⟨_, hanswered, h₃⟩, hp, hcalled, hgone⟩

end Client

end RdmaRpc
