import RdmaRpc.Cm.Ledger

/-!
# Cm — Outcomes

What the events of a run say of the stages (`Told`), and from that what the application hears of an
attempt to connect.  The switch of `rdma_cm_poller` has no case for three of the events that end an
attempt, and the callback is called for the others only (`connect_reported_iff`).
-/

namespace RdmaRpc
open Lib

namespace Cm

variable {T : Uthash QpNum CmId ConnId}

/-- The events that end an attempt to connect. -/
def endings : List RdmaCmEventType :=
  [.addrError, .routeError, .established, .rejected, .unreachable, .connectError]

/-- What a stage says of the events: this one has come. -/
def Stage.Past (g : Stage) (e : RdmaCmEventType) : Prop :=
  g = .failed e ∨ g = .established ∧ e = .established ∨
    g = .disconnected ∧ (e = .established ∨ e = .disconnected)

/-- The events of the run and the stages agree. -/
structure Told (tr : List Event) (s : Cm T) : Prop where
  known : ∀ (k : Nat) e q, .event k e q ∈ tr → k < s.next
  past : ∀ k e q, .event k e q ∈ tr → e ∈ .disconnected :: endings → (s.stage k).Past e
  failed : ∀ k : Nat, k < s.next → ∀ e, s.stage k = .failed e → ∃ q, .event k e q ∈ tr
  disconnected : ∀ k : Nat, k < s.next → s.stage k = .disconnected →
    ∃ q, .event k .disconnected q ∈ tr

section
variable {s s' : Cm T} {k : Nat} {q : QpNum} {e : RdmaCmEventType} {g g' : Stage} {st : Started}
  {tr : List Event}

/-- What has come stays so. -/
theorem Stage.Past.after (hp : g.Past e) {e' : RdmaCmEventType} (h : g.after e' = some g') :
    ((asks e').getD g').Past e := by
  rcases hp with rfl | ⟨rfl, rfl⟩ | ⟨rfl, he⟩ <;> cases e' <;>
    simp only [Stage.after, Option.some.injEq, reduceCtorEq] at h <;> subst h <;>
    simp_all [asks, Stage.Past]

theorem Stage.past_after (he : e ∈ .disconnected :: endings) (h : g.after e = some g') :
    ((asks e).getD g').Past e := by
  simp only [endings, List.mem_cons, List.not_mem_nil, or_false] at he
  rcases he with rfl | rfl | rfl | rfl | rfl | rfl | rfl <;> cases g <;>
    simp only [Stage.after, Option.some.injEq, reduceCtorEq] at h <;> subst h <;>
    simp [asks, Stage.Past]

/-- A stage that ends a connection comes from the event it is named after, or was there. -/
theorem Stage.after_failed {e' : RdmaCmEventType} (h : g.after e = some g')
    (hg : (asks e).getD g' = .failed e') : g = .failed e' ∨ e = e' := by
  cases e <;> simp only [asks, Option.getD_some, Option.getD_none, reduceCtorEq] at hg <;>
    subst hg <;> cases g <;> simp_all [Stage.after]

theorem Stage.after_disconnected (h : g.after e = some g') (hg : (asks e).getD g' = .disconnected) :
    g = .disconnected ∨ e = .disconnected := by
  cases e <;> simp only [asks, Option.getD_some, Option.getD_none, reduceCtorEq] at hg <;>
    subst hg <;> cases g <;> simp_all [Stage.after]

/-! ### The events along a run -/

/-- A step that takes no event of a connection that is there. -/
theorem Told.quiet {e : Event} (ht : Told tr s) (he : ∀ k ev q, e ≠ .event k ev q)
    (hnext : s.next ≤ s'.next) (hold : ∀ k : Nat, k < s.next → s'.stage k = s.stage k)
    (hnew : ∀ k : Nat, s.next ≤ k → k < s'.next →
      s'.stage k ≠ .disconnected ∧ ∀ e, s'.stage k ≠ .failed e) : Told (tr ++ [e]) s' where
  known k ev q hm := by
    rcases List.mem_append.mp hm with hm | hm
    · exact Nat.lt_of_lt_of_le (ht.known k ev q hm) hnext
    · exact absurd (List.mem_singleton.mp hm).symm (he k ev q)
  past k ev q hm hev := by
    rcases List.mem_append.mp hm with hm | hm
    · rw [hold k (ht.known k ev q hm)]
      exact ht.past k ev q hm hev
    · exact absurd (List.mem_singleton.mp hm).symm (he k ev q)
  failed k hk ev hg := by
    by_cases hlt : k < s.next
    · rw [hold k hlt] at hg
      exact (ht.failed k hlt ev hg).imp fun _ => List.mem_append_left _
    · exact absurd hg ((hnew k (Nat.le_of_not_lt hlt) hk).2 ev)
  disconnected k hk hg := by
    by_cases hlt : k < s.next
    · rw [hold k hlt] at hg
      exact (ht.disconnected k hlt hg).imp fun _ => List.mem_append_left _
    · exact absurd hg (hnew k (Nat.le_of_not_lt hlt) hk).1

/-- An event of the connection `k`. -/
theorem Told.event (ht : Told tr s) (hk : k < s.next) (hg : (s.stage k).after e = some g)
    (hcore : s'.core = (s.setStage k ((asks e).getD g)).core) :
    Told (tr ++ [.event k e q]) s' := by
  have hnext : s'.next = s.next := congrArg Prod.fst hcore
  have hstage : s'.stage = Function.update s.stage k ((asks e).getD g) :=
    congrArg (·.2.2) hcore
  refine ⟨fun j ev q' hm => ?_, fun j ev q' hm hev => ?_, fun j hj ev hf => ?_, fun j hj hf => ?_⟩
  · rw [hnext]
    rcases List.mem_append.mp hm with hm | hm
    · exact ht.known j ev q' hm
    · obtain ⟨rfl, -⟩ := by simpa using hm
      exact hk
  · rcases List.mem_append.mp hm with hm | hm
    · have hpast := ht.past j ev q' hm hev
      by_cases hjk : j = k
      · subst hjk
        simpa [hstage] using hpast.after hg
      · simpa [hstage, hjk] using hpast
    · obtain ⟨rfl, rfl, rfl⟩ := by simpa using hm
      simpa [hstage] using Stage.past_after hev hg
  · rw [hnext] at hj
    by_cases hjk : j = k
    · subst hjk
      rw [hstage, Function.update_self] at hf
      rcases Stage.after_failed hg hf with hold | rfl
      · exact (ht.failed j hj ev hold).imp fun _ => List.mem_append_left _
      · exact ⟨q, by simp⟩
    · rw [hstage, Function.update_of_ne hjk] at hf
      exact (ht.failed j hj ev hf).imp fun _ => List.mem_append_left _
  · rw [hnext] at hj
    by_cases hjk : j = k
    · subst hjk
      rw [hstage, Function.update_self] at hf
      rcases Stage.after_disconnected hg hf with hold | rfl
      · exact (ht.disconnected j hj hold).imp fun _ => List.mem_append_left _
      · exact ⟨q, by simp⟩
    · rw [hstage, Function.update_of_ne hjk] at hf
      exact (ht.disconnected j hj hf).imp fun _ => List.mem_append_left _

theorem told_step {e : Event} (hl : s.Ledger) (ht : Told tr s) (h : step s e = .ok s') :
    Told (tr ++ [e]) s' := by
  cases e with
  | connect args =>
      cases h
      refine ht.quiet (by simp) (Nat.le_succ _) (fun k hk => ?_) fun k h₁ h₂ => ?_
      · exact Function.update_of_ne (Nat.ne_of_lt hk) _ _
      · obtain rfl : k = s.next := Nat.le_antisymm (Nat.le_of_lt_succ h₂) h₁
        simp [kvRdmaConnect]
  | listen handler arg =>
      cases h
      refine ht.quiet (by simp) (Nat.le_succ _) (fun k hk => ?_) fun k h₁ h₂ => ?_
      · exact Function.update_of_ne (Nat.ne_of_lt hk) _ _
      · obtain rfl : k = s.next := Nat.le_antisymm (Nat.le_of_lt_succ h₂) h₁
        simp [kvRdmaListen]
  | disconnect c =>
      obtain ⟨_, -, h⟩ := Outcome.bind_eq_ok.mp h
      obtain ⟨_, -, h⟩ := Outcome.bind_eq_ok.mp h
      cases h
      exact ht.quiet (by simp) (Nat.le_refl _) (fun _ _ => rfl) fun k h₁ h₂ =>
        absurd h₂ (Nat.not_lt.mpr h₁)
  | connectRequest l q =>
      have hcore := step_connectRequest_core h
      have hnext : s'.next = s.next + 1 := congrArg Prod.fst hcore
      have hstage : s'.stage = Function.update (request s l).stage s.next .accepted :=
        congrArg (·.2.2) hcore
      refine ht.quiet (by simp) (by omega) (fun k hk => ?_) fun k h₁ h₂ => ?_
      · simp [hstage, request, Nat.ne_of_lt hk]
      · obtain rfl : k = s.next := by omega
        simp [hstage]
  | event k e q =>
      obtain ⟨hk, g, hg, hcore⟩ := step_event_core h
      exact ht.event ((hl.known k).mp hk) hg hcore

theorem told_run (h : run step (init : Cm T) tr = .ok s) : Told tr s := by
  have hinit : Told [] (init : Cm T) :=
    ⟨by simp, by simp, fun k hk => absurd hk (Nat.not_lt_zero k),
      fun k hk => absurd hk (Nat.not_lt_zero k)⟩
  have hrun : run step init ([] ++ tr) = .ok s ∧ Told ([] ++ tr) s := by
    refine run_invariant_trace (P := fun tr s => run step init tr = .ok s ∧ Told tr s) ?_
      ⟨rfl, hinit⟩ h
    rintro tr₁ s₁ e s₂ ⟨hr₁, ht₁⟩ he
    exact ⟨run_snoc_eq_ok.mpr ⟨s₁, hr₁, he⟩, told_step (ledger_run hr₁) ht₁ he⟩
  exact hrun.2

/-! ### The callback of an attempt -/

/-- The events that end an attempt and that the switch has no case for. -/
def dropped : List RdmaCmEventType := [.addrError, .routeError, .connectError]

/-- **What the callback of an attempt reports.**  Once the event that ends the attempt has been
handled, the callback has been called once, with the connection if that was `ESTABLISHED` and with
`NULL` if not, if and only if the switch has a case for the event. -/
theorem connect_reported_iff {args : ConnectArgs} {cb : Nat}
    (h : run step (init : Cm T) tr = .ok s) (hk : s.started k = some (.client args))
    (hcb : args.connect = some cb) (he : .event k e q ∈ tr) (hend : e ∈ endings) :
    s.connects.filter (·.attempt = k) =
        [⟨k, cb, if e = .established then some k else none, args.connectArg⟩] ↔ e ∉ dropped := by
  have ht := told_run h
  have hat := (ledger_run h).conn k _ hk
  rw [hat.connects]
  rcases ht.past k e q he (List.mem_cons_of_mem _ hend) with hg | ⟨hg, rfl⟩ | ⟨hg, rfl | rfl⟩
  · simp only [endings, List.mem_cons, List.not_mem_nil, or_false] at hend
    rcases hend with rfl | rfl | rfl | rfl | rfl | rfl
    -- the ledger has no connection that failed with `ESTABLISHED`
    case inr.inr.inl => simpa [possible, hg] using hat.possible
    all_goals simp [hg, reports, hcb, dropped]
  · simp [hg, reports, hcb, dropped]
  · simp [hg, reports, hcb, dropped]
  · simp [endings] at hend

/-- A client whose callback is the function 5. -/
def oneAttempt : ConnectArgs := ⟨some 5, 0, none, 0⟩

/-- The server does not accept. -/
theorem connect_reported_oneAttempt :
    ∃ s, run step (init : Cm (.chained id)) [.connect oneAttempt, .event 0 .addrResolved 9,
        .event 0 .routeResolved 0, .event 0 .rejected 0] = .ok s ∧
      s.connects.filter (·.attempt = 0) = [⟨0, 5, none, 0⟩] := by
  obtain ⟨s, hs, hk⟩ := Outcome.ends_iff.mp (show Outcome.Ends
    (fun s => s.started 0 = some (.client oneAttempt))
    (run step (init : Cm (.chained id)) [.connect oneAttempt, .event 0 .addrResolved 9,
      .event 0 .routeResolved 0, .event 0 .rejected 0]) from by decide)
  exact ⟨s, hs, (connect_reported_iff (e := .rejected) (q := 0) hs hk rfl (by simp)
    (by simp [endings])).mpr (by simp [dropped])⟩

/-- The address cannot be resolved, and the callback is never called. -/
theorem addrError_unreported :
    ∃ s, run step (init : Cm (.chained id)) [.connect oneAttempt, .event 0 .addrError 0] = .ok s ∧
      s.started 0 = some (.client oneAttempt) ∧ s.stage 0 = .failed .addrError ∧ s.connects = [] :=
  ⟨_, rfl, rfl, rfl, rfl⟩

end

end Cm

end RdmaRpc
