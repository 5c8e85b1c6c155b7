import RdmaRpc.Server.Ownership
import RdmaRpc.Server.Connections

/-!
# Server — Conservation

Whether a context can go missing.  `Accounted` says where a context has to be, and `Conserved`
that each one is there, and that all are posted again when the server is at rest.

A step gives a context up in two ways (`lost`): `rdma_destroy_qp` discards the receive of a message
in progress, a response write or a completion, or the switch of `rdma_cq_poller` hands a completion
to a branch that posts nothing.
The contexts are conserved exactly in the runs where no step does (`conserved_iff`): what is
given up is never found again.
-/

namespace RdmaRpc
open Lib

namespace Server

/-- Context `i` is posted, or has a message in progress or a response write outstanding on a queue
pair that exists, or has a completion still to be handled, or is held by the handler. -/
def Accounted (s : Server) (i : Nat) : Prop :=
  i ∈ s.recvPosted ∨ (∃ q ∈ s.qps, ∃ t, (q, t) ∈ s.taken ∧ t.wrId = i) ∨ i ∈ ctxsDone s.pending ∨
    i ∈ s.heldCtxs ∨ ∃ q ∈ s.qps, ∃ p, ((q, p) ∈ s.sends ∨ (q, p) ∈ s.landed) ∧ p.wr.wrId = i

/-- No context is lost, and at rest all are posted again. -/
structure Conserved (s : Server) : Prop where
  accounted : ∀ i ∈ s.supply, s.Accounted i
  posted : s.qps = [] → s.held = [] → s.pending = [] → s.recvPosted.Perm s.supply

/-- The step leaves no context behind: `rdma_destroy_qp` finds no message in progress and no
response write outstanding on the queue pair, and discards no completion; and a completion handled
carries an opcode the server posts. -/
def KeepsContexts (s : Server) : Event → Prop
  | .destroyQp drop => ∀ q ∈ s.destroying, Keyed.queue q s.taken = [] ∧ Keyed.queue q s.sends = [] ∧
      Keyed.queue q s.landed = [] ∧ (drop → ∀ e ∈ s.cq.queue, e.wc.qpNum ≠ q)
  | .handle t => ∀ p ∈ s.cq.next t, ¬ Ignored p.1.wc.opcode
  | _ => True

instance (s : Server) : DecidablePred s.KeepsContexts
  | .destroyQp drop => inferInstanceAs (Decidable (∀ q ∈ s.destroying, Keyed.queue q s.taken = [] ∧
      Keyed.queue q s.sends = [] ∧ Keyed.queue q s.landed = [] ∧
      (drop → ∀ e ∈ s.cq.queue, e.wc.qpNum ≠ q)))
  | .handle t => inferInstanceAs (Decidable (∀ p ∈ s.cq.next t, ¬ Ignored p.1.wc.opcode))
  | .connectRequest _ | .established _ | .disconnected _ | .freeConn | .take _ | .place ..
  | .arrive .. | .arriveFail .. | .poll .. | .dispatch _ | .handlerWrite .. | .answer .. | .land _
  | .writeDone .. | .flush .. => isTrue trivial

section
variable {s s' : Server} {e : Event} {i : Nat}

theorem filter_eq_nil_iff_queue {α : Type} {l : List (QpNum × α)} {q : QpNum} :
    l.filter (·.1 = q) = [] ↔ Keyed.queue q l = [] := by
  rw [Keyed.queue_eq_map_filter, List.map_eq_nil_iff]

/-- What `rdma_destroy_qp` gives up. -/
theorem discarded_eq_nil {q : QpNum} {drop : Bool} :
    discarded s q drop = [] ↔ Keyed.queue q s.taken = [] ∧ Keyed.queue q s.sends = [] ∧
      Keyed.queue q s.landed = [] ∧ (drop → ∀ e ∈ s.cq.queue, e.wc.qpNum ≠ q) := by
  simp only [discarded, List.append_eq_nil_iff, ctxsOf, ctxsTaken, ctxsDone, List.map_eq_nil_iff,
    filter_eq_nil_iff_queue, and_assoc]
  simp only [List.filter_eq_nil_iff, decide_eq_true_eq, not_and]
  exact and_congr_right fun _ => and_congr_right fun _ => and_congr_right fun _ =>
    ⟨fun h hd e he => h e he hd, fun h e he hd => h hd e he⟩

theorem lost_eq_nil : lost s e = [] ↔ KeepsContexts s e := by
  cases e with
  | destroyQp drop =>
      simp only [lost, KeepsContexts]
      rcases hq : s.destroying with - | q
      · simp
      · simp [discarded_eq_nil]
  | handle t =>
      simp only [lost, KeepsContexts]
      rcases hn : s.cq.next t with - | ⟨e, cq⟩
      · simp
      · simp [Prod.ext_iff]
  | _ => simp [lost, KeepsContexts]

/-! ### Queue pairs that exist -/

/-- What is in progress or outstanding is so on a queue pair that exists, and a queue pair has one
message in progress. -/
structure WorkLive (s : Server) : Prop where
  taken : ∀ q t, (q, t) ∈ s.taken → q ∈ s.qps
  single : (s.taken.map Prod.fst).Nodup
  writes : ∀ q p, (q, p) ∈ s.sends ∨ (q, p) ∈ s.landed → q ∈ s.qps

/-- A queue pair is there until `rdma_destroy_qp`. -/
theorem mem_qps_step {q : QpNum} (he : ∀ drop, e ≠ .destroyQp drop) (h : step s e = .ok s')
    (hq : q ∈ s.qps) : q ∈ s'.qps := by
  cases hcm : e.cm with
  | false => rwa [(step_cm hcm h).2.2.1]
  | true =>
      cases e with
      | connectRequest q' =>
          obtain ⟨-, -, rfl⟩ := step_connectRequest h
          exact List.mem_cons_of_mem _ hq
      | disconnected c => obtain ⟨-, conn, -, rfl⟩ := step_disconnected h; exact hq
      | destroyQp drop => exact absurd rfl (he drop)
      | freeConn => obtain ⟨c, -, rfl⟩ := step_freeConn h; exact hq
      | _ => cases hcm

theorem single_step (hw : s.WorkLive) (h : step s e = .ok s') : (s'.taken.map Prod.fst).Nodup := by
  have hpop : ∀ {q t taken}, Keyed.pop q s.taken = some (t, taken) →
      (q :: taken.map Prod.fst).Nodup := fun hp =>
    ((Keyed.pop_perm hp).map Prod.fst).nodup_iff.mp hw.single
  cases e with
  | connectRequest q =>
      obtain ⟨-, -, rfl⟩ := step_connectRequest h
      obtain ⟨-, -, -, -, -, -, ht, -⟩ := withRequests_frame s
      exact ht ▸ hw.single
  | established c => obtain rfl := step_established h; exact hw.single
  | disconnected c => obtain ⟨-, conn, -, rfl⟩ := step_disconnected h; exact hw.single
  | destroyQp drop =>
      obtain ⟨c, q, -, rfl⟩ := step_destroying h
      exact (List.filter_sublist.map _).nodup hw.single
  | freeConn => obtain ⟨c, -, rfl⟩ := step_freeConn h; exact hw.single
  | take q =>
      obtain ⟨-, hnone, i, sge, srq, -, rfl⟩ := step_take.mp h
      rw [List.map_append, List.nodup_append]
      refine ⟨hw.single, List.nodup_singleton _, fun q' hq' x hx => ?_⟩
      rw [List.mem_singleton.mp hx]
      rintro rfl
      -- the queue pair has no message in progress
      obtain ⟨p, hp, rfl⟩ := List.mem_map.mp hq'
      rw [Keyed.queue_eq_nil] at hnone
      exact hnone _ hp rfl
  | place q bytes =>
      obtain ⟨t, taken, hp, -, rfl⟩ := step_place.mp h
      rw [List.map_append]
      exact List.nodup_append_comm.mp (hpop hp)
  | arrive q imm origin =>
      obtain ⟨t, taken, hp, rfl⟩ := step_arrive.mp h
      exact (List.nodup_cons.mp (hpop hp)).2
  | arriveFail q code fields junk origin =>
      obtain ⟨t, taken, hp, rfl⟩ := step_arriveFail h
      exact (List.nodup_cons.mp (hpop hp)).2
  | poll t k => obtain rfl := step_poll h; exact hw.single
  | handle t =>
      obtain ⟨-, e, cq, -, h⟩ := step_handle h
      rcases onCompletion_eq_ok h with ⟨-, -, rfl⟩ | ⟨-, -, -, -, rfl⟩ | ⟨-, rfl⟩ <;> exact hw.single
  | dispatch t => obtain ⟨e, looked, c, conn, -, -, -, -, rfl⟩ := step_dispatch h; exact hw.single
  | handlerWrite i addr bytes => obtain ⟨-, -, -, rfl⟩ := step_handlerWrite h; exact hw.single
  | answer i resp respSz =>
      obtain ⟨hd, held, c, conn, q, -, -, -, -, -, rfl⟩ := step_answer h
      exact hw.single
  | land q => obtain ⟨p, sends, -, rfl⟩ := step_land h; exact hw.single
  | writeDone q en => obtain ⟨p, landed, -, rfl⟩ := step_writeDone h; exact hw.single
  | flush q code fields => obtain ⟨p, sends, -, rfl⟩ := step_flush h; exact hw.single

/-- Where a response write comes from. -/
theorem step_writes {q : QpNum} {p : Posted} (h : step s e = .ok s')
    (hp : (q, p) ∈ s'.sends ∨ (q, p) ∈ s'.landed) :
    ((q, p) ∈ s.sends ∨ (q, p) ∈ s.landed) ∨ q ∈ s.qps ∧ q ∈ s'.qps := by
  cases e with
  | connectRequest q' =>
      obtain ⟨-, -, rfl⟩ := step_connectRequest h
      obtain ⟨-, -, -, -, -, -, -, -, -, hsends, hlanded, -⟩ := withRequests_frame s
      rw [← hsends, ← hlanded]
      exact .inl hp
  | established c => obtain rfl := step_established h; exact .inl hp
  | disconnected c => obtain ⟨-, conn, -, rfl⟩ := step_disconnected h; exact .inl hp
  | destroyQp drop =>
      obtain ⟨c, q', -, rfl⟩ := step_destroying h
      exact .inl (hp.imp (fun h => (List.mem_filter.mp h).1) fun h => (List.mem_filter.mp h).1)
  | freeConn => obtain ⟨c, -, rfl⟩ := step_freeConn h; exact .inl hp
  | take q' => obtain ⟨-, -, j, sge, srq, -, rfl⟩ := step_take.mp h; exact .inl hp
  | place q' bytes => obtain ⟨t, taken, -, -, rfl⟩ := step_place.mp h; exact .inl hp
  | arrive q' imm origin => obtain ⟨t, taken, -, rfl⟩ := step_arrive.mp h; exact .inl hp
  | arriveFail q' code fields junk origin =>
      obtain ⟨t, taken, -, rfl⟩ := step_arriveFail h
      exact .inl hp
  | poll t k => obtain rfl := step_poll h; exact .inl hp
  | handle t =>
      obtain ⟨-, e, cq, -, h⟩ := step_handle h
      rcases onCompletion_eq_ok h with ⟨-, -, rfl⟩ | ⟨-, -, -, -, rfl⟩ | ⟨-, rfl⟩ <;> exact .inl hp
  | dispatch t => obtain ⟨e, looked, c, conn, -, -, -, -, rfl⟩ := step_dispatch h; exact .inl hp
  | handlerWrite i addr bytes => obtain ⟨-, -, -, rfl⟩ := step_handlerWrite h; exact .inl hp
  | answer i resp respSz =>
      obtain ⟨hd, held, c, conn, q', -, -, -, -, hq, rfl⟩ := step_answer h
      simp only [List.mem_append, List.mem_singleton, Prod.mk.injEq] at hp
      rcases hp with (hp | ⟨rfl, -⟩) | hp
      · exact .inl (.inl hp)
      · exact .inr ⟨hq, hq⟩
      · exact .inl (.inr hp)
  | land q' =>
      obtain ⟨p₁, sends, hpop, rfl⟩ := step_land h
      simp only [List.mem_append, List.mem_singleton, Prod.mk.injEq] at hp
      rcases hp with hp | hp | ⟨rfl, rfl⟩
      · exact .inl (.inl ((Keyed.pop_sublist hpop).subset hp))
      · exact .inl (.inr hp)
      · exact .inl (.inl (Keyed.mem_of_pop hpop))
  | writeDone q' en =>
      obtain ⟨p₁, landed, hpop, rfl⟩ := step_writeDone h
      exact .inl (hp.imp_right ((Keyed.pop_sublist hpop).subset ·))
  | flush q' code fields =>
      obtain ⟨p₁, sends, hpop, rfl⟩ := step_flush h
      exact .inl (hp.imp_left ((Keyed.pop_sublist hpop).subset ·))

theorem workLive_step (hw : s.WorkLive) (h : step s e = .ok s') : s'.WorkLive := by
  refine ⟨fun q t hp => ?_, single_step hw h, fun q p hp => ?_⟩
  · by_cases he : ∀ drop, e ≠ .destroyQp drop
    · refine mem_qps_step he h ?_
      rcases step_taken h hp with hp | ⟨-, -, hq, -⟩ | ⟨t', n, hp, -⟩
      · exact hw.taken q t hp
      · exact hq
      · exact hw.taken q t' hp
    · -- the work of the queue pair goes with it
      obtain ⟨drop, rfl⟩ := not_forall_not.mp he
      obtain ⟨c, q', -, rfl⟩ := step_destroying h
      obtain ⟨hp, hne⟩ := List.mem_filter.mp hp
      exact List.mem_filter.mpr ⟨hw.taken q t hp, hne⟩
  · by_cases he : ∀ drop, e ≠ .destroyQp drop
    · rcases step_writes h hp with hp | ⟨-, hq⟩
      · exact mem_qps_step he h (hw.writes q p hp)
      · exact hq
    · obtain ⟨drop, rfl⟩ := not_forall_not.mp he
      obtain ⟨c, q', -, rfl⟩ := step_destroying h
      simp only [rdmaDestroyQp, List.mem_filter, decide_eq_true_eq] at hp ⊢
      rcases hp with ⟨hp, hne⟩ | ⟨hp, hne⟩
      · exact ⟨hw.writes q p (.inl hp), hne⟩
      · exact ⟨hw.writes q p (.inr hp), hne⟩

theorem workLive_run {cfg : ServerCfg} {mem : Mem} {tr : List Event}
    (h : run step (init cfg mem) tr = .ok s) : s.WorkLive :=
  run_invariant (P := WorkLive) (fun _ _ _ hw hs => workLive_step hw hs)
    ⟨fun q t hp => by simp [init] at hp, by simp [init], fun q p hp => by simp [init] at hp⟩ h

/-- When a message in progress is taken off, no other of its queue pair is left. -/
theorem WorkLive.ne_of_popped (hw : s.WorkLive) {q q' : QpNum} {t t' : Taken}
    {taken : List (QpNum × Taken)} (h : Keyed.pop q s.taken = some (t, taken))
    (h' : (q', t') ∈ taken) : q' ≠ q := by
  have hnd := ((Keyed.pop_perm h).map Prod.fst).nodup_iff.mp hw.single
  rintro rfl
  exact (List.nodup_cons.mp hnd).1 (List.mem_map.mpr ⟨_, h', rfl⟩)

/-- The places of a context are where it has to be. -/
theorem accounted_iff (hw : s.WorkLive) : s.Accounted i ↔ i ∈ s.places := by
  have htaken : (∃ q ∈ s.qps, ∃ t, (q, t) ∈ s.taken ∧ t.wrId = i) ↔ i ∈ ctxsTaken s.taken := by
    simp only [ctxsTaken, List.mem_map, Prod.exists]
    constructor
    · rintro ⟨q, -, t, ht, rfl⟩
      exact ⟨q, t, ht, rfl⟩
    · rintro ⟨q, t, ht, rfl⟩
      exact ⟨q, hw.taken q t ht, t, ht, rfl⟩
  have hwrites : (∃ q ∈ s.qps, ∃ p, ((q, p) ∈ s.sends ∨ (q, p) ∈ s.landed) ∧ p.wr.wrId = i) ↔
      i ∈ ctxsOf s.sends ∨ i ∈ ctxsOf s.landed := by
    simp only [ctxsOf, List.mem_map, Prod.exists]
    constructor
    · rintro ⟨q, -, p, hp | hp, rfl⟩
      · exact .inl ⟨q, p, hp, rfl⟩
      · exact .inr ⟨q, p, hp, rfl⟩
    · rintro (⟨q, p, hp, rfl⟩ | ⟨q, p, hp, rfl⟩)
      · exact ⟨q, hw.writes q p (.inl hp), p, .inl hp, rfl⟩
      · exact ⟨q, hw.writes q p (.inr hp), p, .inr hp, rfl⟩
  have hpending : i ∈ ctxsDone s.pending ↔
      i ∈ ctxsDone s.cq.all ∨ i ∈ ctxsDone (s.looked.map Prod.snd) := by
    rw [pending, ctxsDone, List.map_append, List.mem_append, ctxsDone, ctxsDone]
  rw [Accounted, htaken, hwrites, hpending, recvPosted, heldCtxs, places]
  simp only [List.mem_append, or_assoc]

/-- A server at rest has its contexts posted or nowhere. -/
theorem places_at_rest (hl : s.WorkLive) (hq : s.qps = []) (hh : s.held = [])
    (hp : s.pending = []) : s.places = s.recvPosted := by
  have hnone : ∀ q, q ∉ s.qps := fun q => by rw [hq]; exact List.not_mem_nil
  have htaken : s.taken = [] := List.eq_nil_iff_forall_not_mem.mpr fun p hp =>
    hnone _ (hl.taken p.1 p.2 hp)
  have hsends : s.sends = [] := List.eq_nil_iff_forall_not_mem.mpr fun p hp =>
    hnone _ (hl.writes p.1 p.2 (.inl hp))
  have hlanded : s.landed = [] := List.eq_nil_iff_forall_not_mem.mpr fun p hp =>
    hnone _ (hl.writes p.1 p.2 (.inr hp))
  simp only [pending, List.append_eq_nil_iff, List.map_eq_nil_iff] at hp
  simp [places, recvPosted, hp, hh, htaken, hsends, hlanded, ctxsDone, ctxsOf, ctxsTaken]

end

/-! ### Runs -/

section
variable {cfg : ServerCfg} {mem : Mem} {tr : List Event} {s : Server}

/-- **Conservation.**  In the state a run reaches the contexts are conserved exactly when no step
of the run has left one behind. -/
theorem conserved_iff (h : run step (init cfg mem) tr = .ok s) :
    Conserved s ↔ Along step KeepsContexts (init cfg mem) tr := by
  have hlive := workLive_run h
  have hperm := supply_perm h
  have hnd := List.nodup_append.mp (hperm.nodup_iff.mp supply_nodup)
  have hkeeps : Along step KeepsContexts (init cfg mem) tr ↔
      emitted step lost (init cfg mem) tr = [] := by
    rw [emitted_eq_nil h]
    exact ⟨Along.imp fun _ _ => lost_eq_nil.mpr, Along.imp fun _ _ => lost_eq_nil.mp⟩
  rw [hkeeps]
  constructor
  · intro hcons
    refine List.eq_nil_iff_forall_not_mem.mpr fun i hi => ?_
    -- a context given up is one of the supply, and at none of the places
    have hsup := hperm.mem_iff.mpr (List.mem_append_right _ hi)
    exact hnd.2.2 i ((accounted_iff hlive).mp (hcons.accounted i hsup)) i hi rfl
  · intro hlost
    rw [hlost, List.append_nil] at hperm
    refine ⟨fun i hi => (accounted_iff hlive).mpr (hperm.mem_iff.mp hi), fun hc hh hp => ?_⟩
    rw [← places_at_rest hlive hc hh hp]
    exact hperm.symm

/-- Two clients connect.  The request of one is answered and its response write handled; then this
client disconnects, while the handler holds the request of the other, which disconnects when its
response write has been handled. -/
def patientRun : List Event :=
  [.connectRequest 7, .connectRequest 8] ++ oneRound 7 0 ++ upToCall 8 ++
    [.disconnected 0, .destroyQp true, .freeConn] ++
    [.answer 1 4124 4, .land 8, .writeDone 8 .good, .poll 0 1, .handle 0] ++
    [.disconnected 1, .destroyQp true, .freeConn]

/-- Two disconnects that come late enough lose no context, and in the end all are posted. -/
theorem conserved_twoContexts :
    ∃ s, run step (init twoContexts fun _ => 0) patientRun = .ok s ∧ s.qps = [] ∧ s.held = [] ∧
      s.pending = [] ∧ s.recvPosted = [0, 1] ∧ Conserved s := by
  have h : run step (init twoContexts fun _ => 0) patientRun = .ok _ := rfl
  refine ⟨_, h, rfl, rfl, rfl, rfl, (conserved_iff h).mpr ?_⟩
  decide +kernel

/-- A client connects and sends a request that is answered; it disconnects before the response write
completes, while a second message is in progress. -/
def hastyRun : List Event :=
  [.connectRequest 7] ++ upToCall 7 ++ [.answer 0 4108 4, .take 7] ++
    [.disconnected 0, .destroyQp true, .freeConn]

/-- Both contexts are lost to the disconnect: the server is at rest and none is posted. -/
theorem context_lost :
    ∃ s, run step (init twoContexts fun _ => 0) hastyRun = .ok s ∧ s.qps = [] ∧ s.held = [] ∧
      s.pending = [] ∧ s.recvPosted = [] ∧ ¬ Conserved s := by
  refine ⟨_, rfl, rfl, rfl, rfl, rfl, fun h => ?_⟩
  exact absurd (h.posted rfl rfl rfl).length_eq (by decide)

end

end Server

end RdmaRpc
