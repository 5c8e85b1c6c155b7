import RdmaRpc.Server.Machine

/-!
# Server — Places

Where the contexts are.  A context is named by a receive on the shared queue, by a receive taken
for a message in progress, by a completion not yet handled, by a call the handler has not answered,
or by a response write not yet completed; `places` lists them all, each as often as it is named.

Every step moves contexts between these places.  `step_places` says so: what is named before a
step is named after it, but for the contexts the step gives up (`lost`), and the start-up of the
queue brings in each context once (`supply`).  From the one law come both halves of the matter:
no context is ever named twice (`places_nodup`), and none is missing as long as no step gives
one up (`places_perm`).
-/

namespace RdmaRpc
open Lib

namespace Server

/-- The contexts named by entries of a send queue. -/
def ctxsOf (l : List (QpNum × Posted)) : List Nat := l.map fun p => p.2.wr.wrId

/-- The contexts named by completions. -/
def ctxsDone (l : List (Cqe Nat)) : List Nat := l.map fun e => e.wc.wrId

/-- The contexts named by receives taken. -/
def ctxsTaken (l : List (QpNum × Taken)) : List Nat := l.map fun p => p.2.wrId

/-- The contexts, at each of the places one can be. -/
def places (s : Server) : List Nat :=
  s.srq.map RecvWr.wrId ++ ctxsTaken s.taken ++ ctxsDone s.cq.all ++
    ctxsDone (s.looked.map Prod.snd) ++ s.held.map Prod.fst ++ ctxsOf s.sends ++ ctxsOf s.landed

/-- The contexts `server_data_init` has set up. -/
def supply (s : Server) : List Nat := if s.hasRequests then List.range s.cfg.conReqNum else []

/-- The contexts `rdma_destroy_qp` discards with the queue pair `q`. -/
def discarded (s : Server) (q : QpNum) (drop : Bool) : List Nat :=
  ctxsTaken (s.taken.filter (·.1 = q)) ++ ctxsOf (s.sends.filter (·.1 = q)) ++
    ctxsOf (s.landed.filter (·.1 = q)) ++ ctxsDone (s.cq.queue.filter fun e => drop ∧ e.wc.qpNum = q)

/-- The queue pair `on_disconnect` is about to destroy. -/
def destroying (s : Server) : Option QpNum :=
  match s.leaving with
  | some (.destroyQp c) => (s.conns c).bind RdmaConnection.qp
  | _ => none

/-- The completion is handed to `on_send_req` or to the default of the switch. -/
def Ignored (op : WcOpcode) : Prop := op = .send ∨ ∃ code, op = .other code

instance : DecidablePred Ignored := fun op =>
  match op with
  | .send => isTrue (.inl rfl)
  | .other code => isTrue (.inr ⟨code, rfl⟩)
  | .rdmaWrite | .recv | .recvRdmaWithImm =>
      isFalse fun h => h.elim (fun h => nomatch h) (fun ⟨_, h⟩ => nomatch h)

/-- The contexts a step gives up. -/
def lost (s : Server) : Event → List Nat
  | .destroyQp drop => s.destroying.elim [] fun q => discarded s q drop
  | .handle t =>
      match s.cq.next t with
      | some (e, _) => if Ignored e.wc.opcode then [e.wc.wrId] else []
      | none => []
  | _ => []

section
variable {s s' : Server} {i : Nat}

/-- What `rdma_destroy_qp` does in `on_disconnect`. -/
theorem step_destroying {drop : Bool} (h : step s (.destroyQp drop) = .ok s') :
    ∃ c q, s.destroying = some q ∧
      s' = { rdmaDestroyQp s q drop with leaving := some (.free c) } := by
  obtain ⟨c, conn, q, hl, hc, hq, hs'⟩ := step_destroyQp h
  exact ⟨c, q, by simp [destroying, hl, hc, hq], hs'⟩

/-! ### What is named -/

theorem mem_places_srq {wr : RecvWr Nat} (h : wr ∈ s.srq) : wr.wrId ∈ s.places := by
  simp only [places, List.mem_append]
  exact .inl (.inl (.inl (.inl (.inl (.inl (List.mem_map_of_mem h))))))

theorem mem_places_taken {p : QpNum × Taken} (h : p ∈ s.taken) : p.2.wrId ∈ s.places := by
  simp only [places, List.mem_append]
  exact .inl (.inl (.inl (.inl (.inl (.inr (List.mem_map_of_mem h))))))

theorem mem_places_looked {p : Thread × Cqe Nat} (h : p ∈ s.looked) : p.2.wc.wrId ∈ s.places := by
  simp only [places, List.mem_append]
  exact .inl (.inl (.inl (.inr (List.mem_map_of_mem (List.mem_map_of_mem h)))))

theorem mem_places_held (h : i ∈ s.held.map Prod.fst) : i ∈ s.places := by
  simp only [places, List.mem_append]
  exact .inl (.inl (.inr h))

/-! ### Counting -/

theorem count_places : (places s).count i =
    (s.srq.map RecvWr.wrId).count i + (ctxsTaken s.taken).count i + (ctxsDone s.cq.all).count i +
      (ctxsDone (s.looked.map Prod.snd)).count i + (s.held.map Prod.fst).count i +
      (ctxsOf s.sends).count i + (ctxsOf s.landed).count i := by
  simp only [places, List.count_append]

theorem count_ctxsDone_push {cq : Completions Nat} {e : Cqe Nat} :
    (ctxsDone (cq.push e).all).count i = (ctxsDone cq.all).count i + [e.wc.wrId].count i := by
  have h := (Completions.all_push (c := cq) (e := e)).map (fun e => e.wc.wrId) |>.count_eq i
  rw [ctxsDone, h, List.map_cons, ← List.singleton_append, List.count_append, ctxsDone, Nat.add_comm]

theorem count_ctxsDone_next {cq cq' : Completions Nat} {e : Cqe Nat} {t : Thread}
    (h : cq.next t = some (e, cq')) :
    (ctxsDone cq.all).count i = (ctxsDone cq'.all).count i + [e.wc.wrId].count i := by
  have h := (Completions.all_next h).map (fun e => e.wc.wrId) |>.count_eq i
  rw [ctxsDone, h, List.map_cons, ← List.singleton_append, List.count_append, ctxsDone, Nat.add_comm]

/-- The oldest entry of a queue goes. -/
theorem count_map_pop {α : Type} {l l' : List (QpNum × α)} {q : QpNum} {a : α} (f : α → Nat)
    (h : Keyed.pop q l = some (a, l')) :
    (l.map fun p => f p.2).count i = (l'.map fun p => f p.2).count i + [f a].count i := by
  have h := (Keyed.pop_perm h).map (fun p => f p.2) |>.count_eq i
  rw [h, List.map_cons, ← List.singleton_append, List.count_append, Nat.add_comm]

theorem count_ctxsOf_pop {l l' : List (QpNum × Posted)} {q : QpNum} {p : Posted}
    (h : Keyed.pop q l = some (p, l')) :
    (ctxsOf l).count i = (ctxsOf l').count i + [p.wr.wrId].count i :=
  count_map_pop (fun p : Posted => p.wr.wrId) h

theorem count_ctxsTaken_pop {l l' : List (QpNum × Taken)} {q : QpNum} {t : Taken}
    (h : Keyed.pop q l = some (t, l')) :
    (ctxsTaken l).count i = (ctxsTaken l').count i + [t.wrId].count i :=
  count_map_pop Taken.wrId h

theorem count_map_filter {α : Type} (f : α → Nat) (p : α → Bool) (l : List α) :
    (l.map f).count i = ((l.filter p).map f).count i + ((l.filter (!p ·)).map f).count i := by
  have h := (List.filter_append_perm p l).map f |>.count_eq i
  rw [List.map_append, List.count_append] at h
  exact h.symm

/-- `rdma_destroy_qp` gives up what it discards. -/
theorem count_rdmaDestroyQp (q : QpNum) (drop : Bool) :
    (places (rdmaDestroyQp s q drop)).count i + (discarded s q drop).count i =
      (places s).count i := by
  have ht := count_map_filter (i := i) (fun p : QpNum × Taken => p.2.wrId) (·.1 = q) s.taken
  have hs := count_map_filter (i := i) (fun p : QpNum × Posted => p.2.wr.wrId) (·.1 = q) s.sends
  have hl := count_map_filter (i := i) (fun p : QpNum × Posted => p.2.wr.wrId) (·.1 = q) s.landed
  have hc := count_map_filter (i := i) (fun e : Cqe Nat => e.wc.wrId)
    (fun e => drop ∧ e.wc.qpNum = q) s.cq.queue
  simp only [count_places, rdmaDestroyQp, discarded, List.count_append, ctxsOf, ctxsTaken, ctxsDone,
    Completions.all, List.map_append] at *
  simp only [decide_not] at *
  omega

/-! ### The law of a step -/

/-- Nothing is named before the contexts are set up. -/
def Started (s : Server) : Prop := s.hasRequests = false → places s = []

theorem Started.hasRequests_of_mem (hs : s.Started) (hi : i ∈ s.places) : s.hasRequests = true := by
  by_contra hr
  rw [hs (by simpa using hr)] at hi
  cases hi

theorem count_withRequests (hs : s.Started) :
    (places s.withRequests).count i + (supply s).count i =
      (places s).count i + (supply s.withRequests).count i := by
  cases hr : s.hasRequests with
  | true => simp [withRequests, hr]
  | false =>
      have hp := hs hr
      have hw : (fun x => (startupWr s.cfg x).wrId) = id := rfl
      simp only [places, List.append_eq_nil_iff, List.map_eq_nil_iff] at hp
      simp [count_places, hp, withRequests, hr, serverDataInit, supply, Function.comp_def, hw]

/-- **The law of a step.**  What is named before a step is named after it, but for what the
step gives up; the start-up of the queue brings in each context once. -/
theorem step_places {e : Event} (hs : s.Started) (h : step s e = .ok s') :
    (places s ++ supply s').Perm (places s' ++ lost s e ++ supply s) := by
  refine List.perm_iff_count.mpr fun i => ?_
  simp only [List.count_append]
  cases e with
  | connectRequest q =>
      obtain ⟨-, -, rfl⟩ := step_connectRequest h
      have := count_withRequests (i := i) hs
      simp only [lost, List.count_nil, count_places, supply] at this ⊢
      omega
  | established c =>
      obtain rfl := step_established h
      simp [lost]
  | disconnected c =>
      obtain ⟨-, conn, -, rfl⟩ := step_disconnected h
      simp [lost, supply, places]
  | destroyQp drop =>
      obtain ⟨c, q, hq, hs'⟩ := step_destroying h
      have hsup : supply s' = supply s := by rw [hs']; rfl
      have hpl : places s' = places (rdmaDestroyQp s q drop) := by rw [hs']; rfl
      have := count_rdmaDestroyQp (i := i) (s := s) q drop
      simp only [lost, hq, Option.elim_some]
      rw [hsup, hpl]
      omega
  | freeConn =>
      obtain ⟨c, -, rfl⟩ := step_freeConn h
      simp [lost, supply, places]
  | take q =>
      obtain ⟨-, -, j, sge, srq, hsrq, rfl⟩ := step_take.mp h
      simp only [count_places, hsrq, supply, lost, ctxsTaken, List.map_append, List.map_cons,
        List.map_nil, List.count_append, List.count_cons, List.count_nil]
      omega
  | place q bytes =>
      obtain ⟨t, taken, hp, -, rfl⟩ := step_place.mp h
      have hn := count_ctxsTaken_pop (i := i) hp
      simp only [count_places, supply, lost, ctxsTaken, List.map_append, List.map_cons,
        List.map_nil, List.count_append, List.count_nil] at hn ⊢
      omega
  | arrive q imm origin =>
      obtain ⟨t, taken, hp, rfl⟩ := step_arrive.mp h
      have hn := count_ctxsTaken_pop (i := i) hp
      simp only [count_places, count_ctxsDone_push, supply, lost, List.count_nil]
      omega
  | arriveFail q code fields junk origin =>
      obtain ⟨t, taken, hp, rfl⟩ := step_arriveFail h
      have hn := count_ctxsTaken_pop (i := i) hp
      simp only [count_places, count_ctxsDone_push, supply, lost, Ending.wc_wrId, List.count_nil]
      omega
  | poll t k =>
      obtain rfl := step_poll h
      have := (Completions.all_poll (c := s.cq) (t := t) (k := k)).map (fun e => e.wc.wrId)
        |>.count_eq i
      simp only [count_places, supply, lost, ctxsDone, List.count_nil] at this ⊢
      omega
  | handle t =>
      obtain ⟨-, e, cq, he, h⟩ := step_handle h
      have hn := count_ctxsDone_next (i := i) he
      simp only [lost, he]
      -- the context is posted again, looked up, or, where the opcode is unknown, lost
      rcases onCompletion_eq_ok h with ⟨hop, -, rfl⟩ | ⟨hop, -, -, -, rfl⟩ | ⟨hop, rfl⟩
      · rw [if_neg (by rcases hop with hop | ⟨hop, -⟩ <;> simp [Ignored, hop])]
        simp only [count_places, supply, repostWr, List.map_append, List.map_cons, List.map_nil,
          List.count_append, List.count_nil]
        omega
      · rw [if_neg (by simp [Ignored, hop])]
        simp only [count_places, supply, ctxsDone, List.map_append, List.map_cons, List.map_nil,
          List.count_append, List.count_nil] at hn ⊢
        omega
      · rw [if_pos (show Ignored e.wc.opcode from hop)]
        simp only [count_places, supply]
        omega
  | dispatch t =>
      obtain ⟨e, looked, c, conn, hp, -, -, -, rfl⟩ := step_dispatch h
      have hn := (Keyed.pop_perm hp).map (fun p => p.2.wc.wrId) |>.count_eq i
      simp only [count_places, supply, lost, ctxsDone, List.map_append, List.map_cons,
        List.map_nil, List.map_map, Function.comp_def, List.count_append, List.count_nil,
        List.count_cons] at hn ⊢
      omega
  | handlerWrite j addr bytes =>
      obtain ⟨-, -, -, rfl⟩ := step_handlerWrite h
      simp [lost, supply, places]
  | answer j resp respSz =>
      obtain ⟨hd, held, c, conn, q, hp, -, -, -, -, rfl⟩ := step_answer h
      have hn := (Keyed.pop_perm hp).map Prod.fst |>.count_eq i
      simp only [count_places, supply, lost, ctxsOf, List.map_append, List.map_cons,
        List.map_nil, List.count_append, List.count_nil, List.count_cons] at hn ⊢
      omega
  | land q =>
      obtain ⟨p, sends, hp, rfl⟩ := step_land h
      have hn := count_ctxsOf_pop (i := i) hp
      simp only [count_places, supply, lost, ctxsOf, List.map_append, List.map_cons,
        List.map_nil, List.count_append, List.count_nil] at hn ⊢
      omega
  | writeDone q en =>
      obtain ⟨p, landed, hp, rfl⟩ := step_writeDone h
      have hn := count_ctxsOf_pop (i := i) hp
      simp only [count_places, count_ctxsDone_push, supply, lost, Ending.wc_wrId,
        List.count_nil]
      omega
  | flush q code fields =>
      obtain ⟨p, sends, hp, rfl⟩ := step_flush h
      have hn := count_ctxsOf_pop (i := i) hp
      simp only [count_places, count_ctxsDone_push, supply, lost, Ending.wc_wrId,
        List.count_nil]
      omega

theorem step_frame {e : Event} (h : step s e = .ok s') :
    s'.cfg = s.cfg ∧ (s.hasRequests = true → s'.hasRequests = true) := by
  cases e with
  | connectRequest q =>
      obtain ⟨-, -, rfl⟩ := step_connectRequest h
      exact ⟨(withRequests_frame s).1, fun _ => (withRequests_frame s).2.1⟩
  | established c => obtain rfl := step_established h; exact ⟨rfl, id⟩
  | disconnected c => obtain ⟨-, conn, -, rfl⟩ := step_disconnected h; exact ⟨rfl, id⟩
  | destroyQp drop => obtain ⟨c, q, -, rfl⟩ := step_destroying h; exact ⟨rfl, id⟩
  | freeConn => obtain ⟨c, -, rfl⟩ := step_freeConn h; exact ⟨rfl, id⟩
  | take q => obtain ⟨-, -, j, sge, srq, -, rfl⟩ := step_take.mp h; exact ⟨rfl, id⟩
  | place q bytes => obtain ⟨t, taken, -, -, rfl⟩ := step_place.mp h; exact ⟨rfl, id⟩
  | arrive q imm origin => obtain ⟨t, taken, -, rfl⟩ := step_arrive.mp h; exact ⟨rfl, id⟩
  | arriveFail q code fields junk origin =>
      obtain ⟨t, taken, -, rfl⟩ := step_arriveFail h; exact ⟨rfl, id⟩
  | poll t k => obtain rfl := step_poll h; exact ⟨rfl, id⟩
  | handle t =>
      obtain ⟨-, e, cq, -, h⟩ := step_handle h
      rcases onCompletion_eq_ok h with ⟨-, -, rfl⟩ | ⟨-, -, -, -, rfl⟩ | ⟨-, rfl⟩ <;> exact ⟨rfl, id⟩
  | dispatch t =>
      obtain ⟨e, looked, c, conn, -, -, -, -, rfl⟩ := step_dispatch h; exact ⟨rfl, id⟩
  | handlerWrite j addr bytes => obtain ⟨-, -, -, rfl⟩ := step_handlerWrite h; exact ⟨rfl, id⟩
  | answer j resp respSz =>
      obtain ⟨hd, held, c, conn, q, -, -, -, -, -, rfl⟩ := step_answer h; exact ⟨rfl, id⟩
  | land q => obtain ⟨p, sends, -, rfl⟩ := step_land h; exact ⟨rfl, id⟩
  | writeDone q en => obtain ⟨p, landed, -, rfl⟩ := step_writeDone h; exact ⟨rfl, id⟩
  | flush q code fields => obtain ⟨p, sends, -, rfl⟩ := step_flush h; exact ⟨rfl, id⟩

theorem started_step {e : Event} (hs : s.Started) (h : step s e = .ok s') : s'.Started := by
  intro hr
  have hr₀ : s.hasRequests = false := by
    by_contra hne
    simp [(step_frame h).2 (by simpa using hne)] at hr
  have hp := step_places hs h
  rw [hs hr₀, supply, supply, hr, hr₀] at hp
  exact (by simpa using hp : places s' = [] ∧ lost s e = []).1

theorem cfg_run {tr : List Event} (h : run step s tr = .ok s') : s'.cfg = s.cfg :=
  run_invariant (P := fun s₁ => s₁.cfg = s.cfg) (fun _ _ _ hP hs => (step_frame hs).1.trans hP) rfl h

/-- **The law of a run.** -/
theorem run_places {tr : List Event} (hs : s.Started) (h : run step s tr = .ok s') :
    (places s ++ supply s').Perm (places s' ++ emitted step lost s tr ++ supply s) := by
  induction tr generalizing s with
  | nil => cases h; simp [emitted]
  | cons e tr ih =>
      obtain ⟨s₁, h₁, h⟩ := Outcome.bind_eq_ok.mp h
      refine List.perm_iff_count.mpr fun i => ?_
      have c₁ := (step_places hs h₁).count_eq i
      have c₂ := (ih (started_step hs h₁) h).count_eq i
      simp only [emitted, h₁, List.count_append] at c₁ c₂ ⊢
      omega

end

/-! ### From the start -/

section
variable {cfg : ServerCfg} {mem : Mem} {tr : List Event} {s : Server}

theorem started_init : (init cfg mem).Started := fun _ => rfl

/-- Each context set up is named once or has been given up. -/
theorem supply_perm (h : run step (init cfg mem) tr = .ok s) :
    (supply s).Perm (places s ++ emitted step lost (init cfg mem) tr) := by
  have hp := run_places started_init h
  simpa [places, supply, init, ctxsDone, ctxsOf, ctxsTaken] using hp

theorem supply_nodup : (supply s).Nodup := by
  unfold supply; split
  · exact List.nodup_range
  · exact List.nodup_nil

/-- No context is named twice. -/
theorem places_nodup (h : run step (init cfg mem) tr = .ok s) : (places s).Nodup :=
  (List.nodup_append.mp ((supply_perm h).nodup_iff.mp supply_nodup)).1

theorem lt_of_mem_places (h : run step (init cfg mem) tr = .ok s) {i : Nat} (hi : i ∈ places s) :
    i < cfg.conReqNum := by
  have hm := (supply_perm h).mem_iff.mpr (List.mem_append_left _ hi)
  unfold supply at hm
  split at hm
  · rw [cfg_run h] at hm; exact List.mem_range.mp hm
  · cases hm

/-- A list of contexts named at places apart is no longer than the contexts are many. -/
theorem length_le_of_subperm (h : run step (init cfg mem) tr = .ok s) {l : List Nat}
    (hl : l.Subperm (places s)) : l.length ≤ cfg.conReqNum := by
  have hsub : l ⊆ List.range cfg.conReqNum := fun i hi =>
    List.mem_range.mpr (lt_of_mem_places h (hl.subset hi))
  obtain ⟨l₁, hp, hsl⟩ := hl
  have hnd : l.Nodup := hp.nodup_iff.mp (hsl.nodup (places_nodup h))
  simpa using (List.subperm_of_subset hnd hsub).length_le

end

end Server

end RdmaRpc
