import RdmaRpc.Server.Lifetimes

/-!
# Server — Exchange

The server in runs where nothing fails and no connection is lost (`Good`).  Every completion is
then of the kind its opcode says (`Smooth`), and each request of a client passes through the
server once.

`asked` lists the requests that have arrived and whose response has not been written, each as
often as the server holds it, and `served` those whose response has been written and whose
context has not been posted again.  A step moves requests on, and takes none in or out but at the
two ends (`count_step`); and each request that is in occupies one context, as does each message in
progress (`length_places`).
-/

namespace RdmaRpc
open Lib

namespace Server

/-- Nothing fails and no connection is lost; a request carries immediate data. -/
def Event.Good : Event → Prop
  | .disconnected _ | .destroyQp _ | .freeConn | .arriveFail .. | .flush ..
  | .writeDone _ (.bad ..) => False
  | .arrive _ imm _ => imm.isSome
  | _ => True

/-- The completion is that of a receive, or of a response write, that ended well. -/
def Ended (e : Cqe Nat) : Prop :=
  e.wc.status = .success ∧
    (e.kind = .serverRecv ∧ e.wc.opcode = .recv ∧ e.wc.withImm = true ∨
      e.kind = .respWrite ∧ e.wc.opcode = .rdmaWrite)

/-- The completions are those of good runs. -/
structure Smooth (s : Server) : Prop where
  leaving : s.leaving = none
  cq : ∀ e ∈ s.cq.all, Ended e
  looked : ∀ p ∈ s.looked, p.2.kind = .serverRecv ∧ Ended p.2 ∧ headerSize < p.2.wc.byteLen

/-- The requests of the completions of kind `k`. -/
def originsOf (k : WrKind) (l : List (Cqe Nat)) : List Origin :=
  (l.filter (·.kind = k)).map Cqe.origin

/-- The requests that have arrived and whose response has not been written. -/
def asked (s : Server) : List Origin :=
  originsOf .serverRecv s.cq.all ++ s.looked.map (·.2.origin) ++ s.held.map (·.2.origin) ++
    s.sends.map (·.2.origin)

/-- The requests whose response has been written and whose context has not been posted again. -/
def served (s : Server) : List Origin :=
  s.landed.map (·.2.origin) ++ originsOf .respWrite s.cq.all

/-- The requests a step brings in. -/
def arriving : Event → List Origin
  | .arrive _ _ o => [o]
  | _ => []

/-- The requests whose response a step writes. -/
def landing (s : Server) : Event → List Origin
  | .land q => ((Keyed.pop q s.sends).map fun p => p.1.origin).toList
  | _ => []

section
variable {s s' : Server} {e : Event} {o : Origin} {k : WrKind}

theorem Smooth.orderly (hs : s.Smooth) (h : e.Good) : s.Orderly e := by
  cases e with
  | disconnected c => exact h.elim
  | destroyQp drop => exact h.elim
  | freeConn => exact h.elim
  | poll t k =>
      intro q hq
      rw [destroying, hs.leaving] at hq
      cases hq
  | arriveFail q code fields junk origin => exact h.elim
  | flush q code fields => exact h.elim
  | writeDone q en =>
      cases en with
      | good => trivial
      | bad code fields => exact h.elim
  | _ => trivial

/-! ### Good completions -/

theorem smooth_init {cfg : ServerCfg} {mem : Mem} : (init cfg mem).Smooth :=
  ⟨rfl, by simp [init], by simp [init]⟩

theorem Smooth.frame (hs : s.Smooth) (hleave : s'.leaving = s.leaving)
    (hcq : ∀ e ∈ s'.cq.all, e ∈ s.cq.all ∨ Ended e) (hl : ∀ p ∈ s'.looked, p ∈ s.looked) : s'.Smooth :=
  ⟨hleave.trans hs.leaving, fun e he => (hcq e he).elim (hs.cq e) id,
    fun p hp => hs.looked p (hl p hp)⟩

theorem smooth_step (hs : s.Smooth) (hg : e.Good) (h : step s e = .ok s') : s'.Smooth := by
  cases e with
  | connectRequest q =>
      obtain ⟨-, -, rfl⟩ := step_connectRequest h
      obtain ⟨-, -, -, -, -, hleave, -, -, -, -, -, hcq, hlook, -⟩ := withRequests_frame s
      exact hs.frame hleave (fun e he => .inl (hcq ▸ he)) fun p hp => hlook ▸ hp
  | established c => obtain rfl := step_established h; exact hs
  | disconnected c => exact hg.elim
  | destroyQp drop => exact hg.elim
  | freeConn => exact hg.elim
  | take q =>
      obtain ⟨-, -, i, sge, srq, -, rfl⟩ := step_take.mp h
      exact hs.frame rfl (fun e he => .inl he) fun p hp => hp
  | place q bytes =>
      obtain ⟨t, taken, -, -, rfl⟩ := step_place.mp h
      exact hs.frame rfl (fun e he => .inl he) fun p hp => hp
  | arrive q imm origin =>
      obtain ⟨t, taken, -, rfl⟩ := step_arrive.mp h
      refine hs.frame rfl (fun e he => ?_) fun p hp => hp
      -- in a good run a message arrives whole
      rcases Completions.mem_all_push.mp he with rfl | he
      · exact .inr ⟨rfl, .inl ⟨rfl, rfl, hg⟩⟩
      · exact .inl he
  | arriveFail q code fields junk origin => exact hg.elim
  | poll t k =>
      obtain rfl := step_poll h
      exact hs.frame rfl (fun e he => .inl (Completions.mem_all_poll.mp he)) fun p hp => hp
  | handle t =>
      obtain ⟨-, e, cq, hn, h⟩ := step_handle h
      have hsub : ∀ e' ∈ cq.all, e' ∈ s.cq.all := fun e' he' => Completions.mem_of_mem_next hn he'
      have he := hs.cq e (Completions.mem_of_next hn)
      rcases onCompletion_eq_ok h with ⟨-, -, rfl⟩ | ⟨hop, -, hlen, -, rfl⟩ | ⟨-, rfl⟩
      · exact hs.frame rfl (fun e' he' => .inl (hsub e' he')) fun p hp => hp
      · refine ⟨hs.leaving, fun e' he' => hs.cq e' (hsub e' he'), fun p hp => ?_⟩
        rcases List.mem_append.mp hp with hp | hp
        · exact hs.looked p hp
        · cases List.mem_singleton.mp hp
          refine ⟨?_, he, hlen⟩
          rcases he.2 with ⟨hk, -⟩ | ⟨-, hop'⟩
          · exact hk
          · rw [hop] at hop'; cases hop'
      · exact hs.frame rfl (fun e' he' => .inl (hsub e' he')) fun p hp => hp
  | dispatch t =>
      obtain ⟨e, looked, c, conn, hp, -, -, -, rfl⟩ := step_dispatch h
      exact hs.frame rfl (fun e he => .inl he) fun p hp' => (Keyed.pop_sublist hp).subset hp'
  | handlerWrite i addr bytes =>
      obtain ⟨-, -, -, rfl⟩ := step_handlerWrite h
      exact hs.frame rfl (fun e he => .inl he) fun p hp => hp
  | answer i resp respSz =>
      obtain ⟨hd, held, c, conn, q, -, -, -, -, -, rfl⟩ := step_answer h
      exact hs.frame rfl (fun e he => .inl he) fun p hp => hp
  | land q =>
      obtain ⟨p, sends, -, rfl⟩ := step_land h
      exact hs.frame rfl (fun e he => .inl he) fun p hp => hp
  | writeDone q en =>
      obtain ⟨p, landed, -, rfl⟩ := step_writeDone h
      cases en with
      | bad code fields => exact hg.elim
      | good =>
          refine hs.frame rfl (fun e he => ?_) fun p hp => hp
          rcases Completions.mem_all_push.mp he with rfl | he
          · exact .inr ⟨rfl, .inr ⟨rfl, rfl⟩⟩
          · exact .inl he
  | flush q code fields => exact hg.elim

/-- Completions that ended well are posted or looked up, never ignored. -/
theorem Smooth.lost_eq_nil (hs : s.Smooth) (hg : e.Good) : lost s e = [] := by
  cases e with
  | destroyQp drop => exact hg.elim
  | handle t =>
      refine Server.lost_eq_nil.mpr fun p hn hig => ?_
      have he := (hs.cq p.1 (Completions.mem_of_next hn)).2
      rcases hig with hop | ⟨code, hop⟩ <;> simp [hop] at he
  | _ => rfl

/-! ### Counting requests -/

theorem count_originsOf_perm {l l' : List (Cqe Nat)} (h : l.Perm l') :
    (originsOf k l).count o = (originsOf k l').count o :=
  ((h.filter _).map _).count_eq o

theorem originsOf_cons {ce : Cqe Nat} {l : List (Cqe Nat)} :
    originsOf k (ce :: l) = (if ce.kind = k then [ce.origin] else []) ++ originsOf k l := by
  simp only [originsOf, List.filter_cons, decide_eq_true_eq]
  split <;> rfl

theorem count_asked : (asked s).count o =
    (originsOf .serverRecv s.cq.all).count o + (s.looked.map (·.2.origin)).count o +
      (s.held.map (·.2.origin)).count o + (s.sends.map (·.2.origin)).count o := by
  simp only [asked, List.count_append]

theorem count_served : (served s).count o =
    (s.landed.map (·.2.origin)).count o + (originsOf .respWrite s.cq.all).count o := by
  simp only [served, List.count_append]

theorem count_pop {α : Type} {l l' : List (α × Posted)} [DecidableEq α] {a : α} {p : Posted}
    (h : Keyed.pop a l = some (p, l')) :
    (l.map (·.2.origin)).count o = (l'.map (·.2.origin)).count o + [p.origin].count o := by
  have h := (Keyed.pop_perm h).map (·.2.origin) |>.count_eq o
  rw [h, List.map_cons, ← List.singleton_append, List.count_append, Nat.add_comm]

/-- A completion handled: a receive becomes a lookup, a response write goes. -/
theorem count_handled {t : Thread} {ce : Cqe Nat} {cq : Completions Nat}
    (hn : s.cq.next t = some (ce, cq)) : (originsOf k s.cq.all).count o =
      (if ce.kind = k then [ce.origin] else []).count o + (originsOf k cq.all).count o := by
  rw [count_originsOf_perm (Completions.all_next hn), originsOf_cons, List.count_append]

theorem count_pushed {ce : Cqe Nat} {cq : Completions Nat} : (originsOf k (cq.push ce).all).count o =
    (if ce.kind = k then [ce.origin] else []).count o + (originsOf k cq.all).count o := by
  rw [count_originsOf_perm Completions.all_push, originsOf_cons, List.count_append]

/-- **Requests come in at one end and go out at the other**, in a step of a good run. -/
theorem count_step (hs : s.Smooth) (hg : e.Good) (h : step s e = .ok s') :
    (asked s).count o + (arriving e).count o = (asked s').count o + (landing s e).count o ∧
      (served s').count o ≤ (served s).count o + (landing s e).count o := by
  rw [count_asked, count_asked, count_served, count_served]
  cases e with
  | connectRequest q =>
      obtain ⟨-, -, rfl⟩ := step_connectRequest h
      obtain ⟨-, -, -, -, -, -, -, -, -, h₁, h₂, h₃, h₄, h₅, -⟩ := withRequests_frame s
      simp [arriving, landing, h₁, h₂, h₃, h₄, h₅]
  | established c => obtain rfl := step_established h; simp [arriving, landing]
  | disconnected c => exact hg.elim
  | destroyQp drop => exact hg.elim
  | freeConn => exact hg.elim
  | take q =>
      obtain ⟨-, -, i, sge, srq, -, rfl⟩ := step_take.mp h
      simp [arriving, landing]
  | place q bytes =>
      obtain ⟨t, taken, -, -, rfl⟩ := step_place.mp h
      simp [arriving, landing]
  | arrive q imm origin =>
      obtain ⟨t, taken, -, rfl⟩ := step_arrive.mp h
      simp only [count_pushed, arriving, landing, if_true, if_false, List.count_nil, reduceCtorEq]
      omega
  | arriveFail q code fields junk origin => exact hg.elim
  | poll t j =>
      obtain rfl := step_poll h
      simp [arriving, landing, count_originsOf_perm Completions.all_poll]
  | handle t =>
      obtain ⟨-, ce, cq, hn, h⟩ := step_handle h
      obtain ⟨-, hkind⟩ := hs.cq ce (Completions.mem_of_next hn)
      simp only [arriving, landing, count_handled hn, List.count_nil]
      -- a receive is looked up, a response write posted again
      rcases onCompletion_eq_ok h with ⟨hop, -, rfl⟩ | ⟨hop, -, -, -, rfl⟩ | ⟨hop, rfl⟩ <;>
        rcases hkind with ⟨hk, hop', -⟩ | ⟨hk, hop'⟩
      · rcases hop with hop | ⟨-, hst⟩
        · rw [hop] at hop'; cases hop'
        · exact absurd (hs.cq ce (Completions.mem_of_next hn)).1 hst
      · simp [hk]
      · simp only [hk, if_true, List.map_append, List.map_cons, List.map_nil, List.count_append,
          reduceCtorEq, if_false, List.count_nil]
        omega
      · rw [hop] at hop'; cases hop'
      · simp [hop'] at hop
      · simp [hop'] at hop
  | dispatch t =>
      obtain ⟨ce, looked, c, conn, hp, -, -, -, rfl⟩ := step_dispatch h
      have hn := (Keyed.pop_perm hp).map (·.2.origin) |>.count_eq o
      simp only [arriving, landing, List.map_append, List.map_cons, List.map_nil, List.count_append,
        List.count_cons, List.count_nil] at hn ⊢
      omega
  | handlerWrite i addr bytes =>
      obtain ⟨-, -, -, rfl⟩ := step_handlerWrite h
      simp [arriving, landing]
  | answer i resp respSz =>
      obtain ⟨hd, held, c, conn, q, hp, -, -, -, -, rfl⟩ := step_answer h
      have hn := (Keyed.pop_perm hp).map (·.2.origin) |>.count_eq o
      simp only [arriving, landing, List.map_append, List.map_cons, List.map_nil, List.count_append,
        List.count_cons, List.count_nil] at hn ⊢
      omega
  | land q =>
      obtain ⟨p, sends, hp, rfl⟩ := step_land h
      have hn := count_pop (o := o) hp
      simp only [arriving, landing, hp, Option.map_some, Option.toList_some, List.map_append,
        List.map_cons, List.map_nil, List.count_append, List.count_nil] at hn ⊢
      omega
  | writeDone q en =>
      obtain ⟨p, landed, hp, rfl⟩ := step_writeDone h
      have hn := count_pop (o := o) hp
      simp only [arriving, landing, count_pushed, if_true, if_false, List.count_nil, reduceCtorEq]
        at hn ⊢
      omega
  | flush q code fields => exact hg.elim

/-! ### Assertions -/

/-- The one check that can fail in a good run is that of a message's length. -/
theorem Smooth.step_fault (hs : s.Smooth) (hl : s.Lively) (hw : s.Wired) {f : Fault}
    (h : step s e = .fault f) :
    ∃ ce ∈ s.cq.all, ce.kind = .serverRecv ∧ ¬ headerSize < ce.wc.byteLen := by
  have hf : f.ofConn = false := hl.connSafe hw e f h
  cases e with
  | handle t =>
      obtain ⟨ce, cq, hn, h⟩ := step_handle_eq_fault h
      have he := Completions.mem_of_next hn
      -- a receive has its immediate, and a response write its record
      obtain ⟨hst, ⟨hk, hop, himm⟩ | ⟨-, hop⟩⟩ := hs.cq ce he
      · refine ⟨ce, he, hk, fun hlen => ?_⟩
        simp only [onCompletion, rdmaCqPoller, hop, onRecvReq, hst, ne_eq, not_true, if_false,
          onRecvReqFind, Outcome.bind_eq_fault, Outcome.check_eq_fault, hlen, himm, false_and,
          Outcome.pure_eq, reduceCtorEq, and_false, exists_false, or_false] at h
      · have hlive : LiveConn { s with cq } ce.wc.wrId := (hl.cq.all ce he).live (.inl hop)
        rw [onCompletion, rdmaCqPoller, hop] at h
        exact absurd h (onWriteRespDone_ne_fault hlive)
  | dispatch t =>
      simp only [step, onRecvReqCall, Outcome.bind_eq_fault, Outcome.choose_ne_fault,
        Outcome.deref_eq_fault, Outcome.check_eq_fault, Outcome.pure_eq, false_or, Prod.exists,
        reduceCtorEq, and_false, exists_false, or_false] at h
      obtain ⟨-, -, -, ⟨-, rfl⟩ | ⟨-, -, ⟨-, rfl⟩ | ⟨-, -, -, rfl⟩⟩⟩ := h <;> cases hf
  | answer i resp respSz =>
      simp only [step, kvRdmaMakeResp, Outcome.bind_eq_fault, Outcome.choose_ne_fault,
        Outcome.deref_eq_fault, Outcome.check_eq_fault, Outcome.pure_eq, false_or, Prod.exists,
        reduceCtorEq, and_false, exists_false, or_false] at h
      obtain ⟨-, -, -, ⟨-, rfl⟩ | ⟨-, -, ⟨-, rfl⟩ | ⟨-, -, ⟨-, rfl⟩ | ⟨-, -, -, rfl⟩⟩⟩⟩ := h <;> cases hf
  | connectRequest q => exact absurd h (hw.step_ne_fault rfl)
  | disconnected c => exact absurd h (hw.step_ne_fault rfl)
  | destroyQp drop => exact absurd h (hw.step_ne_fault rfl)
  | freeConn => exact absurd h (hw.step_ne_fault rfl)
  | established c =>
      simp only [step, onEstablished, Outcome.bind_eq_fault, Outcome.require_ne_fault,
        Outcome.deref_eq_fault, Outcome.pure_eq, false_or, reduceCtorEq, and_false, exists_false,
        or_false] at h
      obtain ⟨-, -, -, rfl⟩ := h
      cases hf
  | _ => simp [step, Outcome.bind_eq_fault, takeRecv_ne_fault] at h

end

/-! ### Runs -/

section
variable {cfg : ServerCfg} {mem : Mem} {tr : List Event} {s : Server}

theorem smooth_run (hg : ∀ e ∈ tr, e.Good) (h : run step (init cfg mem) tr = .ok s) : s.Smooth :=
  run_invariant_along (P := Smooth) (fun _ _ _ hs hg h => smooth_step hs hg h) smooth_init
    (along_of_forall fun _ e he => hg e he) h

theorem lively_good (hg : ∀ e ∈ tr, e.Good) (h : run step (init cfg mem) tr = .ok s) : s.Lively :=
  lively_run (along_of_invariant (fun _ _ _ hs he h => smooth_step hs he h)
    (fun _ _ hs he => hs.orderly he) smooth_init hg) h

/-- No context is missing after a good run. -/
theorem places_perm (hg : ∀ e ∈ tr, e.Good) (h : run step (init cfg mem) tr = .ok s) :
    s.supply.Perm s.places := by
  have hlost : emitted step lost (init cfg mem) tr = [] :=
    (emitted_eq_nil h).mpr (along_of_invariant (fun _ _ _ hs he h => smooth_step hs he h)
      (fun _ _ hs he => hs.lost_eq_nil he) smooth_init hg)
  simpa [hlost] using supply_perm h

/-- Each request that is in occupies a context, and each message in progress does. -/
theorem length_places (hs : s.Smooth) :
    s.places.length = s.srq.length + s.taken.length + (s.asked ++ s.served).length := by
  have hkinds : ∀ l : List (Cqe Nat), (∀ e ∈ l, Ended e) →
      l.length = (originsOf .serverRecv l).length + (originsOf .respWrite l).length := by
    intro l
    induction l with
    | nil => exact fun _ => rfl
    | cons e l ih =>
        intro hl
        have hlen := ih fun e' he' => hl e' (List.mem_cons_of_mem e he')
        rw [originsOf_cons, originsOf_cons, List.length_cons, hlen]
        rcases (hl e List.mem_cons_self).2 with ⟨hk, -⟩ | ⟨hk, -⟩ <;> simp [hk] <;> omega
  have hcq := hkinds s.cq.all hs.cq
  simp only [places, asked, served, ctxsDone, ctxsOf, ctxsTaken, List.length_append, List.length_map]
  omega

end

end Server

end RdmaRpc
