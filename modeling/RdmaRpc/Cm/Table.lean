import RdmaRpc.Cm.Ledger
import Mathlib.Data.List.Nodup

/-!
# Cm — Table

The table of the server connections while `on_connect_request` and `on_disconnect` are at work: the
two are taken step by step (`Walk`), and what the table says is looked at between the steps.

A handler under way has come from a state a run of the whole handlers reaches, by some of its steps
(`Under`), and when it is done that state has taken the event (`walk_refines`).  The keys of the
table are the numbers of queue pairs that are there, each in one element (`Tabled`), so that a lookup
between two events finds the owner of the number, if there is one (`table_identifies`).
-/

namespace RdmaRpc
open Lib

namespace Cm

variable {T : Uthash QpNum CmId ConnId}

/-! ### The handlers, step by step -/

/-- The steps of `on_connect_request` and of `on_disconnect`. -/
inductive Micro where
  | conn (id : CmId)
  | create (id : CmId) (q : QpNum)
  | add (c : ConnId)
  | accept (id : CmId)
  | data (id : CmId)
  | destroyQp (id : CmId)
  | destroyId (id : CmId)
  | finish (c : ConnId)
deriving DecidableEq, Repr

def Micro.exec (s : Cm T) : Micro → Outcome Misuse (Cm T)
  | .conn id => onConnectRequestConn s id
  | .create id q => do
    Outcome.require (s.Fresh q)
    createConnetion s id q
  | .add c => hashAdd s c
  | .accept id => return rdmaAccept s id
  | .data id => onDisconnectData s id
  | .destroyQp id => rdmaDestroyQp s id
  | .destroyId id => rdmaDestroyId s id
  | .finish c => onDisconnectConn s c

/-- `on_connect_request` -/
def acceptSteps (id : CmId) (q : QpNum) : List Micro := [.conn id, .create id q, .add id, .accept id]

/-- `on_disconnect`, for the record `c` -/
def leaveSteps (id : CmId) (c : ConnId) : List Micro :=
  [.data id, .destroyQp id, .destroyId id, .finish c]

/-- The handle, and the steps the handler at work has still to take. -/
structure Walk (T : Uthash QpNum CmId ConnId) where
  cm : Cm T
  todo : List Micro

inductive Walk.Event where
  /-- anything but the two handlers, as a whole -/
  | other (e : Cm.Event)
  /-- `on_connect_request` is called, for the listener `l` -/
  | connectRequest (l : CmId) (q : QpNum)
  /-- `on_disconnect` is called -/
  | disconnected (id : CmId)
  /-- the handler takes its next step -/
  | next

/-- The event calls neither of the two handlers. -/
def Event.isOther : Event → Bool
  | .connectRequest .. | .event _ .disconnected _ => false
  | _ => true

def Walk.step (w : Walk T) : Walk.Event → Outcome Misuse (Walk T)
  | .other e => do
    Outcome.require (w.todo = [] ∧ e.isOther)
    let s ← Cm.step w.cm e
    return ⟨s, []⟩
  | .connectRequest l q => do
    Outcome.require (w.todo = [] ∧ w.cm.started l = some .listener)
    return ⟨request w.cm l, acceptSteps w.cm.next q⟩
  | .disconnected id => do
    Outcome.require (w.todo = [] ∧ (w.cm.started id).isSome)
    let g ← Outcome.choose ((w.cm.stage id).after .disconnected)
    let s := w.cm.setStage id g
    let (c, _) ← contextOf s id
    return ⟨s, leaveSteps id c⟩
  | .next => match w.todo with
    | [] => .blocked
    | m :: ms => do
      let s ← m.exec w.cm
      return ⟨s, ms⟩

/-- The state between two steps of a handler that was called in the state `s`. -/
inductive Under (s : Cm T) : Walk T → Prop
  | accept {l : CmId} {q : QpNum} {done todo : List Micro} {s' : Cm T}
      (hl : s.started l = some .listener) (hsteps : acceptSteps s.next q = done ++ todo)
      (hrun : run Micro.exec (request s l) done = .ok s') : Under s ⟨s', todo⟩
  | leave {id : CmId} {g : Stage} {conn : RdmaConnection} {c : ConnId} {done todo : List Micro}
      {s' : Cm T} (hid : (s.started id).isSome) (hg : (s.stage id).after .disconnected = some g)
      (hc : contextOf (s.setStage id g) id = .ok (c, conn))
      (hsteps : leaveSteps id c = done ++ todo)
      (hrun : run Micro.exec (s.setStage id g) done = .ok s') : Under s ⟨s', todo⟩

section
variable {s s' : Cm T} {k : Nat} {q : QpNum} {w w' : Walk T} {m : Micro} {ms : List Micro}

theorem Under.next (h : Under s ⟨s', m :: ms⟩) {s'' : Cm T} (hm : m.exec s' = .ok s'') :
    Under s ⟨s'', ms⟩ := by
  cases h with
  | accept hl hsteps hrun =>
      exact .accept hl (by rw [hsteps, List.append_assoc]; rfl)
        (run_snoc_eq_ok.mpr ⟨s', hrun, hm⟩)
  | leave hid hg hc hsteps hrun =>
      exact .leave hid hg hc (by rw [hsteps, List.append_assoc]; rfl)
        (run_snoc_eq_ok.mpr ⟨s', hrun, hm⟩)

/-- The steps of `on_connect_request` put together. -/
theorem run_acceptSteps (h : run Micro.exec s (acceptSteps k q) = .ok s') :
    onConnectRequest s k q = .ok s' := by
  obtain ⟨s₁, h₁, h⟩ := Outcome.bind_eq_ok.mp h
  obtain ⟨s₂, h₂, h⟩ := Outcome.bind_eq_ok.mp h
  obtain ⟨s₃, h₃, h⟩ := Outcome.bind_eq_ok.mp h
  obtain ⟨_, -, h₂⟩ := Outcome.bind_eq_ok.mp h₂
  have h₁ : onConnectRequestConn s k = .ok s₁ := h₁
  have h₃ : hashAdd s₂ k = .ok s₃ := h₃
  simpa [onConnectRequest, h₁, h₂, h₃, Micro.exec] using h

/-- Making the record of the connection makes no queue pair. -/
theorem onConnectRequestConn_frame {l : CmId} {s₁ : Cm T}
    (h : onConnectRequestConn (request s l) k = .ok s₁) :
    s₁.qps = s.qps ∧ s₁.next = s.next + 1 := by
  obtain ⟨⟨_, lconn⟩, -, h⟩ := Outcome.bind_eq_ok.mp h
  dsimp only at h
  split at h <;> cases h
  exact ⟨rfl, rfl⟩

/-- The number is fresh when `on_connect_request` is called. -/
theorem fresh_of_run {l : CmId} (h : run Micro.exec (request s l) (acceptSteps k q) = .ok s') :
    s.Fresh q := by
  obtain ⟨s₁, h₁, h⟩ := Outcome.bind_eq_ok.mp h
  obtain ⟨s₂, h₂, h⟩ := Outcome.bind_eq_ok.mp h
  obtain ⟨_, hfresh, h₂⟩ := Outcome.bind_eq_ok.mp h₂
  obtain ⟨hsmall, hfresh⟩ := Outcome.require_eq_ok.mp hfresh
  have hsame := onConnectRequestConn_frame h₁
  rw [hsame.1, hsame.2] at hfresh
  exact ⟨hsmall, fun id hid => hfresh id (Nat.lt_succ_of_lt hid)⟩

/-- The steps of `on_disconnect` put together. -/
theorem run_leaveSteps {c : ConnId} {conn : RdmaConnection} (hc : contextOf s k = .ok (c, conn))
    (h : run Micro.exec s (leaveSteps k c) = .ok s') : onDisconnect s k = .ok s' := by
  obtain ⟨s₁, h₁, h⟩ := Outcome.bind_eq_ok.mp h
  obtain ⟨s₂, h₂, h⟩ := Outcome.bind_eq_ok.mp h
  obtain ⟨s₃, h₃, h⟩ := Outcome.bind_eq_ok.mp h
  have h₁ : onDisconnectData s k = .ok s₁ := h₁
  have h₂ : rdmaDestroyQp s₁ k = .ok s₂ := h₂
  have h₃ : rdmaDestroyId s₂ k = .ok s₃ := h₃
  rw [run_singleton] at h
  simpa [onDisconnect, hc, h₁, h₂, h₃, Micro.exec] using h

/-- A handler that is done has taken its event. -/
theorem Under.done (h : Under s w) (htodo : w.todo = []) : ∃ e, step s e = .ok w.cm := by
  obtain ⟨s', todo⟩ := w
  obtain rfl : todo = [] := htodo
  cases h with
  | @accept l q done _ _ hl hsteps hrun =>
      rw [List.append_nil] at hsteps
      subst hsteps
      refine ⟨.connectRequest l q, ?_⟩
      have hfresh := fresh_of_run hrun
      simp [step, Outcome.require, hl, hfresh, rdmaCmPoller, run_acceptSteps hrun]
  | @leave id g conn c done _ _ hid hg hc hsteps hrun =>
      rw [List.append_nil] at hsteps
      subst hsteps
      refine ⟨.event id .disconnected 0, ?_⟩
      simp [step, Outcome.require, hid, hg, Outcome.choose, rdmaCmPoller, run_leaveSteps hc hrun]

/-- The whole handlers reach the state. -/
def Reach (s : Cm T) : Prop := ∃ tr, run step init tr = .ok s

theorem Reach.step {e : Event} (h : s.Reach) (he : Cm.step s e = .ok s') : s'.Reach := by
  obtain ⟨tr, h⟩ := h
  exact ⟨tr ++ [e], run_snoc_eq_ok.mpr ⟨s, h, he⟩⟩

theorem Reach.ledger (h : s.Reach) : s.Ledger := by
  obtain ⟨tr, h⟩ := h
  exact ledger_run h

/-- **The steps refine the handlers**: between two events the state is one that a run of the whole
handlers reaches, and otherwise it comes from such a state. -/
theorem walk_refines {tr : List Walk.Event} (h : run Walk.step ⟨init, []⟩ tr = .ok w) :
    (w.todo = [] ∧ w.cm.Reach) ∨ ∃ s, s.Reach ∧ Under s w := by
  refine run_invariant (P := fun w => (w.todo = [] ∧ w.cm.Reach) ∨ ∃ s, s.Reach ∧ Under s w)
    (fun w e w' hw he => ?_) (.inl ⟨rfl, [], rfl⟩) h
  have hidle (htodo : w.todo = []) : w.cm.Reach := by
    rcases hw with ⟨-, hw⟩ | ⟨s, hs, hu⟩
    · exact hw
    · obtain ⟨e, he⟩ := hu.done htodo
      exact hs.step he
  cases e with
  | other e =>
      obtain ⟨_, hreq, he⟩ := Outcome.bind_eq_ok.mp he
      obtain ⟨s, hs, he⟩ := Outcome.bind_eq_ok.mp he
      cases he
      exact .inl ⟨rfl, (hidle (Outcome.require_eq_ok.mp hreq).1).step hs⟩
  | connectRequest l q =>
      obtain ⟨_, hreq, he⟩ := Outcome.bind_eq_ok.mp he
      cases he
      obtain ⟨htodo, hl⟩ := Outcome.require_eq_ok.mp hreq
      exact .inr ⟨w.cm, hidle htodo, .accept hl (List.nil_append _).symm rfl⟩
  | disconnected id =>
      obtain ⟨_, hreq, he⟩ := Outcome.bind_eq_ok.mp he
      obtain ⟨g, hg, he⟩ := Outcome.bind_eq_ok.mp he
      obtain ⟨⟨c, conn⟩, hc, he⟩ := Outcome.bind_eq_ok.mp he
      cases he
      obtain ⟨htodo, hid⟩ := Outcome.require_eq_ok.mp hreq
      exact .inr ⟨w.cm, hidle htodo,
        .leave hid (Outcome.choose_eq_ok.mp hg) hc (List.nil_append _).symm rfl⟩
  | next =>
      obtain ⟨s', todo⟩ := w
      cases todo with
      | nil => cases he
      | cons m ms =>
          obtain ⟨s'', hm, he⟩ := Outcome.bind_eq_ok.mp he
          cases he
          rcases hw with ⟨hnil, -⟩ | ⟨s, hs, hu⟩
          · cases hnil
          · exact .inr ⟨s, hs, hu.next hm⟩

/-! ### The table -/

/-- The numbers of the queue pairs that are there: no two have the same. -/
structure Numbered (s : Cm T) : Prop where
  inj : ∀ i j q, s.qps i = some q → s.qps j = some q → i = j
  small : ∀ i q, s.qps i = some q → i < s.next ∧ q < 2 ^ 24

/-- The key of each element is the number of the queue pair of its own connection. -/
structure Tabled (s : Cm T) : Prop where
  nodup : (T.items s.connections).Nodup
  key : ∀ e ∈ T.elems s.connections, e.key = e.item
  qp : ∀ e ∈ T.elems s.connections, s.qps e.key = some e.added
  conn : ∀ e ∈ T.elems s.connections, ∃ conn, s.conns e.item = some conn ∧ conn.qp = some e.key

theorem Numbered.same (hn : s.Numbered) (hq : s'.qps = s.qps) (hnext : s.next ≤ s'.next) :
    s'.Numbered where
  inj := by rw [hq]; exact hn.inj
  small := fun i q hi => by
    rw [hq] at hi
    exact (hn.small i q hi).imp_left (Nat.lt_of_lt_of_le · hnext)

theorem Numbered.create (hn : s.Numbered) (hf : s.Fresh q) (hk : k < s'.next)
    (hq : s'.qps = Function.update s.qps k (some q)) (hnext : s.next ≤ s'.next) : s'.Numbered := by
  have hold {i q'} (hi : s.qps i = some q') : q' ≠ q := fun h =>
    hf.2 i (hn.small i q' hi).1 (h ▸ hi)
  refine ⟨fun i j q' hi hj => ?_, fun i q' hi => ?_⟩
  · rw [hq] at hi hj
    by_cases hik : i = k <;> by_cases hjk : j = k
    · rw [hik, hjk]
    · subst hik
      rw [Function.update_self, Option.some.injEq] at hi
      rw [Function.update_of_ne hjk] at hj
      exact absurd hi.symm (hold hj)
    · subst hjk
      rw [Function.update_self, Option.some.injEq] at hj
      rw [Function.update_of_ne hik] at hi
      exact absurd hj.symm (hold hi)
    · rw [Function.update_of_ne hik] at hi
      rw [Function.update_of_ne hjk] at hj
      exact hn.inj i j q' hi hj
  · rw [hq] at hi
    by_cases hik : i = k
    · subst hik
      rw [Function.update_self, Option.some.injEq] at hi
      exact ⟨hk, hi ▸ hf.1⟩
    · rw [Function.update_of_ne hik] at hi
      exact (hn.small i q' hi).imp_left (Nat.lt_of_lt_of_le · hnext)

theorem Numbered.destroy (hn : s.Numbered) (hq : s'.qps = Function.update s.qps k none)
    (hnext : s'.next = s.next) : s'.Numbered := by
  have hold {i q'} (hi : s'.qps i = some q') : s.qps i = some q' := by
    rw [hq] at hi
    by_cases hik : i = k
    · subst hik
      simp at hi
    · rwa [Function.update_of_ne hik] at hi
  exact ⟨fun i j q' hi hj => hn.inj i j q' (hold hi) (hold hj),
    fun i q' hi => hnext ▸ hn.small i q' (hold hi)⟩

/-- A step that leaves the elements and their connections alone. -/
theorem Tabled.same (ht : s.Tabled) (hconn : s'.connections = s.connections)
    (hsame : ∀ j ∈ T.items s.connections, s'.qps j = s.qps j ∧ s'.conns j = s.conns j) :
    s'.Tabled where
  nodup := hconn ▸ ht.nodup
  key := hconn ▸ ht.key
  qp := fun e he => by
    rw [hconn] at he
    have hj := (hsame e.item (List.mem_map_of_mem he)).1
    rw [ht.key e he, hj, ← ht.key e he]
    exact ht.qp e he
  conn := fun e he => by
    rw [hconn] at he
    rw [(hsame e.item (List.mem_map_of_mem he)).2]
    exact ht.conn e he

theorem Tabled.add {role : Role} (ht : s.Tabled) (hk : k ∉ T.items s.connections)
    (hq : s.qps k = some q) (hc : s.conns k = some ⟨k, some k, role⟩) :
    Tabled { s with connections := T.add q k k s.connections } := by
  have hmem (e) : e ∈ T.elems (T.add q k k s.connections) ↔
      e = ⟨q, k, k⟩ ∨ e ∈ T.elems s.connections := by
    rw [(T.elems_add q k k s.connections).mem_iff, List.mem_cons]
  refine ⟨Uthash.items_add.nodup_iff.mpr (List.nodup_cons.mpr ⟨hk, ht.nodup⟩), fun e he => ?_,
    fun e he => ?_, fun e he => ?_⟩
  all_goals rcases (hmem e).mp he with rfl | he
  · rfl
  · exact ht.key e he
  · exact hq
  · exact ht.qp e he
  · exact ⟨_, hc, rfl⟩
  · exact ht.conn e he

theorem Tabled.delete (ht : s.Tabled) (hk : k ∈ T.items s.connections) :
    Tabled { s with connections := T.delete k s.connections } := by
  have hsub (e) (he : e ∈ T.elems (T.delete k s.connections)) : e ∈ T.elems s.connections :=
    List.mem_of_mem_filter ((T.elems_delete k _ hk ht.nodup).mem_iff.mp he)
  exact ⟨Uthash.nodup_items_delete hk ht.nodup, fun e he => ht.key e (hsub e he),
    fun e he => ht.qp e (hsub e he), fun e he => ht.conn e (hsub e he)⟩

/-- A new connection is in no element, and has no queue pair. -/
theorem Ledger.next_notMem (hl : s.Ledger) : s.next ∉ T.items s.connections := by
  simpa [alive] using (hl.blank s.next (Nat.le_refl _)).alive .entry

/-- The table is in order, and the connection `k` is in none of its elements. -/
structure Apart (s : Cm T) (k : Nat) : Prop where
  numbered : s.Numbered
  tabled : s.Tabled
  notMem : k ∉ T.items s.connections

namespace Apart

/-- A step that changes the connection `k` only, and no queue pair. -/
theorem same (ha : s.Apart k) (hconn : s'.connections = s.connections) (hq : s'.qps = s.qps)
    (hnext : s.next ≤ s'.next) (hc : ∀ j ≠ k, s'.conns j = s.conns j) : s'.Apart k where
  numbered := ha.numbered.same hq hnext
  tabled := ha.tabled.same hconn fun j hj => ⟨by rw [hq], hc j fun h => ha.notMem (h ▸ hj)⟩
  notMem := hconn ▸ ha.notMem

theorem conn (ha : s.Apart k) (h : onConnectRequestConn s k = .ok s') :
    s'.Apart k ∧ s'.next = s.next ∧ s'.ids k = some k ∧
      ∃ handler arg, s'.conns k = some ⟨k, none, .server handler arg⟩ := by
  obtain ⟨⟨_, lconn⟩, -, h⟩ := Outcome.bind_eq_ok.mp h
  dsimp only at h
  split at h <;> cases h
  refine ⟨ha.same rfl rfl (Nat.le_refl _) fun j hj => Function.update_of_ne hj _ _, rfl, ?_, ?_⟩
  · exact Function.update_self ..
  · exact ⟨_, _, Function.update_self ..⟩

theorem create {qp : Option CmId} {role : Role} (ha : s.Apart k) (hid : s.ids k = some k)
    (hc : s.conns k = some ⟨k, qp, role⟩) (hk : k < s.next) (hf : s.Fresh q)
    (h : createConnetion s k q = .ok s') :
    s'.Apart k ∧ s'.qps k = some q ∧ s'.conns k = some ⟨k, some k, role⟩ := by
  rw [createConnetion_eq hid hc] at h
  cases h
  refine ⟨⟨ha.numbered.create hf hk rfl (Nat.le_refl _), ha.tabled.same rfl
    fun j hj => ?_, ha.notMem⟩, Function.update_self .., Function.update_self ..⟩
  have hj : j ≠ k := fun h => ha.notMem (h ▸ hj)
  exact ⟨Function.update_of_ne hj _ _, Function.update_of_ne hj _ _⟩

theorem add {role : Role} (ha : s.Apart k) (hq : s.qps k = some q)
    (hc : s.conns k = some ⟨k, some k, role⟩) (h : hashAdd s k = .ok s') :
    s'.Numbered ∧ s'.Tabled := by
  simp only [hashAdd, hc, hq, Outcome.deref, Outcome.ok_bind, Outcome.pure_eq] at h
  cases h
  exact ⟨ha.numbered.same rfl (Nat.le_refl _), ha.tabled.add ha.notMem hq hc⟩

theorem destroyQp (ha : s.Apart k) (h : rdmaDestroyQp s k = .ok s') : s'.Apart k := by
  obtain ⟨_, -, h⟩ := Outcome.bind_eq_ok.mp h
  cases h
  refine ⟨ha.numbered.destroy rfl rfl, ha.tabled.same rfl fun j hj => ?_,
    ha.notMem⟩
  have hj : j ≠ k := fun h => ha.notMem (h ▸ hj)
  exact ⟨Function.update_of_ne hj _ _, rfl⟩

theorem destroyId (ha : s.Apart k) (h : rdmaDestroyId s k = .ok s') : s'.Apart k := by
  obtain ⟨_, -, h⟩ := Outcome.bind_eq_ok.mp h
  cases h
  exact ha.same rfl rfl (Nat.le_refl _) fun _ _ => rfl

theorem finish (ha : s.Apart k) (h : onDisconnectConn s k = .ok s') : s'.Apart k := by
  obtain ⟨conn, -, h⟩ := Outcome.bind_eq_ok.mp h
  split at h <;> cases h <;>
    exact ha.same rfl rfl (Nat.le_refl _) fun j hj => Function.update_of_ne hj _ _

end Apart

theorem Ledger.accepted_of_mem (hl : s.Ledger) (h : k ∈ T.items s.connections) :
    s.started k = some .accepted := by
  cases hst : s.started k with
  | none =>
      have hnone := hl.blank k (Nat.le_of_not_lt fun hlt => by simpa [hst] using (hl.known k).mpr hlt)
      exact absurd h (by simpa [alive] using hnone.alive .entry)
  | some st =>
      have hentry := (hl.conn k st hst).alive .entry
      cases st <;> simp_all [alive, acquired]

/-- An accepted connection with a queue pair is in the table. -/
theorem Ledger.mem_of_qp {conn : RdmaConnection} {qp : CmId} (hl : s.Ledger)
    (h : s.started k = some .accepted) (hc : s.conns k = some conn) (hqp : conn.qp = some qp)
    (hq : s.qps qp = some q) : k ∈ T.items s.connections := by
  have hat := hl.conn k _ h
  obtain rfl : qp = k := by
    have hrec := (hat.record conn hc).2.1
    simpa [acquired, hqp] using hrec
  have hlive := hat.alive .qp
  have hentry := hat.alive .entry
  simp_all [alive, acquired, freed]

/-- What the context of a cm_id leads to: the record of its own connection, which is in the table
only if it is one of the server. -/
theorem Ledger.context {g : Stage} {c : ConnId} {conn : RdmaConnection} (hl : s.Ledger)
    (hk : (s.started k).isSome) (h : contextOf (s.setStage k g) k = .ok (c, conn)) :
    c = k ∧ s.conns k = some conn ∧
      ∀ args mp, conn.role = .client args mp → k ∉ T.items s.connections := by
  obtain ⟨st, hst⟩ := Option.isSome_iff_exists.mp hk
  have hat := hl.conn k st hst
  obtain ⟨c', hc', h⟩ := Outcome.bind_eq_ok.mp h
  obtain ⟨conn', hconn, h⟩ := Outcome.bind_eq_ok.mp h
  cases h
  obtain rfl := hat.context c (Outcome.deref_eq_ok.mp hc')
  have hconn : s.conns c = some conn := Outcome.deref_eq_ok.mp hconn
  refine ⟨rfl, hconn, fun args mp hrole => ?_⟩
  have hrole' := (hat.record conn hconn).2.2
  have hentry := hat.alive .entry
  rw [hrole] at hrole'
  cases st <;> simp_all [RoleOf, alive, acquired]

/-- Before a connection that goes gives up its queue pair, it has left the table. -/
theorem table_data {g : Stage} {c : ConnId} {conn : RdmaConnection} (hl : s.Ledger)
    (hn : s.Numbered) (ht : s.Tabled) (hk : (s.started k).isSome)
    (hc : contextOf (s.setStage k g) k = .ok (c, conn))
    (h : onDisconnectData (s.setStage k g) k = .ok s') : c = k ∧ s'.Apart k := by
  obtain ⟨rfl, hconn, hclient⟩ := hl.context hk hc
  refine ⟨rfl, ?_⟩
  simp only [onDisconnectData, hc, Outcome.ok_bind] at h
  cases hrole : conn.role with
  | server handler arg =>
      rw [hrole] at h
      obtain ⟨_, hcheck, h⟩ := Outcome.bind_eq_ok.mp h
      cases h
      have hmem : c ∈ T.items s.connections := Outcome.check_eq_ok.mp hcheck
      refine ⟨hn.same rfl (Nat.le_refl _),
        (ht.delete hmem).same rfl fun _ _ => ⟨rfl, rfl⟩, fun h => ?_⟩
      exact ((Uthash.mem_items_delete hmem ht.nodup).mp h).2 rfl
  | client args mp =>
      rw [hrole] at h
      obtain ⟨_, -, h⟩ := Outcome.bind_eq_ok.mp h
      cases h
      exact ⟨hn.same rfl (Nat.le_refl _),
        ht.same rfl fun _ _ => ⟨rfl, rfl⟩, hclient args mp hrole⟩

/-- While a connection is accepted, the table stays in order. -/
theorem table_accept {l : CmId} {done todo : List Micro} (hl : s.Ledger) (hn : s.Numbered)
    (ht : s.Tabled) (hsteps : acceptSteps s.next q = done ++ todo)
    (hrun : run Micro.exec (request s l) done = .ok s') : s'.Numbered ∧ s'.Tabled := by
  have ha₀ : (request s l).Apart s.next :=
    Apart.same ⟨hn, ht, hl.next_notMem⟩ rfl rfl (Nat.le_succ _) fun _ _ => rfl
  rcases done with _ | ⟨m, done⟩
  · cases hrun
    exact ⟨ha₀.numbered, ha₀.tabled⟩
  -- the new record
  obtain ⟨rfl, hsteps₁⟩ := List.cons.inj hsteps
  obtain ⟨s₁, h₁, hrun₁⟩ := Outcome.bind_eq_ok.mp hrun
  obtain ⟨ha₁, hnext, hid, handler, arg, hc₁⟩ := ha₀.conn h₁
  rcases done with _ | ⟨m, done⟩
  · cases hrun₁
    exact ⟨ha₁.numbered, ha₁.tabled⟩
  -- its queue pair
  obtain ⟨rfl, hsteps₂⟩ := List.cons.inj hsteps₁
  obtain ⟨s₂, h₂, hrun₂⟩ := Outcome.bind_eq_ok.mp hrun₁
  obtain ⟨_, hf, h₂⟩ := Outcome.bind_eq_ok.mp h₂
  obtain ⟨ha₂, hq₂, hc₂⟩ := ha₁.create hid hc₁ (by rw [hnext]; exact Nat.lt_succ_self _)
    (Outcome.require_eq_ok.mp hf) h₂
  rcases done with _ | ⟨m, done⟩
  · cases hrun₂
    exact ⟨ha₂.numbered, ha₂.tabled⟩
  -- its element
  obtain ⟨rfl, hsteps₃⟩ := List.cons.inj hsteps₂
  obtain ⟨s₃, h₃, hrun₃⟩ := Outcome.bind_eq_ok.mp hrun₂
  obtain ⟨hn₃, ht₃⟩ := ha₂.add hq₂ hc₂ h₃
  rcases done with _ | ⟨m, done⟩
  · cases hrun₃
    exact ⟨hn₃, ht₃⟩
  -- `rdma_accept`
  obtain ⟨rfl, hsteps₄⟩ := List.cons.inj hsteps₃
  obtain ⟨s₄, h₄, hrun₄⟩ := Outcome.bind_eq_ok.mp hrun₃
  obtain rfl : done = [] := (List.append_eq_nil_iff.mp hsteps₄.symm).1
  cases h₄
  cases hrun₄
  exact ⟨hn₃.same rfl (Nat.le_refl _), ht₃.same rfl fun _ _ => ⟨rfl, rfl⟩⟩

/-- So does it while a connection goes. -/
theorem table_leave {g : Stage} {c : ConnId} {conn : RdmaConnection} {done todo : List Micro}
    (hl : s.Ledger) (hn : s.Numbered) (ht : s.Tabled) (hk : (s.started k).isSome)
    (hc : contextOf (s.setStage k g) k = .ok (c, conn)) (hsteps : leaveSteps k c = done ++ todo)
    (hrun : run Micro.exec (s.setStage k g) done = .ok s') : s'.Numbered ∧ s'.Tabled := by
  rcases done with _ | ⟨m, done⟩
  · cases hrun
    exact ⟨hn.same rfl (Nat.le_refl _), ht.same rfl fun _ _ => ⟨rfl, rfl⟩⟩
  -- the element, or the pool
  obtain ⟨rfl, hsteps₁⟩ := List.cons.inj hsteps
  obtain ⟨s₁, h₁, hrun₁⟩ := Outcome.bind_eq_ok.mp hrun
  obtain ⟨rfl, ha₁⟩ := table_data hl hn ht hk hc h₁
  rcases done with _ | ⟨m, done⟩
  · cases hrun₁
    exact ⟨ha₁.numbered, ha₁.tabled⟩
  -- the queue pair
  obtain ⟨rfl, hsteps₂⟩ := List.cons.inj hsteps₁
  obtain ⟨s₂, h₂, hrun₂⟩ := Outcome.bind_eq_ok.mp hrun₁
  have ha₂ := ha₁.destroyQp h₂
  rcases done with _ | ⟨m, done⟩
  · cases hrun₂
    exact ⟨ha₂.numbered, ha₂.tabled⟩
  -- the cm_id
  obtain ⟨rfl, hsteps₃⟩ := List.cons.inj hsteps₂
  obtain ⟨s₃, h₃, hrun₃⟩ := Outcome.bind_eq_ok.mp hrun₂
  have ha₃ := ha₂.destroyId h₃
  rcases done with _ | ⟨m, done⟩
  · cases hrun₃
    exact ⟨ha₃.numbered, ha₃.tabled⟩
  -- the record
  obtain ⟨rfl, hsteps₄⟩ := List.cons.inj hsteps₃
  obtain ⟨s₄, h₄, hrun₄⟩ := Outcome.bind_eq_ok.mp hrun₃
  obtain rfl : done = [] := (List.append_eq_nil_iff.mp hsteps₄.symm).1
  cases hrun₄
  have ha₄ := ha₃.finish h₄
  exact ⟨ha₄.numbered, ha₄.tabled⟩

theorem under_table (hl : s.Ledger) (hn : s.Numbered) (ht : s.Tabled) (hu : Under s w) :
    w.cm.Numbered ∧ w.cm.Tabled := by
  cases hu with
  | accept _ hsteps hrun => exact table_accept hl hn ht hsteps hrun
  | leave hid _ hc hsteps hrun => exact table_leave hl hn ht hid hc hsteps hrun

/-! ### The table between the events -/

/-- `on_disconnect` as its steps. -/
theorem leaveSteps_run (h : onDisconnect s k = .ok s') :
    ∃ c conn, contextOf s k = .ok (c, conn) ∧ run Micro.exec s (leaveSteps k c) = .ok s' := by
  obtain ⟨⟨c, conn⟩, hc, h⟩ := Outcome.bind_eq_ok.mp h
  obtain ⟨s₁, h₁, h⟩ := Outcome.bind_eq_ok.mp h
  obtain ⟨s₂, h₂, h⟩ := Outcome.bind_eq_ok.mp h
  obtain ⟨s₃, h₃, h⟩ := Outcome.bind_eq_ok.mp h
  have h₄ : onDisconnectConn s₃ c = .ok s' := h
  exact ⟨c, conn, hc, by simp [leaveSteps, Micro.exec, h₁, h₂, h₃, h₄]⟩

/-- `on_connect_request` as its steps: the number that is fresh when it is called still is when the
queue pair is made. -/
theorem acceptSteps_run {l : CmId} (hf : s.Fresh q) (hnew : s.qps s.next = none)
    (h : onConnectRequest (request s l) s.next q = .ok s') :
    run Micro.exec (request s l) (acceptSteps s.next q) = .ok s' := by
  obtain ⟨s₁, h₁, h⟩ := Outcome.bind_eq_ok.mp h
  obtain ⟨s₂, h₂, h⟩ := Outcome.bind_eq_ok.mp h
  obtain ⟨s₃, h₃, h⟩ := Outcome.bind_eq_ok.mp h
  have hsame := onConnectRequestConn_frame h₁
  have hf₁ : s₁.Fresh q := by
    refine ⟨hf.1, fun id hid => ?_⟩
    rw [hsame.1]
    rcases Nat.lt_succ_iff_lt_or_eq.mp (hsame.2 ▸ hid) with hid | rfl
    · exact hf.2 id hid
    · simp [hnew]
  have h₄ : rdmaAccept s₃ s.next = s' := Outcome.ok.inj h
  simp [acceptSteps, Micro.exec, h₁, h₂, h₃, h₄, Outcome.require, hf₁]

theorem table_event {e : RdmaCmEventType} {g : Stage} (hl : s.Ledger) (hn : s.Numbered)
    (ht : s.Tabled) (hk : (s.started k).isSome) (hg : (s.stage k).after e = some g)
    (hf : e = .addrResolved → s.Fresh q) (h : rdmaCmPoller (s.setStage k g) k e q = .ok s') :
    s'.Numbered ∧ s'.Tabled := by
  have hlt : k < s.next := (hl.known k).mp hk
  have hquiet {t : Cm T} (hconn : t.connections = s.connections) (hq : t.qps = s.qps)
      (hnext : s.next ≤ t.next) (hc : t.conns = s.conns) : t.Numbered ∧ t.Tabled :=
    ⟨hn.same hq hnext, ht.same hconn fun j _ => by rw [hq, hc]; simp⟩
  cases e with
  | addrResolved =>
      obtain ⟨st, hst⟩ := Option.isSome_iff_exists.mp hk
      have hat := hl.conn k st hst
      obtain ⟨hs, rfl⟩ := after_addrResolved hg
      obtain ⟨args, rfl⟩ := hat.resolving (.inl hs)
      obtain ⟨qp, hc⟩ := hat.exists_client (by simp [freed, hs])
      have hid := hat.ids_eq (by simp [hs])
      have hmem : k ∉ T.items s.connections := by
        simpa [alive, acquired] using hat.alive .entry
      have ha : (s.setStage k .addrResolved).Apart k :=
        Apart.same ⟨hn, ht, hmem⟩ rfl rfl (Nat.le_refl _) fun _ _ => rfl
      obtain ⟨s₁, h₁, h⟩ := Outcome.bind_eq_ok.mp h
      cases h
      obtain ⟨ha₁, -⟩ := ha.create hid hc hlt (hf rfl) h₁
      have ha₂ : (rdmaResolveRoute s₁ k).Apart k :=
        ha₁.same rfl rfl (Nat.le_refl _) fun _ _ => rfl
      exact ⟨ha₂.numbered, ha₂.tabled⟩
  | unreachable | rejected =>
      obtain ⟨⟨c, conn⟩, hc, h⟩ := Outcome.bind_eq_ok.mp h
      obtain ⟨rfl, -, hclient⟩ := hl.context hk hc
      dsimp only at h
      split at h
      · cases h
        exact hquiet rfl rfl (Nat.le_refl _) rfl
      · rename_i args mp hrole
        have ha : s.Apart c := ⟨hn, ht, hclient args mp hrole⟩
        have ha' : s'.Apart c := by
          cases h
          exact ha.same rfl rfl (Nat.le_refl _) fun j hj => Function.update_of_ne hj _ _
        exact ⟨ha'.numbered, ha'.tabled⟩
  | established =>
      obtain ⟨⟨c, conn⟩, hc, h⟩ := Outcome.bind_eq_ok.mp h
      dsimp only at h
      split at h <;> cases h <;> exact hquiet rfl rfl (Nat.le_refl _) rfl
  | disconnected =>
      obtain ⟨c, conn, hc, hrun⟩ := leaveSteps_run h
      exact table_leave hl hn ht hk hc (List.append_nil _).symm hrun
  | connectRequest => cases hs : s.stage k <;> simp [Stage.after, hs] at hg
  | addrError | routeResolved | routeError | connectError | other n =>
      cases h
      exact hquiet rfl rfl (Nat.le_refl _) rfl

theorem table_step {e : Event} (hl : s.Ledger) (hn : s.Numbered) (ht : s.Tabled)
    (h : step s e = .ok s') : s'.Numbered ∧ s'.Tabled := by
  -- a connection that is new is in no element
  have hnew (hconn : s'.connections = s.connections) (hq : s'.qps = s.qps)
      (hnext : s.next ≤ s'.next) (hc : ∀ j ≠ s.next, s'.conns j = s.conns j) :
      s'.Numbered ∧ s'.Tabled := by
    have ha := Apart.same ⟨hn, ht, hl.next_notMem⟩ hconn hq hnext hc
    exact ⟨ha.numbered, ha.tabled⟩
  cases e with
  | connect args =>
      cases h
      exact hnew rfl rfl (Nat.le_succ _) fun j hj => Function.update_of_ne hj _ _
  | listen handler arg =>
      cases h
      exact hnew rfl rfl (Nat.le_succ _) fun j hj => Function.update_of_ne hj _ _
  | disconnect c =>
      obtain ⟨_, -, h⟩ := Outcome.bind_eq_ok.mp h
      obtain ⟨_, -, h⟩ := Outcome.bind_eq_ok.mp h
      cases h
      exact hnew rfl rfl (Nat.le_refl _) fun _ _ => rfl
  | connectRequest l q =>
      obtain ⟨_, hreq, h⟩ := Outcome.bind_eq_ok.mp h
      have hqp : s.qps s.next = none := by
        simpa [alive] using (hl.blank s.next (Nat.le_refl _)).alive .qp
      exact table_accept hl hn ht (List.append_nil _).symm
        (acceptSteps_run (Outcome.require_eq_ok.mp hreq).2 hqp h)
  | event k e q =>
      obtain ⟨_, hreq, h⟩ := Outcome.bind_eq_ok.mp h
      obtain ⟨g, hg, h⟩ := Outcome.bind_eq_ok.mp h
      obtain ⟨hk, hf⟩ := Outcome.require_eq_ok.mp hreq
      exact table_event hl hn ht hk (Outcome.choose_eq_ok.mp hg) hf h

theorem table_reach (h : s.Reach) : s.Numbered ∧ s.Tabled := by
  have hinit : (init : Cm T).Reach ∧ (init : Cm T).Numbered ∧ (init : Cm T).Tabled := by
    have hnil : T.elems (init : Cm T).connections = [] := T.elems_empty
    refine ⟨⟨[], rfl⟩, ⟨by simp [init], by simp [init]⟩, ⟨by simp [init], ?_, ?_, ?_⟩⟩ <;>
      simp [hnil]
  obtain ⟨tr, h⟩ := h
  exact (run_invariant (P := fun s : Cm T => s.Reach ∧ s.Numbered ∧ s.Tabled)
    (fun s e s' hs he => ⟨hs.1.step he, table_step hs.1.ledger hs.2.1 hs.2.2 he⟩) hinit h).2

/-- The accepted connection `c` has the queue pair with the number `q`. -/
def Owns (s : Cm T) (c : ConnId) (q : QpNum) : Prop :=
  s.started c = some .accepted ∧
    ∃ conn qp, s.conns c = some conn ∧ conn.qp = some qp ∧ s.qps qp = some q

/-- No two elements have a key with the same value, whatever tells the numbers apart. -/
theorem Tabled.nodup_map {β : Type} {f : Uthash.Element QpNum CmId ConnId → β} (ht : s.Tabled)
    (hf : ∀ e ∈ T.elems s.connections, ∀ e' ∈ T.elems s.connections, f e = f e' → e.key = e'.key) :
    ((T.elems s.connections).map f).Nodup := by
  refine List.Nodup.map_on (fun e he e' he' h => ?_) (List.Nodup.of_map _ ht.nodup)
  refine List.inj_on_of_nodup_map ht.nodup he he' ?_
  rw [← ht.key e he, ← ht.key e' he', hf e he e' he' h]

theorem Tabled.added_nodup (ht : s.Tabled) (hn : s.Numbered) :
    ((T.elems s.connections).map Uthash.Element.added).Nodup :=
  ht.nodup_map fun e he e' he' heq =>
    hn.inj _ _ e.added (ht.qp e he) (by rw [heq]; exact ht.qp e' he')

/-- The lookup of `on_recv_req`, between two events. -/
theorem hashFind_exact (hl : s.Ledger) (hn : s.Numbered) (ht : s.Tabled) (q : QpNum) :
    ∃ r, hashFind s q = .ok r ∧ ∀ c, r = some c ↔ s.Owns c q := by
  have hread : ∀ e ∈ T.elems s.connections,
      Outcome.deref (Misuse.gone .qp) (s.qps e.key) = .ok e.added := fun e he => by
    rw [ht.qp e he]
    rfl
  obtain ⟨r, hr, hfound⟩ := T.find_exact (fun qp => Outcome.deref (Misuse.gone .qp) (s.qps qp)) q
    s.connections hread (ht.added_nodup hn)
  refine ⟨r, hr, fun c => (hfound c).trans ⟨?_, ?_⟩⟩
  · rintro ⟨e, he, rfl, rfl⟩
    obtain ⟨conn, hconn, hqp⟩ := ht.conn e he
    exact ⟨hl.accepted_of_mem (List.mem_map_of_mem he), conn, e.key, hconn, hqp, ht.qp e he⟩
  · rintro ⟨hst, conn, qp, hconn, hqp, hq⟩
    obtain ⟨e, he, rfl⟩ := List.mem_map.mp (hl.mem_of_qp hst hconn hqp hq)
    refine ⟨e, he, ?_, rfl⟩
    obtain ⟨conn', hconn', hqp'⟩ := ht.conn e he
    obtain rfl : conn = conn' := Option.some.inj (hconn.symm.trans hconn')
    obtain rfl : qp = e.key := Option.some.inj (hqp.symm.trans hqp')
    exact Option.some.inj ((ht.qp e he).symm.trans hq)

/-- **The table identifies the connection of a request**: between any two steps of the handlers no
number is in two elements, and each is that of the queue pair of its element's connection; between
two events a lookup finds the accepted connection with the queue pair of this number, and nothing if
there is none. -/
theorem table_identifies {tr : List Walk.Event} (h : run Walk.step ⟨init, []⟩ tr = .ok w) :
    ((T.elems w.cm.connections).map fun e => w.cm.qps e.key).Nodup ∧
      (∀ e ∈ T.elems w.cm.connections, ∃ q conn,
        w.cm.conns e.item = some conn ∧ conn.qp = some e.key ∧ w.cm.qps e.key = some q) ∧
      (w.todo = [] → ∀ q, ∃ r, hashFind w.cm q = .ok r ∧ ∀ c, r = some c ↔ w.cm.Owns c q) := by
  have hw : (w.cm.Numbered ∧ w.cm.Tabled) ∧ (w.todo = [] → w.cm.Ledger) := by
    rcases walk_refines h with ⟨-, hreach⟩ | ⟨s, hs, hu⟩
    · exact ⟨table_reach hreach, fun _ => hreach.ledger⟩
    · obtain ⟨hn, ht⟩ := table_reach hs
      refine ⟨under_table hs.ledger hn ht hu, fun htodo => ?_⟩
      obtain ⟨e, he⟩ := hu.done htodo
      exact (hs.step he).ledger
  obtain ⟨⟨hn, ht⟩, hl⟩ := hw
  refine ⟨ht.nodup_map fun e he e' he' heq => ?_, fun e he => ?_, fun htodo => ?_⟩
  · exact hn.inj _ _ e.added (ht.qp e he) (heq ▸ ht.qp e he)
  · obtain ⟨conn, hconn, hqp⟩ := ht.conn e he
    exact ⟨e.added, conn, hconn, hqp, ht.qp e he⟩
  · exact hashFind_exact (hl htodo) hn ht

end

/-- Two connections are accepted, and the first goes. -/
def comeAndGo : List Walk.Event :=
  [.other (.listen 0 0), .connectRequest 0 17, .next, .next, .next, .next, .connectRequest 0 18,
    .next, .next, .next, .next, .disconnected 1, .next, .next, .next, .next]

theorem table_identifies_comeAndGo :
    ∃ w, run Walk.step (⟨init, []⟩ : Walk (.chained id)) comeAndGo = .ok w ∧
      hashFind w.cm 18 = .ok (some 2) := by
  obtain ⟨w, hw, htodo, hst, hconn, hq⟩ := Outcome.ends_iff.mp (show Outcome.Ends
    (fun w => w.todo = [] ∧ w.cm.started 2 = some .accepted ∧
      w.cm.conns 2 = some ⟨2, some 2, .server 0 0⟩ ∧ w.cm.qps 2 = some 18)
    (run Walk.step (⟨init, []⟩ : Walk (.chained id)) comeAndGo) from by decide)
  obtain ⟨r, hr, howns⟩ := (table_identifies hw).2.2 htodo 18
  obtain rfl := (howns 2).mpr ⟨hst, _, 2, hconn, rfl, hq⟩
  exact ⟨w, hw, hr⟩

end Cm

end RdmaRpc
