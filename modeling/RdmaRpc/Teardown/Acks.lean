import RdmaRpc.Teardown.Machine

/-!
# Teardown — Acks

`io_cnt` counts the acknowledgements that are to come (`Counted`), and each poller that is
registered, or will be, is still to be unregistered, which ends in one of them (`Kept`).  So the
last acknowledgement finds no poller, and no message that needs `self`, and nothing comes after it
(`Gone`).  This needs three things the code leaves to chance (`Spared`).

The count is right whatever the order of steps, until `self` is freed (`counted_step`).  The whole
invariant is kept step by step: by those of `kv_rdma_fini` and `create_connetion` first, and then by
each kind of message.
-/

namespace RdmaRpc
open Lib

namespace Teardown

/-- An acknowledgement, or a message that ends in one. -/
def Task.acks : Task → Bool
  | .cqPollerUnregister _ | .cmPollerUnregister | .pollerUnregisterDone => true
  | .pollerRegister _ | .finiCb => false

/-- The messages `kv_rdma_fini` has still to send, as far as `io_cnt` counts them. -/
def FiniAt.unsent (n : Nat) : FiniAt → Nat
  | .send => 1
  | .loop i => n - i
  | _ => 0

/-- `kv_rdma_fini` has not got past the poller `i`. -/
def FiniAt.owes (i : Nat) : FiniAt → Prop
  | .returned => False
  | .loop j => j ≤ i
  | _ => True

/-- `create_connetion` is still to register the poller `i`. -/
def CreateAt.owes (n i : Nat) : CreateAt → Nat
  | .idle => 0
  | .alloc => if i < n then 1 else 0
  | .loop j => if j ≤ i ∧ i < n then 1 else 0

/-- The messages that end in an acknowledgement. -/
def ackCount (l : List ((Nat × Nat) × Task)) : Nat := l.countP fun m => m.2.acks

/-- The messages that register the poller `i`. -/
def regCount (l : List ((Nat × Nat) × Task)) (i : Nat) : Nat :=
  l.countP fun m => m.2 = .pollerRegister i

/-- The acknowledgements to come. -/
def App.pending (s : App) : Nat := ackCount s.msgs + s.fini.unsent s.self.threadNum

/-- How often the poller `i` is registered, or its registration queued. -/
def App.registered (s : App) (i : Nat) : Nat := s.pollers.count i + regCount s.msgs i

/-- How often it will have been registered when `create_connetion` is through. -/
def App.registrations (s : App) (i : Nat) : Nat := s.registered i + s.create.owes s.self.threadNum i

/-- `kv_rdma_fini` has not got as far as adding `thread_num`. -/
def FiniAt.early (a : FiniAt) : Prop := a = .send ∨ a = .test ∨ a = .add

/-- `io_cnt` counts the acknowledgements to come. -/
structure Counted (s : App) : Prop where
  lt : s.self.threadNum < 2 ^ 32
  uncalled : s.fini = .uncalled → s.pending = 0
  ioCnt : s.fini ≠ .uncalled → s.self.ioCnt = u32 s.pending
  pos : s.fini ≠ .uncalled → 0 < s.pending
  le : s.pending ≤ s.self.threadNum + 1
  one : s.fini.early → s.pending = 1
  cm : s.cmRegistered = true →
    s.fini = .uncalled ∨ s.fini = .send ∨ ∃ k, (k, .cmPollerUnregister) ∈ s.msgs
  cmPoller : s.self.cmPoller = s.cmRegistered
  home : ∀ k, (k, .pollerUnregisterDone) ∈ s.msgs → k.2 = s.self.threadId

/-- The message unregisters the poller `i`, or is never handled. -/
def Unregisters (i : Nat) (t : Task) : Prop :=
  t = .cqPollerUnregister none ∨ t = .cqPollerUnregister (some i)

/-- Each poller is registered once, and is still to be unregistered. -/
structure Kept (s : App) : Prop where
  once : ∀ i, s.registrations i ≤ 1
  known : ∀ i, 0 < s.registered i →
    i < s.self.threadNum ∧ ∃ ps, s.self.cqPollers = some ps ∧ (ps i).self = true
  alloc : ∀ i, s.create = .loop i → s.self.cqPollers.isSome
  flag : ∀ ps i, s.self.cqPollers = some ps → (ps i).poller = true → i ∈ s.pollers
  fresh : s.self.ctx = false → s.create = .idle ∧ ∀ i, s.registered i = 0
  entered : s.fini = .add ∨ (∃ i, s.fini = .loop i) → s.self.ctx = true
  due : ∀ i, 0 < s.registrations i → s.fini.owes i ∨ ∃ m ∈ s.msgs, Unregisters i m.2

/-- `self` is there, and waits for every poller. -/
structure Here (s : App) : Prop where
  frees : s.frees = 0
  destroys : s.destroys = 0
  cbs : s.cbs = []
  counted : Counted s
  kept : Kept s

/-- `self` is gone, and nothing refers to it. -/
structure Gone (s : App) : Prop where
  frees : s.frees = 1
  destroys : s.destroys = if s.self.ctx then 1 else 0
  cbs : s.cbs = [s.self.finiThread]
  fini : s.fini = .returned
  create : s.create = .idle
  cmRegistered : s.cmRegistered = false
  pollers : s.pollers = []
  msgs : ∀ m ∈ s.msgs, m.2 = .finiCb

/-- The message may be handled now: the last acknowledgement waits for `kv_rdma_fini` to return, and
a poller is unregistered after it has been registered. -/
def App.Spares (s : App) : Task → Prop
  | .pollerUnregisterDone => s.self.ioCnt = 1 → ¬ s.fini.running
  | .cqPollerUnregister ctx => ∃ i ∈ ctx, ∃ ps ∈ s.self.cqPollers, (ps i).poller = true
  | _ => True

/-- The step leaves teardown in order: besides, no connection registers pollers behind the back of
`kv_rdma_fini`. -/
def Spared (s : App) : Event → Prop
  | .connect => s.fini = .returned → s.self.ctx = true ∨ s.self.threadNum = 0
  | .deliver src dst => ∀ p ∈ Keyed.pop (src, dst) s.msgs, s.Spares p.1
  | _ => True

instance (s : App) : DecidablePred s.Spares
  | .pollerUnregisterDone => inferInstanceAs (Decidable (_ → _))
  | .cqPollerUnregister _ => inferInstanceAs (Decidable (∃ _ ∈ _, ∃ _ ∈ _, _))
  | .pollerRegister _ | .cmPollerUnregister | .finiCb => isTrue trivial

instance (s : App) : DecidablePred (Spared s)
  | .connect => inferInstanceAs (Decidable (_ → _))
  | .deliver .. => inferInstanceAs (Decidable (∀ _ ∈ _, _))
  | .fini _ | .finiNext | .createNext | .cmPoller | .cqPoller _ => isTrue trivial

section
variable {s s' : App} {i t : Nat} {l l' : List ((Nat × Nat) × Task)} {k : Nat × Nat} {task : Task}

/-! ### Counting messages -/

theorem ackCount_send : ackCount (l ++ [(k, task)]) = ackCount l + if task.acks then 1 else 0 := by
  simp [ackCount]

theorem ackCount_pop (h : Keyed.pop k l = some (task, l')) :
    ackCount l = ackCount l' + if task.acks then 1 else 0 := by
  rw [ackCount, (Keyed.pop_perm h).countP_eq, List.countP_cons]
  rfl

theorem regCount_send :
    regCount (l ++ [(k, task)]) i = regCount l i + if task = .pollerRegister i then 1 else 0 := by
  simp [regCount]

theorem regCount_pop (h : Keyed.pop k l = some (task, l')) :
    regCount l i = regCount l' i + if task = .pollerRegister i then 1 else 0 := by
  rw [regCount, (Keyed.pop_perm h).countP_eq, List.countP_cons]
  simp only [decide_eq_true_eq]
  rfl

theorem mem_of_mem_pop (h : Keyed.pop k l = some (task, l')) {m : (Nat × Nat) × Task} (hm : m ∈ l)
    (hne : m.2 ≠ task) : m ∈ l' := by
  rcases List.mem_cons.mp ((Keyed.pop_perm h).mem_iff.mp hm) with rfl | hm
  · exact absurd rfl hne
  · exact hm

theorem Task.not_unregisters (h : task.acks = false) : ¬ Unregisters i task := by
  rintro (rfl | rfl) <;> cases h

/-- A message that unregisters the poller is still there, unless it was the one. -/
theorem unregisters_of_pop (h : Keyed.pop k l = some (task, l')) (hne : ¬ Unregisters i task)
    (hl : ∃ m ∈ l, Unregisters i m.2) : ∃ m ∈ l', Unregisters i m.2 := by
  obtain ⟨m, hm, hu⟩ := hl
  refine ⟨m, mem_of_mem_pop h hm ?_, hu⟩
  rintro rfl
  exact hne hu

theorem unregisters_send (m : (Nat × Nat) × Task) (hl : ∃ m ∈ l, Unregisters i m.2) :
    ∃ m' ∈ l ++ [m], Unregisters i m'.2 := by
  obtain ⟨m', hm, hu⟩ := hl
  exact ⟨m', List.mem_append_left _ hm, hu⟩

/-- Writing a poller's `cq` and `poller` leaves its `self`. -/
theorem self_update {ps : Nat → CqPollerCtx} {ctx : CqPollerCtx} {j : Nat} (hctx : ctx.self = (ps i).self)
    (h : (ps j).self = true) : (Function.update ps i ctx j).self = true := by
  by_cases hij : j = i
  · subst hij
    rw [Function.update_self, hctx]
    exact h
  · rw [Function.update_of_ne hij]
    exact h

/-! ### What changes nothing -/

/-- A step that leaves the count alone. -/
theorem Counted.frame (hc : Counted s) (hnum : s'.self.threadNum = s.self.threadNum)
    (hio : s'.self.ioCnt = s.self.ioCnt) (hpend : s'.pending = s.pending)
    (hu : s'.fini = .uncalled ↔ s.fini = .uncalled) (hone : s'.fini.early → s.fini.early)
    (hcm : s'.cmRegistered = true →
      s'.fini = .uncalled ∨ s'.fini = .send ∨ ∃ k, (k, .cmPollerUnregister) ∈ s'.msgs)
    (hptr : s'.self.cmPoller = s'.cmRegistered)
    (hhome : ∀ k, (k, .pollerUnregisterDone) ∈ s'.msgs → k.2 = s'.self.threadId) : Counted s' where
  lt := hnum ▸ hc.lt
  uncalled := fun h => hpend.trans (hc.uncalled (hu.mp h))
  ioCnt := fun h => by rw [hio, hpend]; exact hc.ioCnt (hu.not.mp h)
  pos := fun h => by rw [hpend]; exact hc.pos (hu.not.mp h)
  le := by rw [hpend, hnum]; exact hc.le
  one := fun h => hpend.trans (hc.one (hone h))
  cm := hcm
  cmPoller := hptr
  home := hhome

/-- A step that leaves the pollers alone. -/
theorem Kept.frame (hk : Kept s) (hnum : s'.self.threadNum = s.self.threadNum)
    (hctx : s'.self.ctx = s.self.ctx) (hps : s'.self.cqPollers = s.self.cqPollers)
    (hpollers : s'.pollers = s.pollers) (hcreate : s'.create = s.create)
    (hreg : ∀ i, regCount s'.msgs i = regCount s.msgs i)
    (hent : s'.fini = .add ∨ (∃ i, s'.fini = .loop i) → s.self.ctx = true)
    (hdue : ∀ i, 0 < s.registrations i → s'.fini.owes i ∨ ∃ m ∈ s'.msgs, Unregisters i m.2) :
    Kept s' := by
  have hr : ∀ i, s'.registered i = s.registered i := fun i => by
    rw [App.registered, hpollers, hreg]; rfl
  have hr' : ∀ i, s'.registrations i = s.registrations i := fun i => by
    rw [App.registrations, hr, hcreate, hnum]; rfl
  refine ⟨fun i => ?_, fun i => ?_, fun i => ?_, fun ps i => ?_, ?_, ?_, fun i => ?_⟩
  · rw [hr']; exact hk.once i
  · rw [hr, hnum, hps]; exact hk.known i
  · rw [hcreate, hps]; exact hk.alloc i
  · rw [hps, hpollers]; exact hk.flag ps i
  · rw [hctx, hcreate]
    simp only [hr]
    exact hk.fresh
  · rw [hctx]; exact hent
  · rw [hr']; exact hdue i

theorem CreateAt.lt_of_owes {a : CreateAt} {n : Nat} (h : 0 < a.owes n i) : i < n := by
  cases a with
  | idle => cases h
  | alloc =>
      simp only [owes] at h
      split at h
      · assumption
      · cases h
  | loop j =>
      simp only [owes] at h
      split at h
      · rename_i hij
        exact hij.2
      · cases h

/-- Only the pollers of `self->cq_pollers` are registered. -/
theorem Kept.lt (hk : Kept s) (h : 0 < s.registrations i) : i < s.self.threadNum := by
  rcases Nat.eq_zero_or_pos (s.registered i) with hzero | hpos
  · rw [App.registrations, hzero, Nat.zero_add] at h
    exact CreateAt.lt_of_owes h
  · exact (hk.known i hpos).1

theorem init_here (threadId : Nat) {threadNum : Nat} (h : threadNum < 2 ^ 32) :
    Here (init threadId threadNum) where
  frees := rfl
  destroys := rfl
  cbs := rfl
  counted := ⟨h, fun _ => rfl, fun hne => absurd rfl hne, fun hne => absurd rfl hne, Nat.zero_le _,
    (by rintro (h | h | h) <;> cases h), fun _ => .inl rfl, rfl, fun _ h => nomatch h⟩
  kept := ⟨fun _ => Nat.zero_le _, fun i hi => (by cases hi), fun i hi => (by cases hi),
    fun ps i hi => (by cases hi), fun _ => ⟨rfl, fun _ => rfl⟩, (by rintro (h | ⟨i, h⟩) <;> cases h),
    fun i _ => .inl trivial⟩

/-! ### The count -/

theorem counted_fini (hc : Counted s) (h : step s (.fini t) = .ok s') : Counted s' := by
  obtain ⟨hu, -, -, rfl⟩ := step_fini h
  have hmsgs : ackCount s.msgs = 0 := Nat.eq_zero_of_add_eq_zero_right (hc.uncalled hu)
  have hpend : App.pending { s with
      self := { s.self with finiThread := t, ioCnt := 1 }, fini := .send } = 1 := by
    show ackCount s.msgs + 1 = 1
    omega
  refine ⟨hc.lt, nofun, fun _ => ?_, fun _ => ?_, ?_, fun _ => hpend, fun _ => .inr (.inl rfl),
    hc.cmPoller, hc.home⟩
  · rw [hpend]; rfl
  · rw [hpend]; exact Nat.one_pos
  · rw [hpend]; exact Nat.le_add_left _ _

theorem counted_finiNext (hc : Counted s) (h : step s .finiNext = .ok s') : Counted s' := by
  obtain ⟨-, hcase⟩ := kvRdmaFini_eq_ok h
  rcases hcase with ⟨hat, rfl⟩ | ⟨hat, -, rfl⟩ | ⟨hat, -, rfl⟩ | ⟨hat, rfl⟩ |
    ⟨j, hat, ⟨hlt, rfl⟩ | ⟨hge, rfl⟩⟩
  · -- `cm_poller_unregister` is sent
    refine hc.frame rfl rfl ?_ (by simp [hat]) (fun _ => .inl hat)
      (fun _ => .inr (.inr ⟨_, List.mem_append_right _ List.mem_cons_self⟩)) hc.cmPoller fun k hk => ?_
    · simp only [App.pending, ackCount_send, hat, FiniAt.unsent, Task.acks, if_true]
    · simpa using hc.home k (by simpa using hk)
  · refine hc.frame rfl rfl ?_ (by simp [hat]) (fun _ => .inr (.inl hat)) (fun hr => ?_) hc.cmPoller
      hc.home
    · simp only [App.pending, hat, FiniAt.unsent]
    · simpa [hat] using hc.cm hr
  · refine hc.frame rfl rfl ?_ (by simp [hat]) ?_ (fun hr => ?_) hc.cmPoller hc.home
    · simp only [App.pending, hat, FiniAt.unsent]
    · rintro (h | h | h) <;> cases h
    · simpa [hat] using hc.cm hr
  · -- `io_cnt` grows by the pollers
    -- none of the pollers has been counted, so one acknowledgement is to come
    have hone := hc.one (.inr (.inr hat))
    have hmsgs : ackCount s.msgs = 1 := by simpa [App.pending, hat, FiniAt.unsent] using hone
    have hio := hc.ioCnt (by simp [hat])
    have hpend : App.pending { s with
        self := { s.self with ioCnt := u32 (s.self.ioCnt + s.self.threadNum) }
        fini := .loop 0 } = 1 + s.self.threadNum := by
      simp only [App.pending, FiniAt.unsent, hmsgs, Nat.sub_zero]
    refine ⟨hc.lt, nofun, fun _ => ?_, fun _ => ?_, ?_, ?_, fun hr => ?_, hc.cmPoller, hc.home⟩
    · rw [hpend, hio, hone]; rfl
    · rw [hpend]; omega
    · rw [hpend]; show _ ≤ s.self.threadNum + 1; omega
    · rintro (h | h | h) <;> cases h
    · simpa [hat] using hc.cm hr
  · -- the poller `j` is to be unregistered
    refine hc.frame rfl rfl ?_ (by simp [hat]) ?_ (fun hr => ?_) hc.cmPoller fun k hk => ?_
    · simp only [App.pending, ackCount_send, hat, FiniAt.unsent, Task.acks, if_true]
      omega
    · rintro (h | h | h) <;> cases h
    · simpa [hat] using hc.cm hr
    · simpa using hc.home k (by simpa using hk)
  · refine hc.frame rfl rfl ?_ (by simp [hat]) ?_ (fun hr => ?_) hc.cmPoller hc.home
    · simp only [App.pending, hat, FiniAt.unsent]
      omega
    · rintro (h | h | h) <;> cases h
    · simpa [hat] using hc.cm hr

theorem counted_connect (hc : Counted s) (h : step s .connect = .ok s') : Counted s' := by
  obtain ⟨-, -, -, ⟨-, rfl⟩ | ⟨-, rfl⟩⟩ := step_connect h
  · exact hc
  · exact hc.frame rfl rfl rfl Iff.rfl id hc.cm hc.cmPoller hc.home

theorem counted_createNext (hc : Counted s) (h : step s .createNext = .ok s') : Counted s' := by
  obtain ⟨-, ⟨-, rfl⟩ | ⟨j, -, ⟨-, ps, -, rfl⟩ | ⟨-, rfl⟩⟩⟩ := createConnetion_eq_ok h
  · exact hc.frame rfl rfl rfl Iff.rfl id hc.cm hc.cmPoller hc.home
  · refine hc.frame rfl rfl ?_ Iff.rfl id (fun hr => ?_) hc.cmPoller fun k hk => ?_
    · simp only [App.pending, ackCount_send, Task.acks, Bool.false_eq_true, if_false, Nat.add_zero]
    · exact (hc.cm hr).imp_right (Or.imp_right fun ⟨k, hk⟩ => ⟨k, List.mem_append_left _ hk⟩)
    · exact hc.home k (by simpa using hk)
  · exact hc.frame rfl rfl rfl Iff.rfl id hc.cm hc.cmPoller hc.home

section
variable {msgs : List ((Nat × Nat) × Task)} {ctx : Option Nat}

/-- A message handled that brings no acknowledgement. -/
theorem Counted.pop (hc : Counted s) (hp : Keyed.pop k s.msgs = some (task, msgs))
    (hacks : task.acks = false) (hne : task ≠ .cmPollerUnregister) : Counted { s with msgs } := by
  refine hc.frame rfl rfl ?_ Iff.rfl id (fun hr => ?_) hc.cmPoller fun k hk => ?_
  · simp only [App.pending, ackCount_pop hp, hacks, Bool.false_eq_true, if_false, Nat.add_zero]
  · exact (hc.cm hr).imp_right (Or.imp_right fun ⟨k, hk⟩ => ⟨k, mem_of_mem_pop hp hk hne.symm⟩)
  · exact hc.home k ((Keyed.pop_sublist hp).subset hk)

theorem counted_pollerRegister (hc : Counted s)
    (hp : Keyed.pop k s.msgs = some (.pollerRegister i, msgs))
    (h : pollerRegister { s with msgs } i = .ok s') : Counted s' := by
  obtain ⟨-, ps, -, rfl⟩ := pollerRegister_eq_ok h
  have hpop := hc.pop hp rfl nofun
  exact hpop.frame rfl rfl rfl Iff.rfl id hpop.cm hpop.cmPoller hpop.home

/-- An acknowledgement goes to the thread of `kv_rdma_init`. -/
theorem Counted.home_send (hc : Counted s) (hp : Keyed.pop k s.msgs = some (task, msgs)) {k' : Nat × Nat}
    (hk' : (k', .pollerUnregisterDone) ∈
      msgs ++ [((t, s.self.threadId), Task.pollerUnregisterDone)]) : k'.2 = s.self.threadId := by
  rcases List.mem_append.mp hk' with hk' | hk'
  · exact hc.home k' ((Keyed.pop_sublist hp).subset hk')
  · cases List.mem_singleton.mp hk'
    rfl

theorem counted_cqPollerUnregister (hc : Counted s)
    (hp : Keyed.pop k s.msgs = some (.cqPollerUnregister ctx, msgs))
    (h : cqPollerUnregister { s with msgs } t ctx = .ok s') : Counted s' := by
  obtain ⟨-, i, ps, rfl, -, -, rfl⟩ := cqPollerUnregister_eq_ok h
  refine hc.frame rfl rfl ?_ Iff.rfl id (fun hr => ?_) hc.cmPoller fun k hk => hc.home_send hp hk
  · simp only [App.pending, ackCount_send, ackCount_pop hp, Task.acks, if_true]
  · exact (hc.cm hr).imp_right (Or.imp_right fun ⟨k, hk⟩ =>
      ⟨k, List.mem_append_left _ (mem_of_mem_pop hp hk nofun)⟩)

theorem counted_cmPollerUnregister (hc : Counted s)
    (hp : Keyed.pop k s.msgs = some (.cmPollerUnregister, msgs))
    (h : cmPollerUnregister { s with msgs } t = .ok s') : Counted s' := by
  obtain ⟨-, rfl⟩ := cmPollerUnregister_eq_ok h
  have hoff : (if s.self.cmPoller then false else s.cmRegistered) = false := by
    rw [hc.cmPoller]
    cases s.cmRegistered <;> rfl
  refine hc.frame rfl rfl ?_ Iff.rfl id (fun hr => ?_) hoff.symm fun k hk => hc.home_send hp hk
  · simp only [App.pending, ackCount_send, ackCount_pop hp, Task.acks, if_true]
  · rw [hoff] at hr
    cases hr

theorem counted_finiCb (hc : Counted s) (hp : Keyed.pop k s.msgs = some (.finiCb, msgs)) :
    Counted { s with msgs } :=
  hc.pop hp rfl nofun

/-- An acknowledgement is counted; if no other is to come, it is the last one. -/
theorem counted_pollerUnregisterDone (hc : Counted s)
    (hp : Keyed.pop k s.msgs = some (.pollerUnregisterDone, msgs))
    (h : pollerUnregisterDone { s with msgs } t = .ok s') :
    s.fini ≠ .uncalled ∧
      (Counted s' ∧ (∃ ioCnt, s' = { s with msgs, self := { s.self with ioCnt } }) ∨
        s.self.ioCnt = 1 ∧ ackCount msgs = 0 ∧ s.fini.unsent s.self.threadNum = 0 ∧
          s' = { s with
            self := { s.self with ioCnt := 0 }
            msgs := msgs ++ [((t, s.self.finiThread), .finiCb)]
            destroys := if s.self.ctx then s.destroys + 1 else s.destroys
            frees := s.frees + 1
            cbs := s.cbs ++ [s.self.finiThread] }) := by
  have hack : ackCount s.msgs = ackCount msgs + 1 := ackCount_pop hp
  have hpend : s.pending = ackCount msgs + s.fini.unsent s.self.threadNum + 1 := by
    rw [App.pending, hack]
    omega
  have hcalled : s.fini ≠ .uncalled := fun hu => by
    have := hc.uncalled hu
    omega
  have hio := hc.ioCnt hcalled
  have hle := hc.le
  have hlt := hc.lt
  have hcase := pollerUnregisterDone_eq_ok h
  rw [show App.self { s with msgs } = s.self from rfl, hio, hpend, u32Pred_u32,
    u32_of_lt (by omega)] at hcase
  refine ⟨hcalled, ?_⟩
  obtain ⟨-, ioCnt, rfl, ⟨hne, rfl⟩ | ⟨hzero, rfl⟩⟩ := hcase
  · left
    -- one acknowledgement was not all, so the pollers have been counted
    have hearly : ¬ s.fini.early := fun he => by
      have := hc.one he
      omega
    have hpend' : App.pending { s with
        msgs, self := { s.self with ioCnt := ackCount msgs + s.fini.unsent s.self.threadNum } } =
          ackCount msgs + s.fini.unsent s.self.threadNum := rfl
    refine ⟨⟨hc.lt, fun hu => absurd hu hcalled, fun _ => ?_, fun _ => ?_, ?_,
      fun he => absurd he hearly, fun hr => ?_, hc.cmPoller, fun k hk => ?_⟩, _, rfl⟩
    · rw [hpend', u32_of_lt (by omega)]
    · rw [hpend']
      exact Nat.pos_of_ne_zero hne
    · rw [hpend']
      show _ ≤ s.self.threadNum + 1
      omega
    · exact (hc.cm hr).imp_right (Or.imp_right fun ⟨k, hk⟩ => ⟨k, mem_of_mem_pop hp hk nofun⟩)
    · exact hc.home k ((Keyed.pop_sublist hp).subset hk)
  · refine .inr ⟨?_, Nat.eq_zero_of_add_eq_zero_right hzero, Nat.eq_zero_of_add_eq_zero_left hzero, ?_⟩
    · rw [hio, hpend, hzero]
      rfl
    · rw [hzero]

/-- The last acknowledgement comes after `cm_poller_unregister`. -/
theorem Counted.cmRegistered_eq (hc : Counted s)
    (hp : Keyed.pop k s.msgs = some (.pollerUnregisterDone, msgs)) (hcalled : s.fini ≠ .uncalled)
    (hzero : ackCount msgs = 0) (hsent : s.fini.unsent s.self.threadNum = 0) :
    s.cmRegistered = false := by
  by_contra hr
  rcases hc.cm (by simpa using hr) with hu | hu | ⟨k', hm⟩
  · exact hcalled hu
  · rw [hu] at hsent
    cases hsent
  · have := List.countP_eq_zero.mp hzero _ (mem_of_mem_pop hp hm nofun)
    simp [Task.acks] at this

end

/-- The count is right until `self` is freed, which is after `cm_poller_unregister`. -/
theorem counted_step {e : Event} (hc : Counted s) (h : step s e = .ok s') :
    Counted s' ∧ s'.destroys = s.destroys ∨ s'.cmRegistered = false := by
  cases e with
  | fini t =>
      refine .inl ⟨counted_fini hc h, ?_⟩
      obtain ⟨-, -, -, rfl⟩ := step_fini h
      rfl
  | finiNext =>
      refine .inl ⟨counted_finiNext hc h, ?_⟩
      obtain ⟨-, hcase⟩ := kvRdmaFini_eq_ok h
      rcases hcase with ⟨-, rfl⟩ | ⟨-, -, rfl⟩ | ⟨-, -, rfl⟩ | ⟨-, rfl⟩ | ⟨j, -, ⟨-, rfl⟩ | ⟨-, rfl⟩⟩ <;>
        rfl
  | connect =>
      refine .inl ⟨counted_connect hc h, ?_⟩
      obtain ⟨-, -, -, ⟨-, rfl⟩ | ⟨-, rfl⟩⟩ := step_connect h <;> rfl
  | createNext =>
      refine .inl ⟨counted_createNext hc h, ?_⟩
      obtain ⟨-, ⟨-, rfl⟩ | ⟨j, -, ⟨-, ps, -, rfl⟩ | ⟨-, rfl⟩⟩⟩ := createConnetion_eq_ok h <;> rfl
  | cmPoller => obtain rfl := step_cmPoller h; exact .inl ⟨hc, rfl⟩
  | cqPoller i => obtain rfl := step_cqPoller h; exact .inl ⟨hc, rfl⟩
  | deliver src dst =>
      obtain ⟨-, t, msgs, hp, h⟩ := step_deliver h
      cases t with
      | pollerRegister i =>
          refine .inl ⟨counted_pollerRegister hc hp h, ?_⟩
          obtain ⟨-, ps, -, rfl⟩ := pollerRegister_eq_ok h
          rfl
      | cqPollerUnregister ctx =>
          refine .inl ⟨counted_cqPollerUnregister hc hp h, ?_⟩
          obtain ⟨-, i, ps, -, -, -, rfl⟩ := cqPollerUnregister_eq_ok h
          rfl
      | cmPollerUnregister =>
          refine .inl ⟨counted_cmPollerUnregister hc hp h, ?_⟩
          obtain ⟨-, rfl⟩ := cmPollerUnregister_eq_ok h
          rfl
      | pollerUnregisterDone =>
          obtain ⟨hcalled, ⟨hc', ioCnt, rfl⟩ | ⟨-, hzero, hsent, rfl⟩⟩ :=
            counted_pollerUnregisterDone hc hp h
          · exact .inl ⟨hc', rfl⟩
          · exact .inr (hc.cmRegistered_eq hp hcalled hzero hsent)
      | finiCb =>
          cases h
          exact .inl ⟨counted_finiCb hc hp, rfl⟩

/-! ### `kv_rdma_fini` -/

theorem here_fini (hs : Here s) (h : step s (.fini t) = .ok s') : Here s' := by
  have hc' := counted_fini hs.counted h
  obtain ⟨hu, -, -, rfl⟩ := step_fini h
  refine ⟨hs.frees, hs.destroys, hs.cbs, hc', ?_⟩
  refine hs.kept.frame rfl rfl rfl rfl rfl (fun _ => rfl) ?_ fun i _ => .inl trivial
  rintro (h | ⟨i, h⟩) <;> cases h

theorem here_finiNext (hs : Here s) (h : step s .finiNext = .ok s') : Here s' := by
  have hk := hs.kept
  have hc' := counted_finiNext hs.counted h
  obtain ⟨-, hcase⟩ := kvRdmaFini_eq_ok h
  rcases hcase with ⟨hat, rfl⟩ | ⟨hat, hctx, rfl⟩ | ⟨hat, hctx, rfl⟩ | ⟨hat, rfl⟩ |
    ⟨j, hat, ⟨hlt, rfl⟩ | ⟨hge, rfl⟩⟩
  · refine ⟨hs.frees, hs.destroys, hs.cbs, hc', hk.frame rfl rfl rfl rfl rfl (fun i => ?_) ?_
      fun i _ => .inl trivial⟩
    · simp [regCount_send]
    · rintro (h | ⟨i, h⟩) <;> cases h
  · exact ⟨hs.frees, hs.destroys, hs.cbs, hc', hk.frame rfl rfl rfl rfl rfl (fun _ => rfl)
      (fun _ => hctx) fun i _ => .inl trivial⟩
  · -- no poller is registered, for there is no context
    obtain ⟨hidle, hreg⟩ := hk.fresh hctx
    refine ⟨hs.frees, hs.destroys, hs.cbs, hc', hk.frame rfl rfl rfl rfl rfl (fun _ => rfl) ?_
      fun i hi => ?_⟩
    · rintro (h | ⟨i, h⟩) <;> cases h
    · simp [App.registrations, hreg, hidle, CreateAt.owes] at hi
  · exact ⟨hs.frees, hs.destroys, hs.cbs, hc', hk.frame rfl rfl rfl rfl rfl (fun _ => rfl)
      (fun _ => hk.entered (.inl hat)) fun i _ => .inl (Nat.zero_le i)⟩
  · -- the poller `j` is to be unregistered
    refine ⟨hs.frees, hs.destroys, hs.cbs, hc', hk.frame rfl rfl rfl rfl rfl (fun i => ?_)
      (fun _ => hk.entered (.inr ⟨j, hat⟩)) fun i hi => ?_⟩
    · simp [regCount_send]
    · rcases hk.due i hi with hdue | ⟨m, hm, hu⟩
      · rw [hat] at hdue
        rcases Nat.lt_or_eq_of_le hdue with hji | rfl
        · exact .inl hji
        · refine .inr ⟨_, List.mem_append_right _ List.mem_cons_self, ?_⟩
          cases s.self.cqPollers with
          | none => exact .inl rfl
          | some ps => exact .inr rfl
      · exact .inr (unregisters_send _ ⟨m, hm, hu⟩)
  · refine ⟨hs.frees, hs.destroys, hs.cbs, hc', hk.frame rfl rfl rfl rfl rfl (fun _ => rfl) ?_
      fun i hi => ?_⟩
    · rintro (h | ⟨i, h⟩) <;> cases h
    · rcases hk.due i hi with hdue | hm
      · rw [hat] at hdue
        -- the loop is over, and the pollers are below `thread_num`
        have hji : j ≤ i := hdue
        exact absurd (Nat.lt_of_le_of_lt hji (hk.lt hi)) hge
      · exact .inr hm

/-! ### `create_connetion` -/

theorem here_connect (hs : Here s) (hsp : Spared s .connect) (h : step s .connect = .ok s') :
    Here s' := by
  have hk := hs.kept
  have hc' := counted_connect hs.counted h
  obtain ⟨-, -, -, ⟨-, rfl⟩ | ⟨hctx, rfl⟩⟩ := step_connect h
  · exact hs
  · -- none of the pollers is registered yet, and `kv_rdma_fini` will find the context
    obtain ⟨hidle, hreg⟩ := hk.fresh hctx
    refine ⟨hs.frees, hs.destroys, hs.cbs, hc', fun i => ?_, hk.known, fun i hi => (by cases hi),
      hk.flag, fun h => (by cases h), fun _ => rfl, fun i hi => ?_⟩
    · show s.registered i + (if i < s.self.threadNum then 1 else 0) ≤ 1
      rw [hreg]
      split <;> omega
    · have hlt : i < s.self.threadNum := by
        have hi : 0 < s.registered i + CreateAt.alloc.owes s.self.threadNum i := hi
        rw [hreg, Nat.zero_add] at hi
        exact CreateAt.lt_of_owes hi
      left
      show s.fini.owes i
      cases hat : s.fini with
      | uncalled => trivial
      | send => trivial
      | test => trivial
      | add => trivial
      | loop j =>
          -- where the loop runs, the context was there already
          have := hk.entered (.inr ⟨j, hat⟩)
          rw [hctx] at this
          cases this
      | returned =>
          rcases hsp hat with h | h
          · rw [hctx] at h
            cases h
          · omega

theorem here_createNext (hs : Here s) (h : step s .createNext = .ok s') : Here s' := by
  have hk := hs.kept
  have hc' := counted_createNext hs.counted h
  obtain ⟨-, ⟨hat, rfl⟩ | ⟨j, hat, ⟨hlt, ps, hps, rfl⟩ | ⟨hge, rfl⟩⟩⟩ := createConnetion_eq_ok h
  · -- the contexts are allocated, and none of the pollers is registered
    have howes : ∀ i, (CreateAt.loop 0).owes s.self.threadNum i =
        CreateAt.alloc.owes s.self.threadNum i := fun i => by simp [CreateAt.owes]
    -- each poller is still to be registered, and is registered once
    have hzero : ∀ i, s.registered i = 0 := fun i => by
      by_contra hne
      have hlt := (hk.known i (Nat.pos_of_ne_zero hne)).1
      have hon := hk.once i
      rw [App.registrations, hat, CreateAt.owes, if_pos hlt] at hon
      omega
    refine ⟨hs.frees, hs.destroys, hs.cbs, hc', fun i => ?_, fun i hi => ?_, fun _ _ => rfl,
      fun ps i hps hi => ?_, fun hctx => ?_, hk.entered, fun i hi => ?_⟩
    · have hon := hk.once i
      rw [App.registrations, hat, ← howes] at hon
      exact hon
    · have hi : 0 < s.registered i := hi
      rw [hzero] at hi
      cases hi
    · cases hps
      cases hi
    · have := (hk.fresh hctx).1
      rw [hat] at this
      cases this
    · refine hk.due i ?_
      rw [App.registrations, hat, ← howes]
      exact hi
  · -- the registration of the poller `j` goes from `create_connetion` into a message
    have hreg : ∀ i, regCount (s.msgs ++ [((s.self.threadId, s.self.threadId + j), .pollerRegister j)]) i =
        regCount s.msgs i + if j = i then 1 else 0 := fun i => by
      simp only [regCount_send, Task.pollerRegister.injEq]
    have howes : ∀ i, (CreateAt.loop j).owes s.self.threadNum i =
        (CreateAt.loop (j + 1)).owes s.self.threadNum i + if j = i then 1 else 0 := fun i => by
      simp only [CreateAt.owes]
      split <;> split <;> split <;> omega
    have htotal : ∀ i, s.pollers.count i +
        regCount (s.msgs ++ [((s.self.threadId, s.self.threadId + j), .pollerRegister j)]) i +
          (CreateAt.loop (j + 1)).owes s.self.threadNum i = s.registrations i := fun i => by
      rw [App.registrations, App.registered, hat, howes, hreg]
      omega
    refine ⟨hs.frees, hs.destroys, hs.cbs, hc', fun i => ?_, fun i hi => ?_, fun _ _ => rfl,
      fun ps' i hps' hi => ?_, fun hctx => ?_, hk.entered, fun i hi => ?_⟩
    · exact (htotal i).le.trans (hk.once i)
    · by_cases hij : i = j
      · subst hij
        exact ⟨hlt, _, rfl, by rw [Function.update_self]⟩
      · have hi : 0 < s.pollers.count i + regCount (s.msgs ++ [((_, _), .pollerRegister j)]) i := hi
        rw [hreg, if_neg (Ne.symm hij)] at hi
        obtain ⟨hlt', ps', hps', hself⟩ := hk.known i hi
        rw [hps, Option.some.injEq] at hps'
        subst hps'
        exact ⟨hlt', _, rfl, by rw [Function.update_of_ne hij]; exact hself⟩
    · cases hps'
      by_cases hij : i = j
      · subst hij
        rw [Function.update_self] at hi
        cases hi
      · rw [Function.update_of_ne hij] at hi
        exact hk.flag ps i hps hi
    · have := (hk.fresh hctx).1
      rw [hat] at this
      cases this
    · exact (hk.due i (Nat.lt_of_lt_of_eq hi (htotal i))).imp_right (unregisters_send _)
  · have howes : ∀ i, (CreateAt.loop j).owes s.self.threadNum i = 0 := fun i => by
      rw [CreateAt.owes, if_neg]
      rintro ⟨h₁, h₂⟩
      exact hge (Nat.lt_of_le_of_lt h₁ h₂)
    have htotal : ∀ i, s.registered i + CreateAt.idle.owes s.self.threadNum i = s.registrations i :=
      fun i => by rw [App.registrations, hat, howes]; rfl
    exact ⟨hs.frees, hs.destroys, hs.cbs, hc', fun i => (htotal i).le.trans (hk.once i), hk.known,
      fun i hi => (by cases hi), hk.flag, fun hctx => ⟨rfl, (hk.fresh hctx).2⟩, hk.entered,
      fun i hi => hk.due i (Nat.lt_of_lt_of_eq hi (htotal i))⟩

/-! ### Messages -/

theorem here_pollerRegister {k : Nat × Nat} {msgs : List ((Nat × Nat) × Task)} (hs : Here s)
    (hp : Keyed.pop k s.msgs = some (.pollerRegister i, msgs))
    (h : pollerRegister { s with msgs } i = .ok s') : Here s' := by
  have hk := hs.kept
  have hc' := counted_pollerRegister hs.counted hp h
  obtain ⟨-, ps, hps, rfl⟩ := pollerRegister_eq_ok h
  have hps : s.self.cqPollers = some ps := hps
  -- the registration goes from the message into the list
  have hreg : ∀ j, (s.pollers ++ [i]).count j + regCount msgs j = s.registered j := fun j => by
    simp only [App.registered, regCount_pop hp, List.count_append, List.count_singleton,
      Task.pollerRegister.injEq, beq_iff_eq]
    omega
  have hi : 0 < s.registered i := by
    rw [← hreg, List.count_append, List.count_singleton_self]
    omega
  refine ⟨hs.frees, hs.destroys, hs.cbs, hc', fun j => ?_, fun j hj => ?_, fun _ _ => rfl,
    fun ps' j hps' hj => ?_, fun hctx => ?_, hk.entered, fun j hj => ?_⟩
  · show _ + _ + _ ≤ 1
    rw [hreg]
    exact hk.once j
  · have hj : 0 < s.registered j := Nat.lt_of_lt_of_eq hj (hreg j)
    obtain ⟨hlt, ps', hps', hself⟩ := hk.known j hj
    rw [hps, Option.some.injEq] at hps'
    subst hps'
    exact ⟨hlt, _, rfl, self_update rfl hself⟩
  · cases hps'
    by_cases hij : j = i
    · subst hij
      exact List.mem_append_right _ List.mem_cons_self
    · rw [Function.update_of_ne hij] at hj
      exact List.mem_append_left _ (hk.flag ps j hps hj)
  · have := (hk.fresh hctx).2 i
    omega
  · have hj : 0 < s.registrations j := by
      rw [App.registrations, ← hreg]
      exact hj
    exact (hk.due j hj).imp_right (unregisters_of_pop hp (Task.not_unregisters rfl))

theorem here_cqPollerUnregister {k : Nat × Nat} {msgs : List ((Nat × Nat) × Task)} {ctx : Option Nat}
    (hs : Here s) (hp : Keyed.pop k s.msgs = some (.cqPollerUnregister ctx, msgs))
    (hsp : ∃ i ∈ ctx, ∃ ps ∈ s.self.cqPollers, (ps i).poller = true)
    (h : cqPollerUnregister { s with msgs } t ctx = .ok s') : Here s' := by
  have hk := hs.kept
  have hc' := counted_cqPollerUnregister hs.counted hp h
  obtain ⟨-, i, ps, rfl, hps, hself, rfl⟩ := cqPollerUnregister_eq_ok h
  have hps : s.self.cqPollers = some ps := hps
  have hpoller : (ps i).poller = true := by
    obtain ⟨i', hi, ps', hps', hpoller⟩ := hsp
    cases hi
    rw [hps] at hps'
    cases hps'
    exact hpoller
  -- the poller was registered once, and is no more
  have hmem : i ∈ s.pollers := hk.flag ps i hps hpoller
  have hcount : 0 < s.pollers.count i := List.count_pos_iff.mpr hmem
  have hreg : ∀ j, (s.pollers.erase i).count j +
      regCount (msgs ++ [((t, s.self.threadId), .pollerUnregisterDone)]) j + (if i = j then 1 else 0) =
        s.registered j := fun j => by
    simp only [App.registered, regCount_send, regCount_pop hp, List.count_erase, beq_iff_eq,
      reduceCtorEq, if_false]
    split
    · subst j
      omega
    · omega
  have hle : ∀ j, (s.pollers.erase i).count j +
      regCount (msgs ++ [((t, s.self.threadId), .pollerUnregisterDone)]) j ≤ s.registered j := fun j => by
    have := hreg j
    omega
  simp only [hpoller, if_true] at hc' ⊢
  refine ⟨hs.frees, hs.destroys, hs.cbs, hc', fun j => ?_, fun j hj => ?_, fun _ _ => rfl,
    fun ps' j hps' hj => ?_, fun hctx => ?_, hk.entered, fun j hj => ?_⟩
  · exact (Nat.add_le_add_right (hle j) _).trans (hk.once j)
  · obtain ⟨hlt, ps', hps', hself⟩ := hk.known j (Nat.lt_of_lt_of_le hj (hle j))
    rw [hps, Option.some.injEq] at hps'
    subst hps'
    exact ⟨hlt, _, rfl, self_update rfl hself⟩
  · cases hps'
    by_cases hij : j = i
    · subst hij
      rw [Function.update_self] at hj
      cases hj
    · rw [Function.update_of_ne hij] at hj
      exact (List.mem_erase_of_ne hij).mpr (hk.flag ps j hps hj)
  · obtain ⟨hidle, hzero⟩ := hk.fresh hctx
    exact ⟨hidle, fun j => Nat.eq_zero_of_le_zero ((hle j).trans (hzero j).le)⟩
  · have hj : 0 < (s.pollers.erase i).count j +
        regCount (msgs ++ [((t, s.self.threadId), .pollerUnregisterDone)]) j +
          s.create.owes s.self.threadNum j := hj
    have hij : i ≠ j := by
      rintro rfl
      have h₁ := hreg i
      have h₂ := hk.once i
      rw [if_pos rfl] at h₁
      rw [App.registrations] at h₂
      omega
    have hother : ¬ Unregisters j (.cqPollerUnregister (some i)) := by
      rintro (h | h)
      · cases h
      · cases h
        exact hij rfl
    exact (hk.due j (Nat.lt_of_lt_of_le hj (Nat.add_le_add_right (hle j) _))).imp_right fun hl =>
      unregisters_send _ (unregisters_of_pop hp hother hl)

theorem here_cmPollerUnregister {k : Nat × Nat} {msgs : List ((Nat × Nat) × Task)} (hs : Here s)
    (hp : Keyed.pop k s.msgs = some (.cmPollerUnregister, msgs))
    (h : cmPollerUnregister { s with msgs } t = .ok s') : Here s' := by
  have hk := hs.kept
  have hc' := counted_cmPollerUnregister hs.counted hp h
  obtain ⟨-, rfl⟩ := cmPollerUnregister_eq_ok h
  refine ⟨hs.frees, hs.destroys, hs.cbs, hc',
    hk.frame rfl rfl rfl rfl rfl (fun i => ?_) hk.entered fun i hi => ?_⟩
  · simp [regCount_send, regCount_pop hp]
  · exact (hk.due i hi).imp_right fun hl =>
      unregisters_send _ (unregisters_of_pop hp (by rintro (h | h) <;> cases h) hl)

theorem here_finiCb {k : Nat × Nat} {msgs : List ((Nat × Nat) × Task)} (hs : Here s)
    (hp : Keyed.pop k s.msgs = some (.finiCb, msgs)) : Here { s with msgs } := by
  have hk := hs.kept
  refine ⟨hs.frees, hs.destroys, hs.cbs, counted_finiCb hs.counted hp,
    hk.frame rfl rfl rfl rfl rfl (fun i => ?_) hk.entered fun i hi => ?_⟩
  · simp [regCount_pop hp]
  · exact (hk.due i hi).imp_right (unregisters_of_pop hp (by rintro (h | h) <;> cases h))

/-- **The last acknowledgement finds nothing that needs `self`.** -/
theorem here_pollerUnregisterDone {src dst : Nat} {msgs : List ((Nat × Nat) × Task)} (hs : Here s)
    (hidle : s.Idle dst) (hp : Keyed.pop (src, dst) s.msgs = some (.pollerUnregisterDone, msgs))
    (hsp : s.self.ioCnt = 1 → ¬ s.fini.running)
    (h : pollerUnregisterDone { s with msgs } dst = .ok s') : Here s' ∨ Gone s' := by
  have hc := hs.counted
  have hk := hs.kept
  obtain ⟨hcalled, ⟨hc', ioCnt, rfl⟩ | ⟨hone, hzero, hsent, rfl⟩⟩ :=
    counted_pollerUnregisterDone hc hp h
  · left
    refine ⟨hs.frees, hs.destroys, hs.cbs, hc',
      hk.frame rfl rfl rfl rfl rfl (fun i => ?_) hk.entered fun i hi => ?_⟩
    · simp [regCount_pop hp]
    · exact (hk.due i hi).imp_right (unregisters_of_pop hp (by rintro (h | h) <;> cases h))
  · right
    have hret : s.fini = .returned := by
      by_contra hne
      exact hsp hone ⟨hcalled, hne⟩
    -- no other message ends in an acknowledgement
    have hnone : ∀ m ∈ s.msgs, m.2 ≠ .pollerUnregisterDone → m.2.acks = false := by
      intro m hm hne
      have := List.countP_eq_zero.mp hzero m (mem_of_mem_pop hp hm hne)
      simpa using this
    -- so no poller is still to be unregistered, and none is registered
    have hunreg : ∀ i, ¬ ∃ m ∈ s.msgs, Unregisters i m.2 := by
      rintro i ⟨m, hm, hu⟩
      have hne : m.2 ≠ .pollerUnregisterDone := by
        rcases hu with hu | hu <;> rw [hu] <;> exact nofun
      exact Task.not_unregisters (hnone m hm hne) hu
    have hregs : ∀ i, s.registered i = 0 := by
      intro i
      by_contra hne
      have hpos : 0 < s.registrations i :=
        Nat.lt_of_lt_of_le (Nat.pos_of_ne_zero hne) (Nat.le_add_right _ _)
      rcases hk.due i hpos with howes | hm
      · rw [hret] at howes
        exact howes
      · exact hunreg i hm
    refine ⟨?_, ?_, ?_, hret, ?_, ?_, ?_, fun m hm => ?_⟩
    · show s.frees + 1 = 1
      rw [hs.frees]
    · show (if s.self.ctx then s.destroys + 1 else s.destroys) = if s.self.ctx then 1 else 0
      rw [hs.destroys]
    · show s.cbs ++ _ = _
      rw [hs.cbs]
      rfl
    · exact hidle.2 (hc.home _ (Keyed.mem_of_pop hp))
    · exact hc.cmRegistered_eq hp hcalled hzero hsent
    · show s.pollers = []
      refine List.eq_nil_iff_forall_not_mem.mpr fun i hi => ?_
      have := List.count_pos_iff.mpr hi
      have hreg := hregs i
      rw [App.registered] at hreg
      omega
    · rcases List.mem_append.mp hm with hm | hm
      · have hm' : m ∈ s.msgs := (Keyed.pop_sublist hp).subset hm
        cases htask : m.2 with
        | finiCb => rfl
        | pollerRegister i =>
            have hreg := hregs i
            rw [App.registered] at hreg
            have hpos : 0 < regCount s.msgs i :=
              List.countP_pos_iff.mpr ⟨m, hm', by simp [htask]⟩
            omega
        | cqPollerUnregister ctx => exact absurd (hnone m hm' (by rw [htask]; nofun)) (by rw [htask]; nofun)
        | cmPollerUnregister => exact absurd (hnone m hm' (by rw [htask]; nofun)) (by rw [htask]; nofun)
        | pollerUnregisterDone =>
            have := List.countP_eq_zero.mp hzero m hm
            rw [htask] at this
            exact absurd rfl this
      · cases List.mem_singleton.mp hm
        rfl

/-! ### Every step -/

theorem here_step {e : Event} (hs : Here s) (hsp : Spared s e) (h : step s e = .ok s') :
    Here s' ∨ Gone s' := by
  cases e with
  | fini t => exact .inl (here_fini hs h)
  | finiNext => exact .inl (here_finiNext hs h)
  | connect => exact .inl (here_connect hs hsp h)
  | createNext => exact .inl (here_createNext hs h)
  | cmPoller => exact .inl (step_cmPoller h ▸ hs)
  | cqPoller i => exact .inl (step_cqPoller h ▸ hs)
  | deliver src dst =>
      obtain ⟨hidle, t, msgs, hp, h⟩ := step_deliver h
      have hsp : s.Spares t := hsp _ hp
      cases t with
      | pollerRegister i => exact .inl (here_pollerRegister hs hp h)
      | cqPollerUnregister ctx => exact .inl (here_cqPollerUnregister hs hp hsp h)
      | cmPollerUnregister => exact .inl (here_cmPollerUnregister hs hp h)
      | pollerUnregisterDone => exact here_pollerUnregisterDone hs hidle hp hsp h
      | finiCb =>
          cases h
          exact .inl (here_finiCb hs hp)

theorem gone_step {e : Event} (hg : Gone s) (h : step s e = .ok s') : Gone s' := by
  have hfrees : s.frees ≠ 0 := by rw [hg.frees]; exact Nat.one_ne_zero
  cases e with
  | fini t => exact absurd (step_fini h).2.2.1 hfrees
  | finiNext => exact absurd (kvRdmaFini_eq_ok h).1 hfrees
  | connect => exact absurd (step_connect h).2.2.1 hfrees
  | createNext => exact absurd (createConnetion_eq_ok h).1 hfrees
  | cmPoller => exact step_cmPoller h ▸ hg
  | cqPoller i => exact step_cqPoller h ▸ hg
  | deliver src dst =>
      obtain ⟨-, t, msgs, hp, h⟩ := step_deliver h
      obtain rfl : t = .finiCb := hg.msgs _ (Keyed.mem_of_pop hp)
      cases h
      exact ⟨hg.frees, hg.destroys, hg.cbs, hg.fini, hg.create, hg.cmRegistered, hg.pollers,
        fun m hm => hg.msgs m ((Keyed.pop_sublist hp).subset hm)⟩

end

end Teardown

end RdmaRpc
