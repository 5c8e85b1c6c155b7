import RdmaRpc.Teardown.Acks

/-!
# Teardown — Waits

Teardown waits for every poller (`teardown_waits`): when it ends, once, nothing refers to `self`, and
it has ended when no message is left.

It waits where the steps come in an order that spares it, and the code leaves that to chance
(`teardown_early`).  A connection set up after `kv_rdma_fini` has found `self->ctx` to be `NULL`
registers pollers nobody unregisters.  An acknowledgement handled before `kv_rdma_fini` has added
`thread_num` ends it all at once.  And a `cq_poller_unregister` that overtakes its
`poller_register`, which it can when another thread sent it, unregisters nothing.
-/

namespace RdmaRpc
open Lib

namespace Teardown

section
variable {s s' : App} {task : Task} {msgs : List ((Nat × Nat) × Task)}

/-! ### Nothing is used in vain -/

/-- The message that is handled uses nothing that is not there. -/
theorem Here.handle_ne_fault {src dst : Nat} {f : Misuse} (hs : Here s)
    (hp : Keyed.pop (src, dst) s.msgs = some (task, msgs)) (hsp : s.Spares task) :
    handle { s with msgs } dst task ≠ .fault f := by
  intro h
  have hk := hs.kept
  have huse : ∀ {f}, useSelf { s with msgs } = .fault f → False := fun h =>
    (useSelf_eq_fault.mp h).1 hs.frees
  cases task with
  | pollerRegister i =>
      simp only [handle, pollerRegister, Outcome.bind_eq_fault, Outcome.deref_eq_fault,
        Outcome.pure_eq, reduceCtorEq, and_false, exists_false, or_false] at h
      rcases h with h | ⟨-, -, hnone, -⟩
      · exact huse h
      · -- the message to register it is here, so its record has been written
        have hpos : 0 < s.registered i := Nat.lt_of_lt_of_le
          (List.countP_pos_iff.mpr ⟨_, Keyed.mem_of_pop hp, by simp⟩) (Nat.le_add_left _ _)
        obtain ⟨-, ps, hps, -⟩ := hk.known i hpos
        rw [hps] at hnone
        cases hnone
  | cqPollerUnregister ctx =>
      obtain ⟨i, hi, ps, hps, hpoller⟩ : s.Spares (.cqPollerUnregister ctx) := hsp
      -- the poller is registered, so its record has been written
      have hreg : 0 < s.registered i := Nat.lt_of_lt_of_le
        (List.count_pos_iff.mpr (hk.flag ps i hps hpoller)) (Nat.le_add_right _ _)
      obtain ⟨-, ps', hps', hself⟩ := hk.known i hreg
      cases hi
      rw [hps'] at hps
      cases hps
      simp only [handle, cqPollerUnregister, Outcome.bind_eq_fault, Outcome.deref_eq_fault,
        Outcome.deref_eq_ok, Outcome.check_eq_fault, Outcome.pure_eq, reduceCtorEq, and_false,
        exists_false, or_false, false_and, false_or, Option.some.injEq, exists_eq_left', hps',
        hself, not_true] at h
      exact huse h
  | cmPollerUnregister =>
      simp only [handle, cmPollerUnregister, Outcome.bind_eq_fault, Outcome.pure_eq, reduceCtorEq,
        and_false, exists_false, or_false] at h
      exact huse h
  | pollerUnregisterDone =>
      simp only [handle, pollerUnregisterDone, Outcome.bind_eq_fault] at h
      rcases h with h | ⟨-, -, h⟩
      · exact huse h
      · split at h <;> cases h
  | finiCb => cases h

/-- Where `self` is there, nothing uses what is not. -/
theorem Here.ne_fault {e : Event} {f : Misuse} (hs : Here s) (hsp : Spared s e) :
    step s e ≠ .fault f := by
  intro h
  have hk := hs.kept
  have huse : ∀ {f}, useSelf s = .fault f → False := fun h => (useSelf_eq_fault.mp h).1 hs.frees
  cases e with
  | fini t =>
      simp only [step, Outcome.bind_eq_fault, Outcome.require_ne_fault, Outcome.pure_eq, reduceCtorEq,
        and_false, exists_false, or_false, false_or] at h
      obtain ⟨-, -, h⟩ := h
      exact huse h
  | finiNext =>
      simp only [step, kvRdmaFini] at h
      split at h
      · cases h
      · cases h
      · simp [Outcome.bind_eq_fault, useSelf_eq_fault, hs.frees] at h
      · simp [Outcome.bind_eq_fault, useSelf_eq_fault, hs.frees] at h
      · simp [Outcome.bind_eq_fault, useSelf_eq_fault, hs.frees] at h
      · simp only [Outcome.bind_eq_fault, useSelf_eq_fault, hs.frees, ne_eq, not_true, false_and,
          false_or] at h
        obtain ⟨-, -, h⟩ := h
        split at h <;> cases h
  | connect =>
      simp only [step, Outcome.bind_eq_fault, Outcome.require_ne_fault, false_or] at h
      obtain ⟨-, -, h | ⟨-, -, -, -, h⟩⟩ := h
      · exact huse h
      · split at h <;> cases h
  | createNext =>
      simp only [step, createConnetion] at h
      split at h
      · cases h
      · simp [Outcome.bind_eq_fault, useSelf_eq_fault, hs.frees] at h
      · rename_i i hat
        simp only [Outcome.bind_eq_fault, useSelf_eq_fault, hs.frees, ne_eq, not_true, false_and,
          false_or] at h
        obtain ⟨-, -, h⟩ := h
        have halloc := hk.alloc i hat
        split at h
        · simp only [Outcome.bind_eq_fault, Outcome.deref_eq_fault, Outcome.pure_eq, reduceCtorEq,
            and_false, exists_false, or_false] at h
          rw [h.1] at halloc
          cases halloc
        · cases h
  | cmPoller =>
      simp only [step, Outcome.bind_eq_fault, Outcome.require_ne_fault, Outcome.pure_eq, reduceCtorEq,
        and_false, exists_false, or_false, false_or] at h
      obtain ⟨-, -, h⟩ := h
      exact huse h
  | cqPoller i =>
      simp only [step, Outcome.bind_eq_fault, Outcome.require_ne_fault, Outcome.require_eq_ok,
        Outcome.deref_eq_fault, Outcome.pure_eq, reduceCtorEq, and_false, exists_false, or_false,
        false_or] at h
      obtain ⟨-, ⟨hi, -⟩, h | ⟨-, -, hnone, -⟩⟩ := h
      · exact huse h
      · have hpos : 0 < s.registered i :=
          Nat.lt_of_lt_of_le (List.count_pos_iff.mpr hi) (Nat.le_add_right _ _)
        obtain ⟨-, ps, hps, -⟩ := hk.known i hpos
        rw [hps] at hnone
        cases hnone
  | deliver src dst =>
      simp only [step, Outcome.bind_eq_fault, Outcome.require_ne_fault, Outcome.choose_ne_fault,
        Outcome.choose_eq_ok, false_or, Prod.exists] at h
      obtain ⟨-, -, t, msgs, hp, h⟩ := h
      exact hs.handle_ne_fault hp (hsp _ hp) h

/-- Where `self` is gone, nothing uses it. -/
theorem Gone.ne_fault {e : Event} {f : Misuse} (hg : Gone s) : step s e ≠ .fault f := by
  intro h
  cases e with
  | fini t => simp [step, Outcome.bind_eq_fault, hg.fini] at h
  | finiNext => simp [step, kvRdmaFini, hg.fini] at h
  | connect => simp [step, Outcome.bind_eq_fault, hg.cmRegistered] at h
  | createNext => simp [step, createConnetion, hg.create] at h
  | cmPoller => simp [step, Outcome.bind_eq_fault, hg.cmRegistered] at h
  | cqPoller i => simp [step, Outcome.bind_eq_fault, hg.pollers] at h
  | deliver src dst =>
      simp only [step, Outcome.bind_eq_fault, Outcome.require_ne_fault, Outcome.choose_ne_fault,
        Outcome.choose_eq_ok, false_or, Prod.exists] at h
      obtain ⟨-, -, t, msgs, hp, h⟩ := h
      obtain rfl : t = .finiCb := hg.msgs _ (Keyed.mem_of_pop hp)
      cases h

/-! ### Runs -/

/-- `self` is freed and the callback sent at most once, when no poller is left and nothing refers
to `self`; and this has come to pass when no message is left that could bring it about. -/
structure Awaits (s : App) : Prop where
  frees : s.frees ≤ 1
  destroys : s.destroys = if s.self.ctx then s.frees else 0
  cbs : s.cbs = List.replicate s.frees s.self.finiThread
  freed : s.frees ≠ 0 → s.cmRegistered = false ∧ s.pollers = [] ∧ s.create = .idle ∧
    s.fini = .returned ∧ ∀ m ∈ s.msgs, m.2 = .finiCb
  ends : s.fini = .returned → (∀ m ∈ s.msgs, m.2 = .finiCb) → s.frees = 1

theorem Here.awaits (hs : Here s) : Awaits s where
  frees := by rw [hs.frees]; exact Nat.zero_le _
  destroys := by rw [hs.destroys, hs.frees]; split <;> rfl
  cbs := by rw [hs.cbs, hs.frees]; rfl
  freed := fun h => absurd hs.frees h
  ends := fun hret hmsgs => by
    have hpos := hs.counted.pos (by rw [hret]; nofun)
    rw [App.pending, hret] at hpos
    obtain ⟨m, hm, hack⟩ := List.countP_pos_iff.mp hpos
    rw [hmsgs m hm] at hack
    cases hack

theorem Gone.awaits (hg : Gone s) : Awaits s where
  frees := hg.frees.le
  destroys := by rw [hg.destroys, hg.frees]
  cbs := by rw [hg.cbs, hg.frees]; rfl
  freed := fun _ => ⟨hg.cmRegistered, hg.pollers, hg.create, hg.fini, hg.msgs⟩
  ends := fun _ _ => hg.frees

variable {threadId threadNum : Nat} {tr : List Event}

/-- **Teardown waits for every poller**, where the order of steps spares it. -/
theorem teardown_waits (hn : threadNum < 2 ^ 32) (hsp : Along step Spared (init threadId threadNum) tr)
    (hr : run step (init threadId threadNum) tr = .ok s) :
    Awaits s ∧ ∀ e f, Spared s e → step s e ≠ .fault f := by
  have hinv : Here s ∨ Gone s := by
    refine run_invariant_along (P := fun s => Here s ∨ Gone s) ?_ (.inl (init_here threadId hn)) hsp hr
    rintro s₁ e s₂ (hs | hg) hsp h
    · exact here_step hs hsp h
    · exact .inr (gone_step hg h)
  rcases hinv with hs | hg
  · exact ⟨hs.awaits, fun e f hsp => hs.ne_fault hsp⟩
  · exact ⟨hg.awaits, fun e f _ => hg.ne_fault⟩

/-- The first connection is set up, and its one poller registered. -/
def setUp : List Event := [.connect, .createNext, .createNext, .createNext, .deliver 0 0]

/-- `kv_rdma_fini` on the thread of the pollers, and the messages it ends with. -/
def tearDown : List Event :=
  [.fini 0, .finiNext, .finiNext, .finiNext, .finiNext, .finiNext, .deliver 0 0, .deliver 0 0,
    .deliver 0 0, .deliver 0 0]

/-- A connection is set up, and torn down. -/
theorem teardown_waits_onePoller :
    ∃ s, run step (init 0 1) (setUp ++ tearDown) = .ok s ∧ s.frees = 1 ∧ Awaits s := by
  have hend : Outcome.Ends (fun s => s.frees = 1) (run step (init 0 1) (setUp ++ tearDown)) := by
    decide +kernel
  have hsp : Along step Spared (init 0 1) (setUp ++ tearDown) := by decide +kernel
  obtain ⟨s, hs, hf⟩ := Outcome.ends_iff.mp hend
  exact ⟨s, hs, hf, (teardown_waits (by decide) hsp hs).1⟩

/-- A connection set up when `kv_rdma_fini` has returned. -/
def lateConnection : List Event :=
  [.fini 0, .finiNext, .finiNext, .connect, .createNext, .createNext, .createNext, .deliver 0 0,
    .deliver 0 0, .deliver 0 0]

/-- An acknowledgement before `kv_rdma_fini`, on thread 1, has counted the pollers. -/
def earlyAck : List Event := setUp ++ [.fini 1, .finiNext, .deliver 1 0, .deliver 0 0]

/-- Two pollers, and a `cq_poller_unregister` from thread 2 that overtakes its `poller_register`. -/
def overtaken : List Event :=
  [.connect, .createNext, .createNext, .createNext, .createNext, .deliver 0 0, .fini 2, .finiNext,
    .finiNext, .finiNext, .finiNext, .finiNext, .finiNext, .deliver 2 0, .deliver 2 0, .deliver 2 1,
    .deliver 0 1, .deliver 0 0, .deliver 0 0, .deliver 1 0]

/-- **Teardown does not wait by itself**: each of these runs frees `self` and leaves a poller that
uses it. -/
theorem teardown_early :
    (∃ s, run step (init 0 1) lateConnection = .ok s ∧ s.frees = 1 ∧ 0 ∈ s.pollers ∧
      step s (.cqPoller 0) = .fault .freed) ∧
    (∃ s, run step (init 0 1) earlyAck = .ok s ∧ s.frees = 1 ∧ 0 ∈ s.pollers ∧
      step s (.cqPoller 0) = .fault .freed) ∧
    ∃ s, run step (init 0 2) overtaken = .ok s ∧ s.frees = 1 ∧ 1 ∈ s.pollers ∧
      step s (.cqPoller 1) = .fault .freed :=
  ⟨Outcome.ends_iff.mp (by decide +kernel), Outcome.ends_iff.mp (by decide +kernel),
    Outcome.ends_iff.mp (by decide +kernel)⟩

end

end Teardown

end RdmaRpc
