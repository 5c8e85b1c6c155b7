import RdmaRpc.Lib.Keyed
import RdmaRpc.Lib.Outcome
import RdmaRpc.Verbs
import Mathlib.Logic.Function.Basic

/-!
# Teardown — Machine

`kv_rdma_fini` and the messages it ends with, on the threads of `kv_app.c`.  A thread runs one
function at a time, and takes its messages from one queue for each sender, so that only messages
of one sender keep their order.  The pollers run on the threads they were registered on.

Two functions are cut into steps, for what other threads do in between: `kv_rdma_fini`, on
whatever thread calls it, and the part of `create_connetion` that registers the pollers, on the
thread of `kv_rdma_init`.  The others touch `self` on one thread, and are steps.

`frees`, `destroys` and `cbs` are history: how often `self` was freed and the CQ destroyed, and the
threads the callback was sent to.
-/

namespace RdmaRpc
open Lib

namespace Teardown

/-- The functions sent with `kv_app_send`.  The argument of `cq_poller_unregister` is
`self->cq_pollers + i`, or `none` when `self->cq_pollers` was still `NULL`. -/
inductive Task where
  | pollerRegister (i : Nat)
  | cqPollerUnregister (ctx : Option Nat)
  | cmPollerUnregister
  | pollerUnregisterDone
  | finiCb
deriving DecidableEq, Repr

/-- `struct cq_poller_ctx`: which of its pointers are not `NULL`. -/
structure CqPollerCtx where
  self : Bool
  cq : Bool
  poller : Bool
deriving DecidableEq, Repr

/-- `struct kv_rdma`, the fields teardown uses; `ioCnt` and `finiThread` are those of `fini_ctx`. -/
structure KvRdma where
  threadId : Nat
  threadNum : Nat
  ctx : Bool
  ec : Bool
  cmPoller : Bool
  cqPollers : Option (Nat → CqPollerCtx)
  ioCnt : Nat
  finiThread : Nat

/-- Where `kv_rdma_fini` stands. -/
inductive FiniAt where
  | uncalled
  /-- before it sends `cm_poller_unregister` -/
  | send
  /-- before it reads `self->ctx` -/
  | test
  /-- before it adds `thread_num` to `io_cnt` -/
  | add
  /-- at the head of the loop -/
  | loop (i : Nat)
  | returned
deriving DecidableEq, Repr

/-- Where `create_connetion` stands, when it registers the pollers. -/
inductive CreateAt where
  | idle
  /-- before it allocates `cq_pollers` -/
  | alloc
  /-- at the head of the loop -/
  | loop (i : Nat)
deriving DecidableEq, Repr

structure App where
  self : KvRdma
  cmRegistered : Bool
  /-- the pollers `rdma_cq_poller` registered -/
  pollers : List Nat
  /-- the messages, with sender and receiver, oldest first -/
  msgs : List ((Nat × Nat) × Task)
  fini : FiniAt
  create : CreateAt
  frees : Nat
  destroys : Nat
  cbs : List Nat

/-- What must not happen. -/
inductive Misuse where
  /-- a use of `self` or `self->cq_pollers` after they are freed -/
  | freed
  /-- a use of `self->cq_pollers` while it is `NULL` -/
  | nullPollers
  /-- a use of `ctx->self` while it is `NULL` -/
  | nullSelf
deriving DecidableEq, Repr

/-- After `kv_rdma_init` on thread `threadId` -/
def init (threadId threadNum : Nat) : App where
  self := ⟨threadId, threadNum, false, true, true, none, 0, 0⟩
  cmRegistered := true
  pollers := []
  msgs := []
  fini := .uncalled
  create := .idle
  frees := 0
  destroys := 0
  cbs := []

/-! ### The functions -/

def kvAppSend (s : App) (src dst : Nat) (t : Task) : App :=
  { s with msgs := s.msgs ++ [((src, dst), t)] }

/-- `self` is read or written. -/
def useSelf (s : App) : Outcome Misuse Unit := Outcome.check (s.frees = 0) .freed

def setPoller (s : App) (ps : Nat → CqPollerCtx) (i : Nat) (ctx : CqPollerCtx) : App :=
  { s with self := { s.self with cqPollers := some (Function.update ps i ctx) } }

def pollerRegister (s : App) (i : Nat) : Outcome Misuse App := do
  useSelf s
  let ps ← Outcome.deref .nullPollers s.self.cqPollers
  return { setPoller s ps i { ps i with poller := true } with pollers := s.pollers ++ [i] }

/-- `cq_poller_unregister` on thread `t`; `spdk_poller_unregister` does nothing on `NULL`. -/
def cqPollerUnregister (s : App) (t : Nat) (ctx : Option Nat) : Outcome Misuse App := do
  let i ← Outcome.deref .nullPollers ctx
  useSelf s
  let ps ← Outcome.deref .nullPollers s.self.cqPollers
  Outcome.check (ps i).self .nullSelf
  let pollers := if (ps i).poller then s.pollers.erase i else s.pollers
  let s := { setPoller s ps i { ps i with cq := false, poller := false } with pollers }
  return kvAppSend s t s.self.threadId .pollerUnregisterDone

/-- `cm_poller_unregister` on thread `t` -/
def cmPollerUnregister (s : App) (t : Nat) : Outcome Misuse App := do
  useSelf s
  let cmRegistered := if s.self.cmPoller then false else s.cmRegistered
  let s := { s with self := { s.self with ec := false, cmPoller := false }, cmRegistered }
  return kvAppSend s t s.self.threadId .pollerUnregisterDone

/-- `poller_unregister_done` on thread `t` -/
def pollerUnregisterDone (s : App) (t : Nat) : Outcome Misuse App := do
  useSelf s
  let ioCnt := u32Pred s.self.ioCnt
  let s := { s with self := { s.self with ioCnt } }
  if ioCnt ≠ 0 then
    return s
  let destroys := if s.self.ctx then s.destroys + 1 else s.destroys
  return { kvAppSend s t s.self.finiThread .finiCb with
    destroys
    frees := s.frees + 1
    cbs := s.cbs ++ [s.self.finiThread] }

/-- The next step of `kv_rdma_fini` -/
def kvRdmaFini (s : App) : Outcome Misuse App :=
  match s.fini with
  | .uncalled | .returned => .blocked
  | .send => do
    useSelf s
    return { kvAppSend s s.self.finiThread s.self.threadId .cmPollerUnregister with fini := .test }
  | .test => do
    useSelf s
    return { s with fini := if s.self.ctx then .add else .returned }
  | .add => do
    useSelf s
    return { s with
      self := { s.self with ioCnt := u32 (s.self.ioCnt + s.self.threadNum) }
      fini := .loop 0 }
  | .loop i => do
    useSelf s
    if i < s.self.threadNum then
      let ctx := s.self.cqPollers.map fun _ => i
      let s' := kvAppSend s s.self.finiThread (s.self.threadId + i) (.cqPollerUnregister ctx)
      return { s' with fini := .loop (i + 1) }
    else
      return { s with fini := .returned }

/-- The next step of `create_connetion` -/
def createConnetion (s : App) : Outcome Misuse App :=
  match s.create with
  | .idle => .blocked
  | .alloc => do
    useSelf s
    let ps : Nat → CqPollerCtx := fun _ => ⟨false, false, false⟩
    return { s with self := { s.self with cqPollers := some ps }, create := .loop 0 }
  | .loop i => do
    useSelf s
    if i < s.self.threadNum then
      let ps ← Outcome.deref .nullPollers s.self.cqPollers
      let s := setPoller s ps i ⟨true, true, false⟩
      let s := kvAppSend s s.self.threadId (s.self.threadId + i) (.pollerRegister i)
      return { s with create := .loop (i + 1) }
    else
      return { s with create := .idle }

/-! ### Steps -/

/-- `kv_rdma_fini` has been called and has not returned. -/
def FiniAt.running (a : FiniAt) : Prop := a ≠ .uncalled ∧ a ≠ .returned

/-- Thread `t` is in neither of the two functions. -/
def App.Idle (s : App) (t : Nat) : Prop :=
  (t = s.self.finiThread → ¬ s.fini.running) ∧ (t = s.self.threadId → s.create = .idle)

instance (a : FiniAt) : Decidable a.running := inferInstanceAs (Decidable (_ ∧ _))
instance (s : App) (t : Nat) : Decidable (s.Idle t) := inferInstanceAs (Decidable (_ ∧ _))

inductive Event where
  /-- `kv_rdma_fini` is called on thread `t` -/
  | fini (t : Nat)
  /-- `kv_rdma_fini` goes on -/
  | finiNext
  /-- `rdma_cm_poller` handles an event that calls `create_connetion` -/
  | connect
  /-- `create_connetion` goes on -/
  | createNext
  /-- `rdma_cm_poller` runs, with no such event -/
  | cmPoller
  /-- `rdma_cq_poller` runs with `self->cq_pollers + i` -/
  | cqPoller (i : Nat)
  /-- `msg_poller` of thread `dst` takes the oldest message of `src` -/
  | deliver (src dst : Nat)

/-- A message is handled on thread `dst`. -/
def handle (s : App) (dst : Nat) : Task → Outcome Misuse App
  | .pollerRegister i => pollerRegister s i
  | .cqPollerUnregister ctx => cqPollerUnregister s dst ctx
  | .cmPollerUnregister => cmPollerUnregister s dst
  | .pollerUnregisterDone => pollerUnregisterDone s dst
  | .finiCb => return s

def step (s : App) : Event → Outcome Misuse App
  | .fini t => do
    Outcome.require (s.fini = .uncalled ∧ s.Idle t)
    useSelf s
    return { s with self := { s.self with finiThread := t, ioCnt := 1 }, fini := .send }
  | .finiNext => kvRdmaFini s
  | .connect => do
    Outcome.require (s.cmRegistered ∧ s.Idle s.self.threadId)
    useSelf s
    Outcome.require s.self.ec
    if s.self.ctx then
      return s
    else
      return { s with self := { s.self with ctx := true }, create := .alloc }
  | .createNext => createConnetion s
  | .cmPoller => do
    Outcome.require (s.cmRegistered ∧ s.Idle s.self.threadId)
    useSelf s
    return s
  | .cqPoller i => do
    Outcome.require (i ∈ s.pollers ∧ s.Idle (s.self.threadId + i))
    useSelf s
    let _ ← Outcome.deref .nullPollers s.self.cqPollers
    return s
  | .deliver src dst => do
    Outcome.require (s.Idle dst)
    let (t, msgs) ← Outcome.choose (Keyed.pop (src, dst) s.msgs)
    handle { s with msgs } dst t

/-! ### What each step does -/

section
variable {s s' : App} {i t : Nat}

theorem useSelf_eq_ok {u : Unit} : useSelf s = .ok u ↔ s.frees = 0 := Outcome.check_eq_ok

theorem useSelf_eq_fault {f : Misuse} : useSelf s = .fault f ↔ s.frees ≠ 0 ∧ Misuse.freed = f :=
  Outcome.check_eq_fault

theorem pollerRegister_eq_ok (h : pollerRegister s i = .ok s') :
    s.frees = 0 ∧ ∃ ps, s.self.cqPollers = some ps ∧
      s' = { s with
        self := { s.self with cqPollers := some (Function.update ps i { ps i with poller := true }) }
        pollers := s.pollers ++ [i] } := by
  simp only [pollerRegister, Outcome.bind_eq_ok, useSelf_eq_ok, Outcome.deref_eq_ok, Outcome.pure_eq,
    Outcome.ok.injEq] at h
  obtain ⟨-, hf, ps, hps, rfl⟩ := h
  exact ⟨hf, ps, hps, rfl⟩

theorem cqPollerUnregister_eq_ok {ctx : Option Nat} (h : cqPollerUnregister s t ctx = .ok s') :
    s.frees = 0 ∧ ∃ i ps, ctx = some i ∧ s.self.cqPollers = some ps ∧ (ps i).self = true ∧
      s' = { s with
        self := { s.self with
          cqPollers := some (Function.update ps i { ps i with cq := false, poller := false }) }
        pollers := if (ps i).poller then s.pollers.erase i else s.pollers
        msgs := s.msgs ++ [((t, s.self.threadId), .pollerUnregisterDone)] } := by
  simp only [cqPollerUnregister, Outcome.bind_eq_ok, useSelf_eq_ok, Outcome.deref_eq_ok,
    Outcome.check_eq_ok, Outcome.pure_eq, Outcome.ok.injEq] at h
  obtain ⟨i, hi, -, hf, ps, hps, -, hself, rfl⟩ := h
  exact ⟨hf, i, ps, hi, hps, hself, rfl⟩

theorem cmPollerUnregister_eq_ok (h : cmPollerUnregister s t = .ok s') :
    s.frees = 0 ∧ s' = { s with
      self := { s.self with ec := false, cmPoller := false }
      cmRegistered := if s.self.cmPoller then false else s.cmRegistered
      msgs := s.msgs ++ [((t, s.self.threadId), .pollerUnregisterDone)] } := by
  simp only [cmPollerUnregister, Outcome.bind_eq_ok, useSelf_eq_ok, Outcome.pure_eq,
    Outcome.ok.injEq] at h
  obtain ⟨-, hf, rfl⟩ := h
  exact ⟨hf, rfl⟩

/-- An acknowledgement is counted, and the last one ends it all. -/
theorem pollerUnregisterDone_eq_ok (h : pollerUnregisterDone s t = .ok s') :
    s.frees = 0 ∧ ∃ ioCnt, ioCnt = u32Pred s.self.ioCnt ∧
      (ioCnt ≠ 0 ∧ s' = { s with self := { s.self with ioCnt } } ∨
        ioCnt = 0 ∧ s' = { s with
          self := { s.self with ioCnt }
          msgs := s.msgs ++ [((t, s.self.finiThread), .finiCb)]
          destroys := if s.self.ctx then s.destroys + 1 else s.destroys
          frees := s.frees + 1
          cbs := s.cbs ++ [s.self.finiThread] }) := by
  simp only [pollerUnregisterDone, Outcome.bind_eq_ok, useSelf_eq_ok, Outcome.pure_eq] at h
  obtain ⟨-, hf, h⟩ := h
  refine ⟨hf, _, rfl, ?_⟩
  split at h
  · exact .inl ⟨‹_›, (Outcome.ok.inj h).symm⟩
  · exact .inr ⟨not_not.mp ‹_›, (Outcome.ok.inj h).symm⟩

theorem kvRdmaFini_eq_ok (h : kvRdmaFini s = .ok s') :
    s.frees = 0 ∧
      (s.fini = .send ∧ s' = { s with
          msgs := s.msgs ++ [((s.self.finiThread, s.self.threadId), .cmPollerUnregister)]
          fini := .test } ∨
        s.fini = .test ∧ s.self.ctx = true ∧ s' = { s with fini := .add } ∨
        s.fini = .test ∧ s.self.ctx = false ∧ s' = { s with fini := .returned } ∨
        s.fini = .add ∧ s' = { s with
          self := { s.self with ioCnt := u32 (s.self.ioCnt + s.self.threadNum) }
          fini := .loop 0 } ∨
        ∃ i, s.fini = .loop i ∧
          (i < s.self.threadNum ∧ s' = { s with
              msgs := s.msgs ++ [((s.self.finiThread, s.self.threadId + i),
                .cqPollerUnregister (s.self.cqPollers.map fun _ => i))]
              fini := .loop (i + 1) } ∨
            ¬ i < s.self.threadNum ∧ s' = { s with fini := .returned })) := by
  unfold kvRdmaFini at h
  split at h
  · cases h
  · cases h
  · simp only [Outcome.bind_eq_ok, useSelf_eq_ok, Outcome.pure_eq, Outcome.ok.injEq] at h
    obtain ⟨-, hf, rfl⟩ := h
    exact ⟨hf, .inl ⟨‹_›, rfl⟩⟩
  · simp only [Outcome.bind_eq_ok, useSelf_eq_ok, Outcome.pure_eq, Outcome.ok.injEq] at h
    obtain ⟨-, hf, rfl⟩ := h
    cases hctx : s.self.ctx with
    | true => exact ⟨hf, .inr (.inl ⟨‹_›, rfl, rfl⟩)⟩
    | false => exact ⟨hf, .inr (.inr (.inl ⟨‹_›, rfl, rfl⟩))⟩
  · simp only [Outcome.bind_eq_ok, useSelf_eq_ok, Outcome.pure_eq, Outcome.ok.injEq] at h
    obtain ⟨-, hf, rfl⟩ := h
    exact ⟨hf, .inr (.inr (.inr (.inl ⟨‹_›, rfl⟩)))⟩
  · rename_i i hi
    simp only [Outcome.bind_eq_ok, useSelf_eq_ok, Outcome.pure_eq] at h
    obtain ⟨-, hf, h⟩ := h
    refine ⟨hf, .inr (.inr (.inr (.inr ⟨i, hi, ?_⟩)))⟩
    split at h
    · exact .inl ⟨‹_›, (Outcome.ok.inj h).symm⟩
    · exact .inr ⟨‹_›, (Outcome.ok.inj h).symm⟩

theorem createConnetion_eq_ok (h : createConnetion s = .ok s') :
    s.frees = 0 ∧
      (s.create = .alloc ∧ s' = { s with
          self := { s.self with cqPollers := some fun _ => ⟨false, false, false⟩ }
          create := .loop 0 } ∨
        ∃ i, s.create = .loop i ∧
          (i < s.self.threadNum ∧ (∃ ps, s.self.cqPollers = some ps ∧ s' = { s with
              self := { s.self with cqPollers := some (Function.update ps i ⟨true, true, false⟩) }
              msgs := s.msgs ++ [((s.self.threadId, s.self.threadId + i), .pollerRegister i)]
              create := .loop (i + 1) }) ∨
            ¬ i < s.self.threadNum ∧ s' = { s with create := .idle })) := by
  unfold createConnetion at h
  split at h
  · cases h
  · simp only [Outcome.bind_eq_ok, useSelf_eq_ok, Outcome.pure_eq, Outcome.ok.injEq] at h
    obtain ⟨-, hf, rfl⟩ := h
    exact ⟨hf, .inl ⟨‹_›, rfl⟩⟩
  · rename_i i hi
    simp only [Outcome.bind_eq_ok, useSelf_eq_ok] at h
    obtain ⟨-, hf, h⟩ := h
    refine ⟨hf, .inr ⟨i, hi, ?_⟩⟩
    split at h
    · simp only [Outcome.bind_eq_ok, Outcome.deref_eq_ok, Outcome.pure_eq, Outcome.ok.injEq] at h
      obtain ⟨ps, hps, rfl⟩ := h
      exact .inl ⟨‹_›, ps, hps, rfl⟩
    · exact .inr ⟨‹_›, (Outcome.ok.inj h).symm⟩

theorem step_fini (h : step s (.fini t) = .ok s') :
    s.fini = .uncalled ∧ s.Idle t ∧ s.frees = 0 ∧
      s' = { s with self := { s.self with finiThread := t, ioCnt := 1 }, fini := .send } := by
  simp only [step, Outcome.bind_eq_ok, Outcome.require_eq_ok, useSelf_eq_ok, Outcome.pure_eq,
    Outcome.ok.injEq] at h
  obtain ⟨-, ⟨hu, hi⟩, -, hf, rfl⟩ := h
  exact ⟨hu, hi, hf, rfl⟩

theorem step_connect (h : step s .connect = .ok s') :
    s.cmRegistered = true ∧ s.Idle s.self.threadId ∧ s.frees = 0 ∧
      (s.self.ctx = true ∧ s' = s ∨
        s.self.ctx = false ∧
          s' = { s with self := { s.self with ctx := true }, create := .alloc }) := by
  simp only [step, Outcome.bind_eq_ok, Outcome.require_eq_ok, useSelf_eq_ok, Outcome.pure_eq] at h
  obtain ⟨-, ⟨hcm, hi⟩, -, hf, -, -, h⟩ := h
  refine ⟨hcm, hi, hf, ?_⟩
  split at h
  · exact .inl ⟨‹_›, (Outcome.ok.inj h).symm⟩
  · rename_i hctx
    exact .inr ⟨by simpa using hctx, (Outcome.ok.inj h).symm⟩

theorem step_cmPoller (h : step s .cmPoller = .ok s') : s' = s := by
  simp only [step, Outcome.bind_eq_ok, Outcome.pure_eq, Outcome.ok.injEq] at h
  obtain ⟨-, -, -, -, rfl⟩ := h
  rfl

theorem step_cqPoller (h : step s (.cqPoller i) = .ok s') : s' = s := by
  simp only [step, Outcome.bind_eq_ok, Outcome.pure_eq, Outcome.ok.injEq] at h
  obtain ⟨-, -, -, -, -, -, rfl⟩ := h
  rfl

theorem step_deliver {src dst : Nat} (h : step s (.deliver src dst) = .ok s') :
    s.Idle dst ∧ ∃ t msgs, Keyed.pop (src, dst) s.msgs = some (t, msgs) ∧
      handle { s with msgs } dst t = .ok s' := by
  simp only [step, Outcome.bind_eq_ok, Outcome.require_eq_ok, Outcome.choose_eq_ok, Prod.exists] at h
  obtain ⟨-, hi, t, msgs, hp, h⟩ := h
  exact ⟨hi, t, msgs, hp, h⟩

end

end Teardown

end RdmaRpc
