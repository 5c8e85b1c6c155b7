import RdmaRpc.Lib.Keyed
import RdmaRpc.Lib.Outcome
import Mathlib.Logic.Function.Basic

/-!
# App — Machine

The messages between the threads of `kv_app.c`: `kv_app_send` and `msg_poller`, for any number of
threads.  The queue of a thread has a sub-queue for each producer token, first in, first out; a bulk
dequeue takes from the sub-queues in whatever order.  The event elements are named by their index in
the pool, and `mem` is what they hold: an element is written by `kv_app_send` and read when its task
is started.

`kv_app_send` is cut before it enqueues, and a batch is walked element by element, so that other
threads run in between, and the task at hand can send.

`KvAppMsg.serial`, `sent` and `started` are history: the calls of `kv_app_send` are numbered, and the tasks
started are recorded with what was read from their element.
-/

namespace RdmaRpc
open Lib

/-- `struct kv_app_task`; the function is `none` when the pointer is `NULL`. -/
structure KvAppTask where
  func : Option Nat
  arg : Nat
deriving DecidableEq, Repr

/-- `MAX_POLL_SZ` -/
def maxPollSz : Nat := 128

/-- A pointer to an event element, with the number of the call that sent it. -/
structure KvAppMsg where
  ele : Nat
  serial : Nat
deriving DecidableEq, Repr

/-- The event pool, the queues and the threads.

* `pool` are the free elements of `g_event_mempool`;
* `cq` is what the queues hold, by sender and receiver, oldest first;
* `msgBuf` is what each thread has of its batch, from the element at hand, each with its sender;
* `running` says that the task of the element at hand has been started;
* `sending` are the calls of `kv_app_send` that have still to enqueue, by thread, with the
  receiver. -/
structure KvApp where
  pool : List Nat
  mem : Nat → KvAppTask
  cq : List ((Nat × Nat) × KvAppMsg)
  msgBuf : List (Nat × (Nat × KvAppMsg))
  running : Nat → Bool
  sending : List (Nat × (Nat × KvAppMsg))
  sent : List ((Nat × Nat) × (Nat × KvAppTask))
  started : List ((Nat × Nat) × (Nat × KvAppTask))

namespace KvApp

/-- With `count` elements -/
def init (count : Nat) : KvApp where
  pool := List.range count
  mem := fun _ => ⟨none, 0⟩
  cq := []
  msgBuf := []
  running := fun _ => false
  sending := []
  sent := []
  started := []

/-! ### The functions -/

/-- `kv_app_send` on thread `t`, to the write of the element; `spdk_mempool_get` takes the element
`pick`. -/
def kvAppSend (s : KvApp) (t dst : Nat) (task : KvAppTask) (pick : Nat) : Outcome Empty KvApp := do
  let ele ← Outcome.choose s.pool[pick]?
  return { s with
    pool := s.pool.eraseIdx pick
    mem := Function.update s.mem ele task
    sending := s.sending ++ [(t, (dst, ⟨ele, s.sent.length⟩))]
    sent := s.sent ++ [((t, dst), (s.sent.length, task))] }

/-- `moodycamel_cq_enqueue_with_token`, which ends the call of thread `t` -/
def enqueueWithToken (s : KvApp) (t : Nat) : Outcome Empty KvApp := do
  let ((dst, m), sending) ← Outcome.choose (Keyed.pop t s.sending)
  return { s with sending, cq := s.cq ++ [((t, dst), m)] }

/-- One element of `moodycamel_cq_try_dequeue_bulk_with_token` on thread `d`, from the sub-queue of
`src` -/
def dequeue (d : Nat) (s : KvApp) (src : Nat) : Outcome Empty KvApp := do
  let (m, cq) ← Outcome.choose (Keyed.pop (src, d) s.cq)
  return { s with cq, msgBuf := s.msgBuf ++ [(d, (src, m))] }

/-- `msg_poller` on thread `d`, to the start of the task at hand: a `NULL` function is none to call. -/
def startTask (s : KvApp) (d : Nat) : Outcome Empty KvApp := do
  let (src, m) ← Outcome.choose (Keyed.queue d s.msgBuf).head?
  return { s with
    running := Function.update s.running d true
    started := s.started ++ [((src, d), (m.serial, s.mem m.ele))] }

/-- `spdk_mempool_put`, when the task at hand has returned -/
def putTask (s : KvApp) (d : Nat) : Outcome Empty KvApp := do
  let ((_, m), msgBuf) ← Outcome.choose (Keyed.pop d s.msgBuf)
  return { s with msgBuf, running := Function.update s.running d false, pool := s.pool ++ [m.ele] }

/-! ### Steps -/

inductive Event where
  /-- `kv_app_send` is called on thread `t`, by the task at hand or outside `msg_poller` -/
  | send (t dst : Nat) (task : KvAppTask) (pick : Nat)
  /-- the call of thread `t` enqueues its element -/
  | enqueue (t : Nat)
  /-- `msg_poller` of thread `d` takes a batch, from the sub-queues `srcs` -/
  | poll (d : Nat) (srcs : List Nat)
  /-- the task at hand of thread `d` is started -/
  | start (d : Nat)
  /-- the task at hand of thread `d` has returned -/
  | put (d : Nat)

/-- Thread `t` is in no call of `kv_app_send`. -/
def Quiet (s : KvApp) (t : Nat) : Prop := Keyed.queue t s.sending = []

instance (s : KvApp) (t : Nat) : Decidable (s.Quiet t) := inferInstanceAs (Decidable (_ = _))

def step (s : KvApp) : Event → Outcome Empty KvApp
  | .send t dst task pick => do
    Outcome.require (s.Quiet t ∧ (Keyed.queue t s.msgBuf ≠ [] → s.running t))
    kvAppSend s t dst task pick
  | .enqueue t => enqueueWithToken s t
  | .poll d srcs => do
    Outcome.require (s.Quiet d ∧ Keyed.queue d s.msgBuf = [] ∧ srcs.length ≤ maxPollSz)
    run (dequeue d) s srcs
  | .start d => do
    Outcome.require (s.Quiet d ∧ s.running d = false)
    startTask s d
  | .put d => do
    Outcome.require (s.Quiet d ∧ s.running d)
    putTask s d

/-! ### What each step does -/

section
variable {s s' : KvApp} {t d dst src pick : Nat} {task : KvAppTask}

theorem kvAppSend_eq_ok (h : kvAppSend s t dst task pick = .ok s') :
    ∃ ele, s.pool[pick]? = some ele ∧ s' = { s with
      pool := s.pool.eraseIdx pick
      mem := Function.update s.mem ele task
      sending := s.sending ++ [(t, (dst, ⟨ele, s.sent.length⟩))]
      sent := s.sent ++ [((t, dst), (s.sent.length, task))] } := by
  obtain ⟨ele, hele, h⟩ := Outcome.bind_eq_ok.mp h
  cases h
  exact ⟨ele, Outcome.choose_eq_ok.mp hele, rfl⟩

theorem enqueueWithToken_eq_ok (h : enqueueWithToken s t = .ok s') :
    ∃ dst m sending, Keyed.pop t s.sending = some ((dst, m), sending) ∧
      s' = { s with sending, cq := s.cq ++ [((t, dst), m)] } := by
  obtain ⟨⟨⟨dst, m⟩, sending⟩, hp, h⟩ := Outcome.bind_eq_ok.mp h
  cases h
  exact ⟨dst, m, sending, Outcome.choose_eq_ok.mp hp, rfl⟩

theorem dequeue_eq_ok (h : dequeue d s src = .ok s') :
    ∃ m cq, Keyed.pop (src, d) s.cq = some (m, cq) ∧
      s' = { s with cq, msgBuf := s.msgBuf ++ [(d, (src, m))] } := by
  obtain ⟨⟨m, cq⟩, hp, h⟩ := Outcome.bind_eq_ok.mp h
  cases h
  exact ⟨m, cq, Outcome.choose_eq_ok.mp hp, rfl⟩

theorem startTask_eq_ok (h : startTask s d = .ok s') :
    ∃ src m rest, Keyed.queue d s.msgBuf = (src, m) :: rest ∧ s' = { s with
      running := Function.update s.running d true
      started := s.started ++ [((src, d), (m.serial, s.mem m.ele))] } := by
  obtain ⟨⟨src, m⟩, hq, h⟩ := Outcome.bind_eq_ok.mp h
  cases h
  obtain ⟨rest, hrest⟩ := List.head?_eq_some_iff.mp (Outcome.choose_eq_ok.mp hq)
  exact ⟨src, m, rest, hrest, rfl⟩

theorem putTask_eq_ok (h : putTask s d = .ok s') :
    ∃ src m msgBuf, Keyed.pop d s.msgBuf = some ((src, m), msgBuf) ∧ s' = { s with
      msgBuf
      running := Function.update s.running d false
      pool := s.pool ++ [m.ele] } := by
  obtain ⟨⟨⟨src, m⟩, msgBuf⟩, hp, h⟩ := Outcome.bind_eq_ok.mp h
  cases h
  exact ⟨src, m, msgBuf, Outcome.choose_eq_ok.mp hp, rfl⟩

end

end KvApp

end RdmaRpc
