import RdmaRpc.Lib.Outcome
import RdmaRpc.Lib.Keyed
import RdmaRpc.Lib.Bytes

/-!
# Verbs

The libibverbs objects `kv_rdma.c` uses: memory regions, scatter entries, work requests and
completions, the completion queue the pollers share, and the switch of `rdma_cq_poller`.  The
type `ι` of `wr_id` is what the poster stores there.

A completion queue entry carries, beside the completion itself, the kind of work request that
produced it and the request it belongs to (`Cqe.kind`, `Cqe.origin`).  These two are history:
no function of the source reads them.
-/

namespace RdmaRpc
open Lib

abbrev QpNum := Nat
abbrev ConnId := Nat
abbrev Thread := Nat

/-- `(uint32_t)n` -/
def u32 (n : Nat) : Nat := n % 2 ^ 32

/-- `--n` on a `uint32_t` -/
def u32Pred (n : Nat) : Nat := if n = 0 then 2 ^ 32 - 1 else n - 1

/-- `(size_t)n` -/
def sizeT (n : Nat) : Nat := n % 2 ^ 64

theorem u32_le (n : Nat) : u32 n ≤ n := Nat.mod_le _ _
theorem u32_of_lt {n : Nat} (h : n < 2 ^ 32) : u32 n = n := Nat.mod_eq_of_lt h
theorem u32_lt (n : Nat) : u32 n < 2 ^ 32 := Nat.mod_lt _ (by decide)

theorem u32Pred_u32 (n : Nat) : u32Pred (u32 (n + 1)) = u32 n := by
  unfold u32Pred u32
  split <;> omega

theorem sizeT_of_lt {n : Nat} (h : n < 2 ^ 64) : sizeT n = n := Nat.mod_eq_of_lt h

/-- `MAX_Q_NUM` -/
def maxQNum : Nat := 4096

/-- `MAX_ENTRIES_PER_POLL` -/
def maxEntriesPerPoll : Nat := 128

/-- What ends a process, leaves its behaviour undefined, or fails a send. -/
inductive Fault where
  /-- `assert(wc->byte_len > HEADER_SIZE)` -/
  | assertByteLen
  /-- `assert(wc->wc_flags & IBV_WC_WITH_IMM)` -/
  | assertImm
  /-- `assert(ctx->conn)` -/
  | assertConn
  /-- `assert(ctx->conn->is_server)` -/
  | assertIsServer
  /-- `assert(req_sz <= ctx->req->length)` -/
  | assertReqSz
  /-- a read through a connection pointer that is `NULL` -/
  | nullConn
  /-- a use of a connection record that has been freed -/
  | freedConn
  /-- a use of the pool of a connection after `kv_mempool_free` -/
  | freedPool
  /-- a post on a queue pair that has been destroyed -/
  | destroyedQp
  /-- a write through the `NULL` an empty pool gives -/
  | nullElement
  /-- a read of a request context that was never written -/
  | wildContext
  /-- a call through a `NULL` callback -/
  | nullCallback
  /-- `wr_id` read as a type that was not stored in it -/
  | wrIdType
  /-- a send that finds no receive at the other end: `rnr_retry_count` is 0, so it fails -/
  | receiverNotReady
deriving DecidableEq, Repr

/-- The faults of a use of a connection, with its queue pair and its pool. -/
def Fault.ofConn : Fault → Bool
  | .nullConn | .freedConn | .freedPool | .assertConn | .assertIsServer | .destroyedQp
  | .wrIdType => true
  | .assertByteLen | .assertImm | .assertReqSz | .nullElement | .wildContext | .nullCallback
  | .receiverNotReady => false

/-- `struct ibv_mr` -/
structure IbvMr where
  addr : Nat
  length : Nat
  lkey : BitVec 32
  rkey : BitVec 32
deriving DecidableEq, Repr

/-- `struct ibv_sge` -/
structure IbvSge where
  addr : Nat
  length : Nat
  lkey : BitVec 32
deriving DecidableEq, Repr

/-- `struct ibv_recv_wr`, with at most one scatter entry -/
structure RecvWr (ι : Type) where
  wrId : ι
  sge : Option IbvSge
deriving DecidableEq, Repr

inductive WrOpcode where
  | sendWithImm
  | rdmaWriteWithImm
deriving DecidableEq, Repr

/-- `struct ibv_send_wr`, signaled, with one scatter entry -/
structure SendWr (ι : Type) where
  wrId : ι
  opcode : WrOpcode
  immData : BitVec 32
  sge : IbvSge
  remoteAddr : BitVec 64
  rkey : BitVec 32
deriving DecidableEq, Repr

inductive WcStatus where
  | success
  | error (code : Nat)
deriving DecidableEq, Repr

inductive WcOpcode where
  | send
  | rdmaWrite
  | recv
  | recvRdmaWithImm
  | other (code : Nat)
deriving DecidableEq, Repr

/-- `struct ibv_wc`; `withImm` is the flag `IBV_WC_WITH_IMM` of `wc_flags`. -/
structure Wc (ι : Type) where
  wrId : ι
  status : WcStatus
  opcode : WcOpcode
  byteLen : Nat
  immData : BitVec 32
  withImm : Bool
  qpNum : QpNum
deriving DecidableEq, Repr

/-- The fields of a completion that `ibv_poll_cq` leaves undefined when the status is not
success. -/
structure WcFields where
  opcode : WcOpcode
  byteLen : Nat
  immData : BitVec 32
  withImm : Bool
deriving DecidableEq, Repr

/-- How a work request ends: well, or with a status and whatever the other fields then hold. -/
inductive Ending where
  | good
  | bad (code : Nat) (fields : WcFields)
deriving DecidableEq, Repr

/-- The completion of a work request, whose fields are `fields` if it ends well. -/
def Ending.wc {ι : Type} (en : Ending) (wrId : ι) (qpNum : QpNum) (fields : WcFields) : Wc ι :=
  match en with
  | .good => ⟨wrId, .success, fields.opcode, fields.byteLen, fields.immData, fields.withImm, qpNum⟩
  | .bad code f => ⟨wrId, .error code, f.opcode, f.byteLen, f.immData, f.withImm, qpNum⟩

section
variable {ι : Type} {en : Ending} {wrId : ι} {qpNum : QpNum} {fields : WcFields}

@[simp] theorem Ending.wc_wrId : (en.wc wrId qpNum fields).wrId = wrId := by cases en <;> rfl
@[simp] theorem Ending.wc_qpNum : (en.wc wrId qpNum fields).qpNum = qpNum := by cases en <;> rfl

end

/-- The four kinds of work request `kv_rdma.c` posts. -/
inductive WrKind where
  | serverRecv
  | respWrite
  | clientRecv
  | clientSend
deriving DecidableEq, Repr

/-- The request a message or a response belongs to: the `call`-th `kv_rdma_send_req` on the
connection whose server side is `qp`. -/
structure Origin where
  qp : QpNum
  call : Nat
deriving DecidableEq, Repr

/-- A completion, with its history. -/
structure Cqe (ι : Type) where
  wc : Wc ι
  kind : WrKind
  origin : Origin
deriving DecidableEq, Repr

/-- The completion queue, and the completions each poller thread has taken from it into its
array `wc` and not yet handled, oldest first. -/
structure Completions (ι : Type) where
  queue : List (Cqe ι)
  polled : List (Thread × Cqe ι)

namespace Completions
variable {ι : Type}

def empty : Completions ι := ⟨[], []⟩

def push (c : Completions ι) (e : Cqe ι) : Completions ι := { c with queue := c.queue ++ [e] }

/-- Thread `t` takes `k` completions. -/
def poll (c : Completions ι) (t : Thread) (k : Nat) : Completions ι :=
  ⟨c.queue.drop k, c.polled ++ (c.queue.take k).map (t, ·)⟩

/-- The next completion of thread `t`. -/
def next (c : Completions ι) (t : Thread) : Option (Cqe ι × Completions ι) :=
  (Keyed.pop t c.polled).map fun p => (p.1, { c with polled := p.2 })

/-- The completions not yet handled. -/
def all (c : Completions ι) : List (Cqe ι) := c.queue ++ c.polled.map Prod.snd

variable {c c' : Completions ι} {e e' : Cqe ι} {t : Thread} {k : Nat}

@[simp] theorem all_empty : (empty : Completions ι).all = [] := rfl

theorem all_push : (c.push e).all.Perm (e :: c.all) := by
  simp only [push, all, List.append_assoc, List.singleton_append]
  exact List.perm_middle

theorem all_poll : (c.poll t k).all.Perm c.all := by
  have h : ((c.queue.take k).map fun e => ((t, e) : Thread × Cqe ι)).map Prod.snd =
      c.queue.take k := by simp [Function.comp_def]
  simp only [poll, all, List.map_append, h]
  have hswap : (c.queue.drop k ++ (c.polled.map Prod.snd ++ c.queue.take k)).Perm
      (c.queue.drop k ++ c.queue.take k ++ c.polled.map Prod.snd) := by
    rw [List.append_assoc]
    exact List.perm_append_comm.append_left _
  have hcut : (c.queue.drop k ++ c.queue.take k).Perm c.queue := by
    have h : (c.queue.drop k ++ c.queue.take k).Perm (c.queue.take k ++ c.queue.drop k) :=
      List.perm_append_comm
    rwa [List.take_append_drop] at h
  exact hswap.trans (hcut.append_right _)

theorem all_next (h : c.next t = some (e, c')) : c.all.Perm (e :: c'.all) := by
  simp only [next, Option.map_eq_some_iff, Prod.mk.injEq, Prod.exists] at h
  obtain ⟨e', l, hp, rfl, rfl⟩ := h
  simp only [all]
  exact ((Keyed.pop_perm hp).map _ |>.append_left c.queue).trans List.perm_middle

theorem mem_all_push : e' ∈ (c.push e).all ↔ e' = e ∨ e' ∈ c.all := by
  rw [all_push.mem_iff, List.mem_cons]

theorem mem_all_poll : e ∈ (c.poll t k).all ↔ e ∈ c.all := all_poll.mem_iff

theorem mem_of_next (h : c.next t = some (e, c')) : e ∈ c.all :=
  (all_next h).mem_iff.mpr List.mem_cons_self

theorem mem_of_mem_next (h : c.next t = some (e, c')) (he : e' ∈ c'.all) : e' ∈ c.all :=
  (all_next h).mem_iff.mpr (List.mem_cons_of_mem _ he)

/-- A thread takes its next completion from its own array. -/
theorem queue_next (h : c.next t = some (e, c')) : c'.queue = c.queue := by
  obtain ⟨p, -, hp⟩ := Option.map_eq_some_iff.mp h
  cases hp
  rfl

end Completions

/-- The switch of `rdma_cq_poller` on one completion. -/
def rdmaCqPoller {ι σ : Type} (onRecvReq onRecvResp onWriteRespDone onSendReq : Wc ι → Outcome Fault σ)
    (unknown : Outcome Fault σ) (wc : Wc ι) : Outcome Fault σ :=
  match wc.opcode with
  | .recv => onRecvReq wc
  | .recvRdmaWithImm => onRecvResp wc
  | .rdmaWrite => onWriteRespDone wc
  | .send => onSendReq wc
  | .other _ => unknown

/-- The poller does not wait where no handler does. -/
theorem rdmaCqPoller_ne_blocked {ι σ : Type} {onRecvReq onRecvResp onWriteRespDone onSendReq : Wc ι →
    Outcome Fault σ} {unknown : Outcome Fault σ} {wc : Wc ι} (h₁ : onRecvReq wc ≠ .blocked)
    (h₂ : onRecvResp wc ≠ .blocked) (h₃ : onWriteRespDone wc ≠ .blocked)
    (h₄ : onSendReq wc ≠ .blocked) (h₅ : unknown ≠ .blocked) :
    rdmaCqPoller onRecvReq onRecvResp onWriteRespDone onSendReq unknown wc ≠ .blocked := by
  unfold rdmaCqPoller
  cases wc.opcode with
  | recv => exact h₁
  | recvRdmaWithImm => exact h₂
  | rdmaWrite => exact h₃
  | send => exact h₄
  | other code => exact h₅

end RdmaRpc
