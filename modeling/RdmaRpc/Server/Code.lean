import RdmaRpc.Frame
import Mathlib.Logic.Function.Basic

/-!
# Server — Code

The server half of `kv_rdma.c`: the start-up of the shared receive queue, the CM events of a
server connection, the two completion handlers and `kv_rdma_make_resp`, each as the source
computes it, on the state of a `struct kv_rdma` that listens together with what the NIC holds
for it (the shared receive queue, the queue pairs, the completions).

A connection record is named by its allocation: `conns c` is `none` once `c` is freed, and a
name is never used again.  Contexts are named by their index in `requests`.  `on_recv_req` is
cut where it drops the lock: what follows the unlock can find the record changed.  `on_disconnect`
is cut around `rdma_destroy_qp`, for the pollers run on meanwhile.
-/

namespace RdmaRpc
open Lib

/-- `struct rdma_connection` of a server connection -/
structure RdmaConnection where
  isServer : Bool
  qp : Option QpNum
  handler : Nat
  arg : Nat
deriving DecidableEq, Repr

/-- `struct server_req_ctx` -/
structure ServerReqCtx where
  conn : Option ConnId
  respRkey : BitVec 32
  mr : IbvMr
  header : ReqHeader
deriving DecidableEq, Repr

/-- A call of the request handler: `handler(req_h, req, req_sz, arg)`. -/
structure HandlerCall where
  handler : Nat
  reqH : Nat
  req : IbvMr
  reqSz : Nat
  arg : Nat
deriving DecidableEq, Repr

/-- A call the handler has not answered. -/
structure Held where
  call : HandlerCall
  origin : Origin
deriving DecidableEq, Repr

/-- A response write on a send queue. -/
structure Posted where
  wr : SendWr Nat
  origin : Origin
deriving DecidableEq, Repr

/-- A receive that a queue pair has taken for the message in progress on it, of which `placed` bytes
have been written.  It was the `nth` receive taken: this is history. -/
structure Taken where
  wrId : Nat
  sge : IbvSge
  placed : Nat
  nth : Nat
deriving DecidableEq, Repr

/-- The receive as it was posted. -/
def Taken.wr (t : Taken) : RecvWr Nat := ⟨t.wrId, some t.sge⟩

/-- The step `on_disconnect` takes next, for a connection it has begun to take down. -/
inductive Leaving where
  | destroyQp (c : ConnId)
  | free (c : ConnId)
deriving DecidableEq, Repr

/-- The connection. -/
def Leaving.conn : Leaving → ConnId
  | .destroyQp c | .free c => c

/-- The arguments of `kv_rdma_init` and `kv_rdma_listen`, and what `kv_dma_malloc` and
`ibv_reg_mr` return for the slots.  The two sizes are `uint32_t`. -/
structure ServerCfg where
  threadNum : Nat
  conReqNum : Nat
  conReqNum_lt : conReqNum < 2 ^ 32
  maxMsgSz : Nat
  maxMsgSz_lt : maxMsgSz < 2 ^ 32
  handler : Nat
  arg : Nat
  buf : Nat
  lkey : BitVec 32
  rkey : BitVec 32
deriving DecidableEq, Repr

/-- One context, for messages of four bytes. -/
def oneContext : ServerCfg := ⟨1, 1, by decide, 4, by decide, 0, 0, 4096, 0, 0⟩

/-- Two contexts, for messages of four bytes. -/
def Server.twoContexts : ServerCfg := ⟨1, 2, by decide, 4, by decide, 0, 0, 4096, 0, 0⟩

/-- Six contexts, for messages of four bytes, and two poller threads. -/
def Server.sixContexts : ServerCfg := ⟨2, 6, by decide, 4, by decide, 0, 0, 4096, 0, 0⟩

/-- One context, with a slot of 4 GiB. -/
def Server.hugeSlot : ServerCfg := ⟨1, 1, by decide, 2 ^ 32 - 12, by decide, 0, 0, 4096, 0, 0⟩

/-- As many contexts as the shared receive queue holds, with slots of 1 MiB. -/
def Server.manySlots : ServerCfg := ⟨1, 4096, by decide, 2 ^ 20 - 12, by decide, 0, 0, 4096, 0, 0⟩

/-- `struct kv_rdma` of a listening handle, its connection records, and the NIC.

* `requests` is the array, `hasRequests` says that the pointer is not `NULL`;
* `leaving` is where the CM thread stands in `on_disconnect`, if it does;
* `taken` are the receives taken for messages in progress, by queue pair, and `takes` counts those
  taken so far, which is history;
* `sends` are the response writes the NIC has still to execute, `landed` those it has executed
  and not completed, by queue pair, oldest first;
* `looked` are the completions whose connection a poller thread has looked up and whose handler
  it has still to call;
* `held` are the calls of the handler it has not answered, by context. -/
structure Server where
  cfg : ServerCfg
  mrs : MrBulk
  requests : Nat → ServerReqCtx
  hasRequests : Bool
  connections : List (QpNum × ConnId)
  conns : ConnId → Option RdmaConnection
  nextConn : ConnId
  leaving : Option Leaving
  srq : List (RecvWr Nat)
  taken : List (QpNum × Taken)
  takes : Nat
  qps : List QpNum
  sends : List (QpNum × Posted)
  landed : List (QpNum × Posted)
  cq : Completions Nat
  looked : List (Thread × Cqe Nat)
  held : List (Nat × Held)
  mem : Mem

namespace Server

/-- A zeroed region. -/
def nullMr : IbvMr := ⟨0, 0, 0, 0⟩

/-- The handle after `kv_rdma_init` and `kv_rdma_listen`. -/
def init (cfg : ServerCfg) (mem : Mem) : Server where
  cfg
  mrs := ⟨nullMr, 0, []⟩
  requests := fun _ => ⟨none, 0, nullMr, ⟨0, 0⟩⟩
  hasRequests := false
  connections := []
  conns := fun _ => none
  nextConn := 0
  leaving := none
  srq := []
  taken := []
  takes := 0
  qps := []
  sends := []
  landed := []
  cq := .empty
  looked := []
  held := []
  mem

/-- The slots `server_data_init` allocates. -/
def slots (cfg : ServerCfg) : MrBulk :=
  kvRdmaAllocBulk cfg.buf cfg.lkey cfg.rkey .server cfg.maxMsgSz cfg.conReqNum

/-- The receive `server_data_init` posts for context `i`: the scatter entry is built once, for
the whole bulk region, and only its address is set in the loop. -/
def startupWr (cfg : ServerCfg) (i : Nat) : RecvWr Nat :=
  let mrs := slots cfg
  ⟨i, some ⟨(kvRdmaMrsGet mrs i).addr, u32 mrs.mr.length, mrs.mr.lkey⟩⟩

def serverDataInit (s : Server) : Server :=
  let mrs := slots s.cfg
  { s with
    mrs
    hasRequests := true
    requests := fun i => { conn := none, respRkey := 0, mr := kvRdmaMrsGet mrs i, header := ⟨0, 0⟩ }
    srq := (List.range s.cfg.conReqNum).map (startupWr s.cfg) }

/-- `create_connetion` for the server connection `c`, whose queue pair gets the number `q` -/
def createConnetion (s : Server) (c : ConnId) (q : QpNum) : Server :=
  let s := if s.hasRequests then s else serverDataInit s
  { s with
    qps := q :: s.qps
    conns := Function.update s.conns c ((s.conns c).map fun conn => { conn with qp := some q }) }

def onConnectRequest (s : Server) (q : QpNum) : Server :=
  let c := s.nextConn
  let conn : RdmaConnection := ⟨true, none, s.cfg.handler, s.cfg.arg⟩
  let s := { s with nextConn := c + 1, conns := Function.update s.conns c (some conn) }
  let s := createConnetion s c q
  { s with connections := (q, c) :: s.connections }

def onEstablished (s : Server) (c : ConnId) : Outcome Fault Server := do
  let _ ← Outcome.deref .freedConn (s.conns c)
  return s

/-- `rdma_destroy_qp`: the queue pair's work is discarded, the receive of a message in progress
with it, and with `drop` its completions not yet polled. -/
def rdmaDestroyQp (s : Server) (q : QpNum) (drop : Bool) : Server :=
  { s with
    qps := s.qps.filter (· ≠ q)
    taken := s.taken.filter (·.1 ≠ q)
    sends := s.sends.filter (·.1 ≠ q)
    landed := s.landed.filter (·.1 ≠ q)
    cq := { s.cq with queue := s.cq.queue.filter fun e => ¬ (drop ∧ e.wc.qpNum = q) } }

/-- `on_disconnect`, before `rdma_destroy_qp`: the branch of a server connection, to the unlock.
The other branch, for a client connection, is in `Client.onDisconnectData`. -/
def onDisconnectData (s : Server) (c : ConnId) : Outcome Fault Server := do
  let conn ← Outcome.deref .freedConn (s.conns c)
  return if conn.isServer then { s with connections := s.connections.filter (·.2 ≠ c) } else s

/-- `on_disconnect`, `rdma_destroy_qp` -/
def onDisconnectQp (s : Server) (c : ConnId) (drop : Bool) : Outcome Fault Server := do
  let conn ← Outcome.deref .freedConn (s.conns c)
  let q ← Outcome.deref .destroyedQp conn.qp
  return rdmaDestroyQp s q drop

/-- `on_disconnect`, from `rdma_destroy_id` -/
def onDisconnectConn (s : Server) (c : ConnId) : Outcome Fault Server := do
  let _ ← Outcome.deref .freedConn (s.conns c)
  return { s with conns := Function.update s.conns c none }

def onDisconnect (s : Server) (c : ConnId) (drop : Bool) : Outcome Fault Server := do
  let s ← onDisconnectData s c
  let s ← onDisconnectQp s c drop
  onDisconnectConn s c

/-- `kv_rdma_make_resp`: the queue pair it posts on, and the work request -/
def kvRdmaMakeResp (s : Server) (reqH : Nat) (resp respSz : Nat) :
    Outcome Fault (QpNum × SendWr Nat) := do
  let ctx := s.requests reqH
  let c ← Outcome.deref .nullConn ctx.conn
  let conn ← Outcome.deref .freedConn (s.conns c)
  let q ← Outcome.deref .destroyedQp conn.qp
  Outcome.check (q ∈ s.qps) .destroyedQp
  return (q, ⟨reqH, .rdmaWriteWithImm, ctx.header.reqId, ⟨resp, u32 respSz, ctx.mr.lkey⟩,
    ctx.header.respAddr, ctx.respRkey⟩)

/-- The receive `on_write_resp_done` posts for a context, from the context's own slot. -/
def repostWr (i : Nat) (mr : IbvMr) : RecvWr Nat := ⟨i, some ⟨mr.addr, u32 mr.length, mr.lkey⟩⟩

def onWriteRespDone (s : Server) (wc : Wc Nat) : Outcome Fault Server := do
  let ctx := s.requests wc.wrId
  let c ← Outcome.deref .nullConn ctx.conn
  let conn ← Outcome.deref .freedConn (s.conns c)
  Outcome.check conn.isServer .assertIsServer
  return { s with srq := s.srq ++ [repostWr wc.wrId ctx.mr] }

/-- `on_recv_req`, to the unlock: `HASH_FIND` writes what it finds into `ctx->conn`. -/
def onRecvReqFind (s : Server) (wc : Wc Nat) : Outcome Fault Server := do
  Outcome.check (headerSize < wc.byteLen) .assertByteLen
  Outcome.check wc.withImm .assertImm
  let ctx := s.requests wc.wrId
  return { s with
    requests := Function.update s.requests wc.wrId
      { ctx with conn := s.connections.lookup wc.qpNum } }

/-- `on_recv_req`, from the unlock, with the call of the handler it makes -/
def onRecvReqCall (s : Server) (wc : Wc Nat) : Outcome Fault (Server × HandlerCall) := do
  let ctx := s.requests wc.wrId
  let c ← Outcome.deref .assertConn ctx.conn
  let conn ← Outcome.deref .freedConn (s.conns c)
  Outcome.check conn.isServer .assertIsServer
  let ctx := { ctx with
    respRkey := wc.immData
    header := .ofBytes (s.mem.read ctx.mr.addr headerSize) }
  return ({ s with requests := Function.update s.requests wc.wrId ctx },
    ⟨conn.handler, wc.wrId, ctx.mr, u32 (wc.byteLen - headerSize), conn.arg⟩)

/-- `on_recv_req` on thread `t`, to the unlock of a good completion -/
def onRecvReq (s : Server) (t : Thread) (e : Cqe Nat) (wc : Wc Nat) : Outcome Fault Server :=
  if wc.status ≠ .success then
    onWriteRespDone s { wc with status := .success }
  else do
    let s ← onRecvReqFind s wc
    return { s with looked := s.looked ++ [(t, e)] }

/-- `rdma_cq_poller` on one completion of a server.  `on_recv_resp` would read the context as a
connection; `on_send_req` and the default only print. -/
def onCompletion (s : Server) (t : Thread) (e : Cqe Nat) : Outcome Fault Server :=
  rdmaCqPoller (onRecvReq s t e) (fun _ => .fault .wrIdType) (onWriteRespDone s) (fun _ => .ok s)
    (.ok s) e.wc

end Server

end RdmaRpc
