import RdmaRpc.Mempool
import RdmaRpc.Frame
import Mathlib.Logic.Function.Basic

/-!
# Client — Code

The client half of `kv_rdma.c`: `kv_rdma_send_req`, the two completion handlers and the client
branch of `on_disconnect`, on the state of one client connection together with what the NIC
holds for its queue pair.  `on_recv_resp` is cut behind the call of the callback, and `on_disconnect`
behind `kv_mempool_free` and behind `rdma_destroy_qp`: other threads run there.

Request contexts are named by the addresses of their pool elements.  The calls of
`kv_rdma_send_req` are numbered, and a callback is recorded with the number of the call it
answers (`calls`, `owner`, `called`, `delivered`); these four are history.
-/

namespace RdmaRpc
open Lib

/-- `wr_id` of a client's work requests: the connection for a receive, the context for a send. -/
inductive ClientWrId where
  | conn (c : ConnId)
  | ctx (ele : Nat)
deriving DecidableEq, Repr

/-- `struct client_req_ctx`; the callback is `none` when the pointer is `NULL`. -/
structure ClientReqCtx where
  conn : ConnId
  cb : Option Nat
  cbArg : Nat
  req : IbvMr
  resp : IbvMr
deriving DecidableEq, Repr

/-- The arguments of `kv_rdma_send_req`; `respAddr` is `none` when the pointer is `NULL`. -/
structure SendReq where
  req : IbvMr
  reqSz : BitVec 32
  resp : IbvMr
  respAddr : Option Nat
  cb : Option Nat
  cbArg : Nat
deriving DecidableEq, Repr

/-- The address the response is to be written to. -/
def SendReq.target (a : SendReq) : Nat := a.respAddr.getD a.resp.addr

/-- A call of `kv_rdma_send_req`, with the element it took; it was accepted if both posts were. -/
structure Call where
  args : SendReq
  ele : Nat
  accepted : Bool
deriving DecidableEq, Repr

/-- A call of a callback, and the call of `kv_rdma_send_req` it answers. -/
structure Callback where
  cb : Nat
  conn : ConnId
  success : Bool
  req : IbvMr
  resp : IbvMr
  cbArg : Nat
  call : Nat
deriving DecidableEq, Repr

/-- A request on the send queue; its `wr_id` is the address of the context. -/
structure Sent where
  wr : SendWr Nat
  call : Nat
deriving DecidableEq, Repr

/-- How far `on_disconnect` has come. -/
inductive Stage where
  | up
  /-- behind `kv_mempool_free` -/
  | poolFreed
  /-- behind `rdma_destroy_qp` -/
  | qpDestroyed
  /-- behind `kv_free` -/
  | freed
deriving DecidableEq, Repr

/-- `struct rdma_connection` of a client connection, its pool, and its queue pair.

* `stage` says which of the record, the pool and the queue pair are still there;
* `recvs` counts the posted receives, which are all alike;
* `sends` are the requests the NIC has still to send, `sent` those it has sent and not completed,
  oldest first;
* `returning` are the elements whose callback a poller thread has called and which it has still
  to put back;
* `badFrees` are the elements passed to `kv_free`. -/
structure Client where
  conn : ConnId
  qp : QpNum
  stage : Stage
  mp : KvMempool
  ctxs : Nat → Option ClientReqCtx
  recvs : Nat
  sends : List Sent
  sent : List Sent
  cq : Completions ClientWrId
  returning : List (Thread × Nat)
  badFrees : List Nat
  calls : List Call
  owner : Nat → Nat
  called : List Callback
  delivered : List Nat

namespace Client

/-- `sizeof(struct client_req_ctx)` -/
def ctxSize : Nat := 40

/-- The number of elements `kv_rdma_connect` asks for. -/
def poolCount : Nat := 8191

/-- The connection after `kv_rdma_connect` and `create_connetion`, with its pool at `buf` -/
def init (conn : ConnId) (qp : QpNum) (buf : Nat) : Client where
  conn
  qp
  stage := .up
  mp := kvMempoolCreate buf poolCount ctxSize
  ctxs := fun _ => none
  recvs := 0
  sends := []
  sent := []
  cq := .empty
  returning := []
  badFrees := []
  calls := []
  owner := fun _ => 0
  called := []
  delivered := []

/-- The header `kv_rdma_send_req` writes for the element `ele`. -/
def header (mp : KvMempool) (a : SendReq) (ele : Nat) : ReqHeader :=
  ⟨BitVec.ofNat 64 a.target, BitVec.ofInt 32 (kvMempoolGetId mp ele)⟩

/-- The label `fail`: the callback is called, and the element passed to `kv_free`.  It is nothing
`kv_malloc` returned; the model goes on without it. -/
def sendReqFail (c : Client) (a : SendReq) (ele : Nat) : Client :=
  let called := match a.cb with
    | some cb => [⟨cb, c.conn, false, a.req, a.resp, a.cbArg, c.calls.length⟩]
    | none => []
  { c with
    called := c.called ++ called
    badFrees := c.badFrees ++ [ele]
    calls := c.calls ++ [⟨a, ele, false⟩] }

/-- The send work request of `kv_rdma_send_req` -/
def sendWr (a : SendReq) (ele : Nat) : SendWr Nat :=
  ⟨ele, .sendWithImm, a.resp.rkey, ⟨a.req.addr, u32 (a.reqSz.toNat + headerSize), a.req.lkey⟩, 0, 0⟩

/-- `kv_rdma_send_req`, where `kv_mempool_get` takes the element `pick`, `ibv_post_recv` refuses
if `refuseRecv`, and `ibv_post_send` if `refuseSend` -/
def kvRdmaSendReq (c : Client) (mem : Mem) (a : SendReq) (pick : Nat)
    (refuseRecv refuseSend : Bool) : Outcome Fault (Client × Mem) := do
  Outcome.check (c.stage ≠ .freed) .freedConn
  Outcome.check (c.stage = .up) .freedPool
  let (ele, mp) ← Outcome.deref .nullElement (kvMempoolGet c.mp pick)
  let c := { c with
    mp
    ctxs := Function.update c.ctxs ele (some ⟨c.conn, a.cb, a.cbArg, a.req, a.resp⟩)
    owner := Function.update c.owner ele c.calls.length }
  Outcome.check (a.reqSz.toNat ≤ a.req.length) .assertReqSz
  let mem := mem.write a.req.addr (header mp a ele).bytes
  if refuseRecv then
    return (sendReqFail c a ele, mem)
  let c := { c with recvs := c.recvs + 1 }
  if refuseSend then
    return (sendReqFail c a ele, mem)
  return ({ c with
    sends := c.sends ++ [⟨sendWr a ele, c.calls.length⟩]
    calls := c.calls ++ [⟨a, ele, true⟩] }, mem)

/-- `on_recv_resp` on thread `t`, with the call of the callback -/
def onRecvResp (c : Client) (t : Thread) (wc : Wc ClientWrId) : Outcome Fault Client :=
  match wc.wrId with
  | .ctx _ => .fault .wrIdType
  | .conn _ => do
    Outcome.check (c.stage ≠ .freed) .freedConn
    Outcome.check wc.withImm .assertImm
    Outcome.check (c.stage = .up) .freedPool
    let ele := kvMempoolGetEle c.mp wc.immData.toInt
    let ctx ← Outcome.deref .wildContext (c.ctxs ele)
    let cb ← Outcome.deref .nullCallback ctx.cb
    return { c with
      called := c.called ++ [⟨cb, ctx.conn, wc.status = .success, ctx.req, ctx.resp, ctx.cbArg,
        c.owner ele⟩]
      returning := c.returning ++ [(t, ele)] }

/-- `on_recv_resp`, behind the call of the callback -/
def onRecvRespPut (c : Client) (ele : Nat) : Outcome Fault Client := do
  Outcome.check (c.stage ≠ .freed) .freedConn
  Outcome.check (c.stage = .up) .freedPool
  return { c with mp := kvMempoolPut c.mp ele }

/-- `rdma_cq_poller` on one completion of a client.  The server's handlers would read `wr_id` as
one of the server's contexts; `on_send_req` and the default only print. -/
def onCompletion (c : Client) (t : Thread) (wc : Wc ClientWrId) : Outcome Fault Client :=
  rdmaCqPoller (fun _ => .fault .wrIdType) (onRecvResp c t) (fun _ => .fault .wrIdType)
    (fun _ => .ok c) (.ok c) wc

/-- `on_disconnect`, before `rdma_destroy_qp`: the branch of a client connection.  The other branch,
for a server connection, is in `Server.onDisconnectData`. -/
def onDisconnectData (c : Client) : Outcome Fault Client := do
  Outcome.check (c.stage ≠ .freed) .freedConn
  return { c with stage := .poolFreed }

/-- `on_disconnect`, `rdma_destroy_qp`: the work of the queue pair goes, and with `drop` its
completions not yet polled. -/
def onDisconnectQp (c : Client) (drop : Bool) : Client :=
  { c with
    stage := .qpDestroyed
    recvs := 0
    sends := []
    sent := []
    cq := if drop then { c.cq with queue := [] } else c.cq }

/-- `on_disconnect`, from `rdma_destroy_id`; the callback `disconnect` is the caller's. -/
def onDisconnectConn (c : Client) : Outcome Fault Client := do
  Outcome.check (c.stage ≠ .freed) .freedConn
  return { c with stage := .freed }

def onDisconnect (c : Client) (drop : Bool) : Outcome Fault Client := do
  let c ← onDisconnectData c
  onDisconnectConn (onDisconnectQp c drop)

end Client

end RdmaRpc
