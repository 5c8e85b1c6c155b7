import RdmaRpc.Lib.Uthash
import RdmaRpc.Verbs
import Mathlib.Logic.Function.Basic

/-!
# Cm — Code

The connections of one handle, in both roles: `kv_rdma_connect`, `kv_rdma_listen`,
`kv_rdma_disconnect`, `kv_rdma_conn_num`, and `rdma_cm_poller` with the functions of its switch, each
as the source computes it on the records, the cm_ids, the queue pairs, the pools and the table.
`on_connect_request` and `on_disconnect` are put together from their steps, which
`Cm.Table` takes one by one.

A connection has one record, one cm_id, and on a client one pool; the three get the number of the
connection as their name, and a name is never used again.  A queue pair is named by its cm_id, so
that the pointer `cm_id->qp`, and the pointer to the key `qp->qp_num` of a table element, are the
cm_id.

What the rest of `create_connetion` does is elsewhere: the pollers in `Teardown.Machine`, the shared
receive queue in `Server.Code`.  A failure that ends the process through `TEST_NZ` is left out.
-/

namespace RdmaRpc
open Lib

abbrev CmId := Nat

/-- `enum rdma_cm_event_type` -/
inductive RdmaCmEventType where
  | addrResolved
  | addrError
  | routeResolved
  | routeError
  | connectRequest
  | connectError
  | unreachable
  | rejected
  | established
  | disconnected
  | other (code : Nat)
deriving DecidableEq, Repr

namespace Cm

/-- The callbacks of `kv_rdma_connect`; a callback is `none` when the pointer is `NULL`. -/
structure ConnectArgs where
  connect : Option Nat
  connectArg : Nat
  disconnect : Option Nat
  disconnectArg : Nat
deriving DecidableEq, Repr

/-- The union of `struct rdma_connection`, with the flag `is_server` that says which member it
holds. -/
inductive Role where
  | server (handler arg : Nat)
  | client (args : ConnectArgs) (mp : Nat)
deriving DecidableEq, Repr

/-- `struct rdma_connection` -/
structure RdmaConnection where
  cmId : CmId
  qp : Option CmId
  role : Role
deriving DecidableEq, Repr

/-- How a connection came to be. -/
inductive Started where
  | listener
  | client (args : ConnectArgs)
  | accepted
deriving DecidableEq, Repr

/-- What has become of a cm_id: what was asked of the connection manager, and what it answered. -/
inductive Stage where
  | listening
  | resolvingAddr
  | addrResolved
  | resolvingRoute
  | routeResolved
  | connecting
  | requested
  | accepted
  | established
  | failed (event : RdmaCmEventType)
  | disconnected
deriving DecidableEq, Repr

/-- What a connection can hold. -/
inductive Kind where
  | record
  | cmId
  | qp
  | pool
  | entry
deriving DecidableEq, Repr

/-- A call of the callback `connect`, and the connection whose attempt it reports. -/
structure ConnectCall where
  attempt : ConnId
  cb : Nat
  h : Option ConnId
  arg : Nat
deriving DecidableEq, Repr

/-- A call of the callback `disconnect`. -/
structure DisconnectCall where
  conn : ConnId
  cb : Nat
  arg : Nat
deriving DecidableEq, Repr

/-- What must not happen. -/
inductive Misuse where
  /-- a use of a record, a cm_id, a queue pair or a pool that is not there -/
  | gone (kind : Kind)
  /-- a read of the member of the union that was not written -/
  | wrongMember
deriving DecidableEq, Repr

end Cm

/-- `struct kv_rdma`, as far as the connections go, with what librdmacm and the NIC hold for it.

* `connections` is the table `T`, whose elements point to the numbers of queue pairs;
* `ids` are the cm_ids, each with its `context`;
* `next` is the next connection;
* `stage` is the connection manager's own state of a cm_id.

The other fields are history: how each connection came to be, the callbacks, what was released, and
the connections `kv_rdma_disconnect` was called on. -/
structure Cm (T : Uthash QpNum CmId ConnId) where
  conns : ConnId → Option Cm.RdmaConnection
  ids : CmId → Option ConnId
  qps : CmId → Option QpNum
  pools : Nat → Bool
  connections : T.Table
  next : Nat
  stage : CmId → Cm.Stage
  started : ConnId → Option Cm.Started
  connects : List Cm.ConnectCall
  disconnects : List Cm.DisconnectCall
  released : List (Cm.Kind × ConnId)
  asked : List ConnId

namespace Cm

variable {T : Uthash QpNum CmId ConnId}

/-- The handle after `kv_rdma_init` -/
def init : Cm T where
  conns := fun _ => none
  ids := fun _ => none
  qps := fun _ => none
  pools := fun _ => false
  connections := T.empty
  next := 0
  stage := fun _ => .listening
  started := fun _ => none
  connects := []
  disconnects := []
  released := []
  asked := []

/-! ### librdmacm, the NIC and uthash -/

def setStage (s : Cm T) (id : CmId) (g : Stage) : Cm T := { s with stage := Function.update s.stage id g }

/-- `rdma_resolve_route` -/
def rdmaResolveRoute (s : Cm T) (id : CmId) : Cm T := s.setStage id .resolvingRoute

/-- `rdma_connect` -/
def rdmaConnect (s : Cm T) (id : CmId) : Cm T := s.setStage id .connecting

/-- `rdma_accept` -/
def rdmaAccept (s : Cm T) (id : CmId) : Cm T := s.setStage id .accepted

/-- `rdma_create_qp`: the new queue pair gets the number `q`. -/
def rdmaCreateQp (s : Cm T) (id : CmId) (q : QpNum) : Cm T :=
  { s with qps := Function.update s.qps id (some q) }

def rdmaDestroyQp (s : Cm T) (id : CmId) : Outcome Misuse (Cm T) := do
  let _ ← Outcome.deref (.gone .qp) (s.qps id)
  return { s with qps := Function.update s.qps id none, released := s.released ++ [(.qp, id)] }

def rdmaDestroyId (s : Cm T) (id : CmId) : Outcome Misuse (Cm T) := do
  let _ ← Outcome.deref (.gone .cmId) (s.ids id)
  return { s with ids := Function.update s.ids id none, released := s.released ++ [(.cmId, id)] }

/-- `HASH_ADD(u.s.hh, self->connections, qp->qp_num, sizeof(uint32_t), conn)` -/
def hashAdd (s : Cm T) (c : ConnId) : Outcome Misuse (Cm T) := do
  let conn ← Outcome.deref (.gone .record) (s.conns c)
  let qp ← Outcome.deref (.gone .qp) conn.qp
  let q ← Outcome.deref (.gone .qp) (s.qps qp)
  return { s with connections := T.add q qp c s.connections }

/-- `HASH_FIND(u.s.hh, self->connections, &qp_num, sizeof(uint32_t), conn)` -/
def hashFind (s : Cm T) (q : QpNum) : Outcome Misuse (Option ConnId) :=
  T.find (fun qp => Outcome.deref (.gone .qp) (s.qps qp)) q s.connections

/-- `HASH_DELETE(u.s.hh, self->connections, conn)` -/
def hashDelete (s : Cm T) (c : ConnId) : Outcome Misuse (Cm T) := do
  Outcome.check (c ∈ T.items s.connections) (.gone .entry)
  return { s with
    connections := T.delete c s.connections
    released := s.released ++ [(.entry, c)] }

def kvMempoolFree (s : Cm T) (mp : Nat) : Outcome Misuse (Cm T) := do
  Outcome.check (s.pools mp) (.gone .pool)
  return { s with pools := Function.update s.pools mp false, released := s.released ++ [(.pool, mp)] }

/-- `kv_free(conn)` -/
def freeConn (s : Cm T) (c : ConnId) : Cm T :=
  { s with conns := Function.update s.conns c none, released := s.released ++ [(.record, c)] }

/-- The record that `cm_id->context` points to -/
def contextOf (s : Cm T) (id : CmId) : Outcome Misuse (ConnId × RdmaConnection) := do
  let c ← Outcome.deref (.gone .cmId) (s.ids id)
  let conn ← Outcome.deref (.gone .record) (s.conns c)
  return (c, conn)

/-! ### The functions of the switch -/

/-- `create_connetion`, to the queue pair -/
def createConnetion (s : Cm T) (id : CmId) (q : QpNum) : Outcome Misuse (Cm T) := do
  let (c, conn) ← contextOf s id
  let s := rdmaCreateQp s id q
  return { s with conns := Function.update s.conns c (some { conn with qp := some id }) }

def onAddrResolved (s : Cm T) (id : CmId) (q : QpNum) : Outcome Misuse (Cm T) := do
  let s ← createConnetion s id q
  return rdmaResolveRoute s id

def onRouteResolved (s : Cm T) (id : CmId) : Outcome Misuse (Cm T) := return rdmaConnect s id

/-- `on_connect_request`, to `cm_id->context = conn` -/
def onConnectRequestConn (s : Cm T) (id : CmId) : Outcome Misuse (Cm T) := do
  let (_, lconn) ← contextOf s id
  match lconn.role with
  | .client .. => .fault .wrongMember
  | .server handler arg => return { s with
      conns := Function.update s.conns id (some ⟨id, none, .server handler arg⟩)
      ids := Function.update s.ids id (some id) }

def onConnectRequest (s : Cm T) (id : CmId) (q : QpNum) : Outcome Misuse (Cm T) := do
  let s ← onConnectRequestConn s id
  let s ← createConnetion s id q
  let s ← hashAdd s id
  return rdmaAccept s id

def onConnectError (s : Cm T) (id : CmId) : Outcome Misuse (Cm T) := do
  let (c, conn) ← contextOf s id
  match conn.role with
  | .server .. => return s
  | .client args _ =>
    let call := args.connect.map fun cb => ⟨id, cb, none, args.connectArg⟩
    return freeConn { s with connects := s.connects ++ call.toList } c

def onEstablished (s : Cm T) (id : CmId) : Outcome Misuse (Cm T) := do
  let (c, conn) ← contextOf s id
  match conn.role with
  | .server .. => return s
  | .client args _ =>
    let call := args.connect.map fun cb => ⟨id, cb, some c, args.connectArg⟩
    return { s with connects := s.connects ++ call.toList }

/-- `on_disconnect`, to `rdma_destroy_qp` -/
def onDisconnectData (s : Cm T) (id : CmId) : Outcome Misuse (Cm T) := do
  let (c, conn) ← contextOf s id
  match conn.role with
  | .server .. => hashDelete s c
  | .client _ mp => kvMempoolFree s mp

/-- `on_disconnect`, from `rdma_destroy_id`, for the record `c` -/
def onDisconnectConn (s : Cm T) (c : ConnId) : Outcome Misuse (Cm T) := do
  let conn ← Outcome.deref (.gone .record) (s.conns c)
  match conn.role with
  | .server .. => return freeConn s c
  | .client args _ =>
    let call := args.disconnect.map fun cb => ⟨c, cb, args.disconnectArg⟩
    return freeConn { s with disconnects := s.disconnects ++ call.toList } c

def onDisconnect (s : Cm T) (id : CmId) : Outcome Misuse (Cm T) := do
  let (c, _) ← contextOf s id
  let s ← onDisconnectData s id
  let s ← rdmaDestroyQp s id
  let s ← rdmaDestroyId s id
  onDisconnectConn s c

/-- The switch of `rdma_cm_poller` on one event; a queue pair it creates gets the number `q`. -/
def rdmaCmPoller (s : Cm T) (id : CmId) (event : RdmaCmEventType) (q : QpNum) : Outcome Misuse (Cm T) :=
  match event with
  | .addrResolved => onAddrResolved s id q
  | .routeResolved => onRouteResolved s id
  | .unreachable | .rejected => onConnectError s id
  | .connectRequest => onConnectRequest s id q
  | .established => onEstablished s id
  | .disconnected => onDisconnect s id
  | .addrError | .routeError | .connectError | .other _ => return s

/-! ### The functions of the interface -/

/-- `kv_rdma_connect` -/
def kvRdmaConnect (s : Cm T) (args : ConnectArgs) : Cm T :=
  let c := s.next
  { s with
    next := c + 1
    pools := Function.update s.pools c true
    conns := Function.update s.conns c (some ⟨c, none, .client args c⟩)
    ids := Function.update s.ids c (some c)
    stage := Function.update s.stage c .resolvingAddr
    started := Function.update s.started c (some (.client args)) }

/-- `kv_rdma_listen` -/
def kvRdmaListen (s : Cm T) (handler arg : Nat) : Cm T :=
  let c := s.next
  { s with
    next := c + 1
    conns := Function.update s.conns c (some ⟨c, none, .server handler arg⟩)
    ids := Function.update s.ids c (some c)
    stage := Function.update s.stage c .listening
    started := Function.update s.started c (some .listener) }

/-- `kv_rdma_disconnect`: what it asks of librdmacm comes back as an event. -/
def kvRdmaDisconnect (s : Cm T) (c : ConnId) : Outcome Misuse (Cm T) := do
  let conn ← Outcome.deref (.gone .record) (s.conns c)
  let _ ← Outcome.deref (.gone .cmId) (s.ids conn.cmId)
  return { s with asked := s.asked ++ [c] }

/-- `kv_rdma_conn_num` -/
def kvRdmaConnNum (s : Cm T) : Nat := u32 (T.count s.connections)

end Cm

end RdmaRpc
