import RdmaRpc.Cm.Code

/-!
# Cm — Machine

The calls of the application and the events of the connection manager, for any number of connections
of one handle.  `Stage.after` says which events librdmacm can deliver for a cm_id, and what it makes
of the cm_id; a queue pair gets a number no other has (`Fresh`).

Where the cm_ids stand after an event does not depend on the records: the handlers leave librdmacm
alone (`core`), up to what the switch asks of it (`asks`).
-/

namespace RdmaRpc
open Lib

namespace Cm

variable {T : Uthash QpNum CmId ConnId}

inductive Event where
  /-- `kv_rdma_connect` -/
  | connect (args : ConnectArgs)
  /-- `kv_rdma_listen` -/
  | listen (handler arg : Nat)
  /-- `kv_rdma_disconnect` -/
  | disconnect (c : ConnId)
  /-- `rdma_cm_poller` takes `RDMA_CM_EVENT_CONNECT_REQUEST` for the listener `l`; the queue pair it
  creates gets the number `q` -/
  | connectRequest (l : CmId) (q : QpNum)
  /-- `rdma_cm_poller` takes another event -/
  | event (id : CmId) (event : RdmaCmEventType) (q : QpNum)

/-- The event librdmacm may deliver for a cm_id, and where the cm_id stands then. -/
def Stage.after : Stage → RdmaCmEventType → Option Stage
  | .resolvingAddr, .addrResolved => some .addrResolved
  | .resolvingAddr, .addrError => some (.failed .addrError)
  | .resolvingRoute, .routeResolved => some .routeResolved
  | .resolvingRoute, .routeError => some (.failed .routeError)
  | .connecting, .established | .accepted, .established => some .established
  | .connecting, .rejected | .accepted, .rejected => some (.failed .rejected)
  | .connecting, .unreachable | .accepted, .unreachable => some (.failed .unreachable)
  | .connecting, .connectError | .accepted, .connectError => some (.failed .connectError)
  | .accepted, .disconnected | .established, .disconnected => some .disconnected
  | g, .other _ => some g
  | _, _ => none

/-- The number `q`, of 24 bits, is that of no queue pair. -/
def Fresh (s : Cm T) (q : QpNum) : Prop := q < 2 ^ 24 ∧ ∀ id < s.next, s.qps id ≠ some q

instance (s : Cm T) (q : QpNum) : Decidable (s.Fresh q) := inferInstanceAs (Decidable (_ ∧ _))

/-- The cm_id librdmacm makes for a connection request: its context is that of the listener. -/
def request (s : Cm T) (l : CmId) : Cm T :=
  { s with
    next := s.next + 1
    ids := Function.update s.ids s.next (s.ids l)
    stage := Function.update s.stage s.next .requested
    started := Function.update s.started s.next (some .accepted) }

def step (s : Cm T) : Event → Outcome Misuse (Cm T)
  | .connect args => return kvRdmaConnect s args
  | .listen handler arg => return kvRdmaListen s handler arg
  | .disconnect c => kvRdmaDisconnect s c
  | .connectRequest l q => do
    Outcome.require (s.started l = some .listener ∧ s.Fresh q)
    rdmaCmPoller (request s l) s.next .connectRequest q
  | .event id event q => do
    Outcome.require ((s.started id).isSome ∧ (event = .addrResolved → s.Fresh q))
    let g ← Outcome.choose ((s.stage id).after event)
    rdmaCmPoller (s.setStage id g) id event q

/-! ### What the functions do to a connection that is there -/

section
variable {s : Cm T} {k : ConnId} {q : QpNum} {qp : Option CmId} {args : ConnectArgs} {mp handler arg : Nat}

theorem createConnetion_eq {role : Role} (hid : s.ids k = some k)
    (hc : s.conns k = some ⟨k, qp, role⟩) :
    createConnetion s k q = .ok { s with
      qps := Function.update s.qps k (some q)
      conns := Function.update s.conns k (some ⟨k, some k, role⟩) } := by
  simp [createConnetion, contextOf, hid, hc, Outcome.deref, rdmaCreateQp]

/-- A connection is accepted. -/
theorem onConnectRequest_eq {l : ConnId} {lconn : RdmaConnection} (hid : s.ids k = some l)
    (hl : s.conns l = some lconn) (hrole : lconn.role = .server handler arg) :
    onConnectRequest s k q = .ok { s with
      conns := Function.update s.conns k (some ⟨k, some k, .server handler arg⟩)
      ids := Function.update s.ids k (some k)
      qps := Function.update s.qps k (some q)
      connections := T.add q k k s.connections
      stage := Function.update s.stage k .accepted } := by
  simp [onConnectRequest, onConnectRequestConn, createConnetion, contextOf, hid, hl, hrole,
    Outcome.deref, rdmaCreateQp, hashAdd, rdmaAccept, setStage]

theorem onConnectError_server (hid : s.ids k = some k)
    (hc : s.conns k = some ⟨k, qp, .server handler arg⟩) : onConnectError s k = .ok s := by
  simp [onConnectError, contextOf, hid, hc, Outcome.deref]

theorem onConnectError_client (hid : s.ids k = some k)
    (hc : s.conns k = some ⟨k, qp, .client args mp⟩) :
    onConnectError s k = .ok { s with
      connects := s.connects ++ (args.connect.map fun cb => ⟨k, cb, none, args.connectArg⟩).toList
      conns := Function.update s.conns k none
      released := s.released ++ [(.record, k)] } := by
  simp [onConnectError, contextOf, hid, hc, Outcome.deref, freeConn]

theorem onEstablished_server (hid : s.ids k = some k)
    (hc : s.conns k = some ⟨k, qp, .server handler arg⟩) : onEstablished s k = .ok s := by
  simp [onEstablished, contextOf, hid, hc, Outcome.deref]

theorem onEstablished_client (hid : s.ids k = some k)
    (hc : s.conns k = some ⟨k, qp, .client args mp⟩) :
    onEstablished s k = .ok { s with
      connects :=
        s.connects ++ (args.connect.map fun cb => ⟨k, cb, some k, args.connectArg⟩).toList } := by
  simp [onEstablished, contextOf, hid, hc, Outcome.deref]

theorem onDisconnectData_server (hid : s.ids k = some k)
    (hc : s.conns k = some ⟨k, qp, .server handler arg⟩) (he : k ∈ T.items s.connections) :
    onDisconnectData s k = .ok { s with
      connections := T.delete k s.connections
      released := s.released ++ [(.entry, k)] } := by
  have hcheck : Outcome.check (k ∈ T.items s.connections) (Misuse.gone .entry) = .ok () :=
    if_pos he
  simp only [onDisconnectData, contextOf, hid, hc, Outcome.deref, hashDelete, hcheck,
    Outcome.ok_bind, Outcome.pure_eq]

theorem onDisconnectData_client (hid : s.ids k = some k)
    (hc : s.conns k = some ⟨k, qp, .client args mp⟩) (hp : s.pools mp = true) :
    onDisconnectData s k = .ok { s with
      pools := Function.update s.pools mp false
      released := s.released ++ [(.pool, mp)] } := by
  simp only [onDisconnectData, contextOf, hid, hc, Outcome.deref, kvMempoolFree, hp, Outcome.check,
    if_true, Outcome.ok_bind, Outcome.pure_eq]

theorem rdmaDestroyQp_eq (hq : s.qps k = some q) :
    rdmaDestroyQp s k = .ok { s with
      qps := Function.update s.qps k none
      released := s.released ++ [(.qp, k)] } := by
  simp only [rdmaDestroyQp, hq, Outcome.deref, Outcome.ok_bind, Outcome.pure_eq]

/-- A server connection goes: its element, its queue pair, its cm_id and its record. -/
theorem onDisconnect_server (hid : s.ids k = some k)
    (hc : s.conns k = some ⟨k, qp, .server handler arg⟩) (hq : s.qps k = some q)
    (he : k ∈ T.items s.connections) :
    onDisconnect s k = .ok { s with
      connections := T.delete k s.connections
      qps := Function.update s.qps k none
      ids := Function.update s.ids k none
      conns := Function.update s.conns k none
      released := s.released ++ [(.entry, k), (.qp, k), (.cmId, k), (.record, k)] } := by
  simp only [onDisconnect, onDisconnectData_server hid hc he, contextOf, hid, hc, Outcome.deref,
    rdmaDestroyQp, hq, rdmaDestroyId, onDisconnectConn, freeConn, Outcome.ok_bind, Outcome.pure_eq,
    List.append_assoc, List.cons_append, List.nil_append]

/-- A client connection goes, with its pool. -/
theorem onDisconnect_client (hid : s.ids k = some k)
    (hc : s.conns k = some ⟨k, qp, .client args mp⟩) (hq : s.qps k = some q)
    (hp : s.pools mp = true) :
    onDisconnect s k = .ok { s with
      pools := Function.update s.pools mp false
      qps := Function.update s.qps k none
      ids := Function.update s.ids k none
      disconnects :=
        s.disconnects ++ (args.disconnect.map fun cb => ⟨k, cb, args.disconnectArg⟩).toList
      conns := Function.update s.conns k none
      released := s.released ++ [(.pool, mp), (.qp, k), (.cmId, k), (.record, k)] } := by
  simp only [onDisconnect, onDisconnectData_client hid hc hp, contextOf, hid, hc, Outcome.deref,
    rdmaDestroyQp, hq, rdmaDestroyId, onDisconnectConn, freeConn, Outcome.ok_bind, Outcome.pure_eq,
    List.append_assoc, List.cons_append, List.nil_append]

/-! ### What the functions do to the cm_ids -/

/-- What is not the handler's own: the stages of the cm_ids, and the history of the calls. -/
def core (s : Cm T) := (s.next, s.started, s.stage)

/-- What the switch asks of librdmacm on an event, as the stage it puts the cm_id in. -/
def asks : RdmaCmEventType → Option Stage
  | .addrResolved => some .resolvingRoute
  | .routeResolved => some .connecting
  | .connectRequest => some .accepted
  | _ => none

variable {s' : Cm T} {id : CmId} {e : RdmaCmEventType}

theorem createConnetion_core (h : createConnetion s id q = .ok s') : s'.core = s.core := by
  obtain ⟨⟨c, conn⟩, -, h⟩ := Outcome.bind_eq_ok.mp h
  cases h
  rfl

theorem onConnectRequest_core (h : onConnectRequest s id q = .ok s') :
    s'.core = (s.setStage id .accepted).core := by
  obtain ⟨s₁, h₁, h⟩ := Outcome.bind_eq_ok.mp h
  obtain ⟨s₂, h₂, h⟩ := Outcome.bind_eq_ok.mp h
  obtain ⟨s₃, h₃, h⟩ := Outcome.bind_eq_ok.mp h
  cases h
  have hc₁ : s₁.core = s.core := by
    obtain ⟨⟨l, lconn⟩, -, h₁⟩ := Outcome.bind_eq_ok.mp h₁
    dsimp only at h₁
    split at h₁ <;> cases h₁
    rfl
  have hc₂ := createConnetion_core h₂
  have hc₃ : s₃.core = s₂.core := by
    simp only [hashAdd, Outcome.bind_eq_ok, Outcome.pure_eq] at h₃
    obtain ⟨_, -, _, -, _, -, h₃⟩ := h₃
    cases h₃
    rfl
  simp_all [core, rdmaAccept, setStage]

theorem onConnectError_core (h : onConnectError s id = .ok s') : s'.core = s.core := by
  obtain ⟨⟨c, conn⟩, -, h⟩ := Outcome.bind_eq_ok.mp h
  dsimp only at h
  split at h <;> cases h <;> rfl

theorem onEstablished_core (h : onEstablished s id = .ok s') : s'.core = s.core := by
  obtain ⟨⟨c, conn⟩, -, h⟩ := Outcome.bind_eq_ok.mp h
  dsimp only at h
  split at h <;> cases h <;> rfl

theorem onDisconnect_core (h : onDisconnect s id = .ok s') : s'.core = s.core := by
  obtain ⟨⟨c, conn⟩, -, h⟩ := Outcome.bind_eq_ok.mp h
  obtain ⟨s₁, h₁, h⟩ := Outcome.bind_eq_ok.mp h
  obtain ⟨s₂, h₂, h⟩ := Outcome.bind_eq_ok.mp h
  obtain ⟨s₃, h₃, h⟩ := Outcome.bind_eq_ok.mp h
  obtain ⟨conn', -, h⟩ := Outcome.bind_eq_ok.mp h
  have hc₁ : s₁.core = s.core := by
    obtain ⟨⟨c', conn⟩, -, h₁⟩ := Outcome.bind_eq_ok.mp h₁
    dsimp only at h₁
    split at h₁ <;> obtain ⟨_, -, h₁⟩ := Outcome.bind_eq_ok.mp h₁ <;> cases h₁ <;> rfl
  have hc₂ : s₂.core = s₁.core := by
    obtain ⟨_, -, h₂⟩ := Outcome.bind_eq_ok.mp h₂
    cases h₂
    rfl
  have hc₃ : s₃.core = s₂.core := by
    obtain ⟨_, -, h₃⟩ := Outcome.bind_eq_ok.mp h₃
    cases h₃
    rfl
  have hc₄ : s'.core = s₃.core := by
    split at h <;> cases h <;> rfl
  rw [hc₄, hc₃, hc₂, hc₁]

theorem rdmaCmPoller_core (h : rdmaCmPoller s id e q = .ok s') :
    s'.core = ((asks e).elim s (s.setStage id)).core := by
  cases e with
  | addrResolved =>
      obtain ⟨s₁, h₁, h⟩ := Outcome.bind_eq_ok.mp h
      cases h
      have hc := createConnetion_core h₁
      simp_all [core, asks, rdmaResolveRoute, setStage]
  | routeResolved => cases h; rfl
  | connectRequest => exact onConnectRequest_core h
  | unreachable | rejected => exact onConnectError_core h
  | established => exact onEstablished_core h
  | disconnected => exact onDisconnect_core h
  | addrError | routeError | connectError | other n => cases h; rfl

/-- An event takes the cm_id to the stage librdmacm gives it, or to the one the switch asks for. -/
theorem step_event_core (h : step s (.event id e q) = .ok s') :
    (s.started id).isSome ∧
      ∃ g, (s.stage id).after e = some g ∧ s'.core = (s.setStage id ((asks e).getD g)).core := by
  obtain ⟨_, hreq, h⟩ := Outcome.bind_eq_ok.mp h
  obtain ⟨g, hg, h⟩ := Outcome.bind_eq_ok.mp h
  refine ⟨(Outcome.require_eq_ok.mp hreq).1, g, Outcome.choose_eq_ok.mp hg, ?_⟩
  rw [rdmaCmPoller_core h]
  cases asks e <;> simp [core, setStage]

theorem step_connectRequest_core {l : CmId} (h : step s (.connectRequest l q) = .ok s') :
    s'.core = ((request s l).setStage s.next .accepted).core := by
  obtain ⟨_, -, h⟩ := Outcome.bind_eq_ok.mp h
  exact rdmaCmPoller_core h

end

end Cm

end RdmaRpc
