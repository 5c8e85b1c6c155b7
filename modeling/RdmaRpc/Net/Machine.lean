import RdmaRpc.Server.Service
import RdmaRpc.Client.Answers
import RdmaRpc.Lifetimes

/-!
# Net — Machine

A server and its clients, over reliable queue pairs that keep the order.  A connection is named
by the number of its queue pair at the server.  Several connections may be on one host, and share
its memory; the completions of a connection are polled apart from those of the others, which
leaves their order open.

A message is sent whole, and lands packet by packet: until its last packet has landed it is on the
wire, and the server's machine has it in progress once it has taken a receive.  One that finds none
fails (`rnr_retry_count` is 0).  A response write is executed in one step, for nothing else touches
either end of it meanwhile.

Apart from that no post is refused, no work request fails and no connection is lost here; what does
fail is the subject of the two machines by themselves.  `server_run` projects a run onto the server's
machine.

`answers` and `written` are history: the calls of `kv_rdma_make_resp`, and the response writes
executed.
-/

namespace RdmaRpc
open Lib

/-- What goes on inside the server. -/
def Server.Event.inside : Server.Event → Bool
  | .established _ | .poll .. | .handle _ | .dispatch _ | .handlerWrite .. | .writeDone _ .good => true
  | _ => false

/-- What the packets of a message do. -/
def Server.Event.onWire : Server.Event → Bool
  | .take _ | .place .. | .arrive .. | .arriveFail .. => true
  | _ => false

/-- What goes on inside a client. -/
def Client.Event.inside : Client.Event → Bool
  | .sendDone .good | .poll .. | .handle _ | .put _ => true
  | _ => false

/-- A message on its way to the server. -/
structure Msg where
  bytes : List UInt8
  imm : BitVec 32
  origin : Origin

/-- The bytes of the message that land next, `len` of them if so many are left. -/
def Msg.next (m : Msg) (placed len : Nat) : List UInt8 := (m.bytes.drop placed).take len

/-- A response write: the request, the queue pair, the key, the address, and the bytes. -/
structure Written where
  origin : Origin
  qp : QpNum
  rkey : BitVec 32
  addr : BitVec 64
  bytes : List UInt8

/-- The server, the clients, the memories of their hosts, and the messages on their way. -/
structure Net where
  server : Server
  clients : QpNum → Option Client
  host : QpNum → Nat
  mem : Nat → Mem
  wire : List (QpNum × Msg)
  answers : List Answer
  written : List Written

namespace Net

inductive Event where
  /-- a client on `host` connects, with its pool at `buf` -/
  | connect (q : QpNum) (host buf : Nat)
  /-- a call of `kv_rdma_send_req` -/
  | sendReq (q : QpNum) (a : SendReq) (pick : Nat)
  /-- the client's NIC sends the oldest request -/
  | transmit (q : QpNum)
  /-- the oldest message of `q` takes a receive -/
  | take (q : QpNum)
  /-- the next `len` bytes of it land -/
  | place (q : QpNum) (len : Nat)
  /-- all of it has landed -/
  | arrive (q : QpNum)
  | server (e : Server.Event)
  /-- the handler calls `kv_rdma_make_resp` -/
  | answer (i resp respSz : Nat)
  /-- the server's NIC executes the oldest response write of `q` -/
  | land (q : QpNum)
  | client (q : QpNum) (e : Client.Event)
  /-- an application writes in the memory of `host` -/
  | write (host addr : Nat) (bytes : List UInt8)

def init (cfg : ServerCfg) (mem : Mem) (hosts : Nat → Mem) : Net where
  server := .init cfg mem
  clients := fun _ => none
  host := fun _ => 0
  mem := hosts
  wire := []
  answers := []
  written := []

def setClient (n : Net) (q : QpNum) (c : Client) : Net :=
  { n with clients := Function.update n.clients q (some c) }

def setMem (n : Net) (host : Nat) (mem : Mem) : Net :=
  { n with mem := Function.update n.mem host mem }

/-- The message the oldest request of a client becomes. -/
def message (n : Net) (q : QpNum) (p : Sent) : Msg :=
  ⟨(n.mem (n.host q)).read p.wr.sge.addr p.wr.sge.length, p.wr.immData, ⟨q, p.call⟩⟩

/-- The response write the oldest post of `q` becomes. -/
def response (n : Net) (q : QpNum) (p : Posted) : Written :=
  ⟨p.origin, q, p.wr.rkey, p.wr.remoteAddr, n.server.mem.read p.wr.sge.addr p.wr.sge.length⟩

def step (n : Net) : Event → Outcome Fault Net
  | .connect q host buf => do
    let server ← Server.step n.server (.connectRequest q)
    return { n.setClient q (.init q q buf) with server, host := Function.update n.host q host }
  | .sendReq q a pick => do
    let c ← Outcome.choose (n.clients q)
    let (c, mem) ← Client.step (c, n.mem (n.host q)) (.sendReq a pick false false)
    return (n.setClient q c).setMem (n.host q) mem
  | .transmit q => do
    let c ← Outcome.choose (n.clients q)
    let p ← Outcome.choose c.sends.head?
    let c ← Client.react c .transmit
    return { n.setClient q c with wire := n.wire ++ [(q, n.message q p)] }
  | .take q => do
    Outcome.require (Keyed.queue q n.wire ≠ [] ∧ Keyed.queue q n.server.taken = [])
    Outcome.check (n.server.srq ≠ []) .receiverNotReady
    let server ← Server.step n.server (.take q)
    return { n with server }
  | .place q len => do
    let (m, _) ← Outcome.choose (Keyed.pop q n.wire)
    let (t, _) ← Outcome.choose (Keyed.pop q n.server.taken)
    let server ← Server.step n.server (.place q (m.next t.placed len))
    return { n with server }
  | .arrive q => do
    let (m, wire) ← Outcome.choose (Keyed.pop q n.wire)
    let (t, _) ← Outcome.choose (Keyed.pop q n.server.taken)
    Outcome.require (t.placed = m.bytes.length)
    let server ← Server.step n.server (.arrive q (some m.imm) m.origin)
    return { n with server, wire }
  | .server e => do
    Outcome.require e.inside
    let server ← Server.step n.server e
    return { n with server }
  | .answer i resp respSz => do
    let server ← Server.step n.server (.answer i resp respSz)
    return { n with server, answers := n.answers ++ n.server.answering (.answer i resp respSz) }
  | .land q => do
    let (p, _) ← Outcome.choose (Keyed.pop q n.server.sends)
    let server ← Server.step n.server (.land q)
    let c ← Outcome.choose (n.clients q)
    let w := n.response q p
    let c ← Client.react c (.deliver p.origin.call p.wr.immData w.bytes.length)
    let mem := (n.mem (n.host q)).write w.addr.toNat w.bytes
    return { (n.setClient q c).setMem (n.host q) mem with server, written := n.written ++ [w] }
  | .client q e => do
    Outcome.require e.inside
    let c ← Outcome.choose (n.clients q)
    let c ← Client.react c e
    return n.setClient q c
  | .write host addr bytes => return n.setMem host ((n.mem host).write addr bytes)

/-! ### What each event does -/

section
variable {n n' : Net} {q : QpNum} {e : Event}

theorem step_connect {host buf : Nat} (h : step n (.connect q host buf) = .ok n') :
    ∃ server, Server.step n.server (.connectRequest q) = .ok server ∧
      n' = { n.setClient q (.init q q buf) with server, host := Function.update n.host q host } := by
  simp only [step, Outcome.bind_eq_ok, Outcome.pure_eq, Outcome.ok.injEq] at h
  obtain ⟨server, hs, rfl⟩ := h
  exact ⟨server, hs, rfl⟩

theorem step_sendReq {a : SendReq} {pick : Nat} (h : step n (.sendReq q a pick) = .ok n') :
    ∃ c ele mp, n.clients q = some c ∧ c.stage = .up ∧ a.reqSz.toNat ≤ a.req.length ∧
      kvMempoolGet c.mp pick = some (ele, mp) ∧
      n' = (n.setClient q ((c.take a ele mp).accept a ele)).setMem (n.host q)
        ((n.mem (n.host q)).write a.req.addr (Client.header mp a ele).bytes) := by
  simp only [step, Outcome.bind_eq_ok, Outcome.choose_eq_ok, Outcome.pure_eq, Outcome.ok.injEq,
    Prod.exists] at h
  obtain ⟨c, hc, c', mem, hs, rfl⟩ := h
  obtain ⟨hup, hsz, ele, mp, hget, rfl, hcase⟩ := Client.kvRdmaSendReq_eq_ok hs
  rcases hcase with ⟨h, -⟩ | ⟨-, h, -⟩ | ⟨-, -, rfl⟩
  · cases h
  · cases h
  · exact ⟨c, ele, mp, hc, hup, hsz, hget, rfl⟩

theorem step_transmit (h : step n (.transmit q) = .ok n') :
    ∃ c p sends, n.clients q = some c ∧ c.sends = p :: sends ∧
      n' = { n.setClient q { c with sends, sent := c.sent ++ [p] } with
        wire := n.wire ++ [(q, n.message q p)] } := by
  simp only [step, Outcome.bind_eq_ok, Outcome.choose_eq_ok, Outcome.pure_eq,
    Outcome.ok.injEq] at h
  obtain ⟨c, hc, p, hp, c', hs, rfl⟩ := h
  obtain ⟨p', sends, hsends, rfl⟩ := Client.react_transmit hs
  rw [hsends] at hp
  cases hp
  exact ⟨c, p, sends, hc, hsends, rfl⟩

theorem step_take (h : step n (.take q) = .ok n') :
    Keyed.queue q n.wire ≠ [] ∧ n.server.srq ≠ [] ∧ ∃ server,
      Server.step n.server (.take q) = .ok server ∧ n' = { n with server } := by
  simp only [step, Outcome.bind_eq_ok, Outcome.require_eq_ok, Outcome.check_eq_ok, Outcome.pure_eq,
    Outcome.ok.injEq] at h
  obtain ⟨-, ⟨hw, -⟩, -, hsrq, server, hs, rfl⟩ := h
  exact ⟨hw, hsrq, server, hs, rfl⟩

theorem step_place {len : Nat} (h : step n (.place q len) = .ok n') :
    ∃ m wire t taken server, Keyed.pop q n.wire = some (m, wire) ∧
      Keyed.pop q n.server.taken = some (t, taken) ∧
      Server.step n.server (.place q (m.next t.placed len)) = .ok server ∧
      n' = { n with server } := by
  simp only [step, Outcome.bind_eq_ok, Outcome.choose_eq_ok, Outcome.pure_eq, Outcome.ok.injEq,
    Prod.exists] at h
  obtain ⟨m, wire, hp, t, taken, ht, server, hs, rfl⟩ := h
  exact ⟨m, wire, t, taken, server, hp, ht, hs, rfl⟩

theorem step_arrive (h : step n (.arrive q) = .ok n') :
    ∃ m wire t taken server, Keyed.pop q n.wire = some (m, wire) ∧
      Keyed.pop q n.server.taken = some (t, taken) ∧ t.placed = m.bytes.length ∧
      Server.step n.server (.arrive q (some m.imm) m.origin) = .ok server ∧
      n' = { n with server, wire } := by
  simp only [step, Outcome.bind_eq_ok, Outcome.choose_eq_ok, Outcome.require_eq_ok, Outcome.pure_eq,
    Outcome.ok.injEq, Prod.exists] at h
  obtain ⟨m, wire, hp, t, taken, ht, -, hlen, server, hs, rfl⟩ := h
  exact ⟨m, wire, t, taken, server, hp, ht, hlen, hs, rfl⟩

theorem step_server {e : Server.Event} (h : step n (.server e) = .ok n') :
    e.inside = true ∧ ∃ server, Server.step n.server e = .ok server ∧ n' = { n with server } := by
  simp only [step, Outcome.bind_eq_ok, Outcome.require_eq_ok, Outcome.pure_eq, Outcome.ok.injEq] at h
  obtain ⟨-, he, server, hs, rfl⟩ := h
  exact ⟨he, server, hs, rfl⟩

theorem step_answer {i resp respSz : Nat} (h : step n (.answer i resp respSz) = .ok n') :
    ∃ server, Server.step n.server (.answer i resp respSz) = .ok server ∧
      n' = { n with
        server
        answers := n.answers ++ n.server.answering (.answer i resp respSz) } := by
  simp only [step, Outcome.bind_eq_ok, Outcome.pure_eq, Outcome.ok.injEq] at h
  obtain ⟨server, hs, rfl⟩ := h
  exact ⟨server, hs, rfl⟩

theorem step_land (h : step n (.land q) = .ok n') :
    ∃ p sends c server, Keyed.pop q n.server.sends = some (p, sends) ∧ n.clients q = some c ∧
      Server.step n.server (.land q) = .ok server ∧ ∃ c',
        Client.react c (.deliver p.origin.call p.wr.immData (n.response q p).bytes.length) = .ok c' ∧
        n' = { (n.setClient q c').setMem (n.host q)
            ((n.mem (n.host q)).write p.wr.remoteAddr.toNat (n.response q p).bytes) with
          server
          written := n.written ++ [n.response q p] } := by
  simp only [step, Outcome.bind_eq_ok, Outcome.choose_eq_ok, Outcome.pure_eq, Outcome.ok.injEq,
    Prod.exists] at h
  obtain ⟨p, sends, hp, server, hs, c, hc, c', hd, rfl⟩ := h
  exact ⟨p, sends, c, server, hp, hc, hs, c', hd, rfl⟩

theorem step_client {e : Client.Event} (h : step n (.client q e) = .ok n') :
    e.inside = true ∧ ∃ c c', n.clients q = some c ∧ Client.react c e = .ok c' ∧
      n' = n.setClient q c' := by
  simp only [step, Outcome.bind_eq_ok, Outcome.require_eq_ok, Outcome.choose_eq_ok, Outcome.pure_eq,
    Outcome.ok.injEq] at h
  obtain ⟨-, he, c, hc, c', hs, rfl⟩ := h
  exact ⟨he, c, c', hc, hs, rfl⟩

theorem step_write {host addr : Nat} {bytes : List UInt8}
    (h : step n (.write host addr bytes) = .ok n') :
    n' = n.setMem host ((n.mem host).write addr bytes) := by
  simp only [step, Outcome.pure_eq, Outcome.ok.injEq] at h
  exact h.symm

/-! ### The server's part of a run -/

theorem good_of_inside {e : Server.Event} (h : e.inside = true) : e.Good := by
  cases e with
  | writeDone q en =>
      cases en with
      | good => trivial
      | bad code fields => cases h
  | disconnected c => cases h
  | destroyQp drop => cases h
  | freeConn => cases h
  | arriveFail q code fields junk origin => cases h
  | flush q code fields => cases h
  | arrive q imm origin => cases h
  | _ => trivial

/-- A step of all is a good step of the server or leaves it alone. -/
theorem server_step (h : step n e = .ok n') :
    n'.server = n.server ∨ ∃ e' : Server.Event, e'.Good ∧ Server.step n.server e' = .ok n'.server := by
  cases e with
  | connect q host buf =>
      obtain ⟨server, hs, rfl⟩ := step_connect h
      exact .inr ⟨.connectRequest q, trivial, hs⟩
  | sendReq q a pick => obtain ⟨c, ele, mp, -, -, -, -, rfl⟩ := step_sendReq h; exact .inl rfl
  | transmit q => obtain ⟨c, p, sends, -, -, rfl⟩ := step_transmit h; exact .inl rfl
  | take q =>
      obtain ⟨-, -, server, hs, rfl⟩ := step_take h
      exact .inr ⟨.take q, trivial, hs⟩
  | place q len =>
      obtain ⟨m, wire, t, taken, server, -, -, hs, rfl⟩ := step_place h
      exact .inr ⟨.place q (m.next t.placed len), trivial, hs⟩
  | arrive q =>
      obtain ⟨m, wire, t, taken, server, -, -, -, hs, rfl⟩ := step_arrive h
      exact .inr ⟨.arrive q (some m.imm) m.origin, rfl, hs⟩
  | server e =>
      obtain ⟨he, server, hs, rfl⟩ := step_server h
      exact .inr ⟨e, good_of_inside he, hs⟩
  | answer i resp respSz =>
      obtain ⟨server, hs, rfl⟩ := step_answer h
      exact .inr ⟨.answer i resp respSz, trivial, hs⟩
  | land q =>
      obtain ⟨p, sends, c, server, -, -, hs, c', -, rfl⟩ := step_land h
      exact .inr ⟨.land q, trivial, hs⟩
  | client q e => obtain ⟨-, c, c', -, -, rfl⟩ := step_client h; exact .inl rfl
  | write host addr bytes => obtain rfl := step_write h; exact .inl rfl

/-- **The server's part of a run is a good run of the server.** -/
theorem server_run {cfg : ServerCfg} {mem : Mem} {hosts : Nat → Mem} {tr : List Event}
    (h : run step (init cfg mem hosts) tr = .ok n) :
    ∃ tr', run Server.step (.init cfg mem) tr' = .ok n.server ∧ ∀ e' ∈ tr', e'.Good := by
  refine run_project (π := Net.server) (R := Server.Event.Good) (fun n e n' h => ?_) h
  rcases server_step h with hs | ⟨e', hg, hs⟩
  · exact ⟨[], by rw [run_nil, hs], by simp⟩
  · exact ⟨[e'], by rw [run_singleton, hs], by simpa using hg⟩

end

/-! ### A client's part of a run -/

section
variable {n n' : Net} {q : QpNum} {e : Event} {c c' : Client}

theorem clients_setClient : (n.setClient q c).clients q = some c := by
  simp [setClient]

theorem clients_setClient_ne {q' : QpNum} (h : q' ≠ q) :
    (n.setClient q c).clients q' = n.clients q' := by
  simp [setClient, h]

theorem clients_setClient_eq_some {q' : QpNum} {c₁ : Client}
    (h : (n.setClient q c).clients q' = some c₁) :
    q' = q ∧ c₁ = c ∨ q' ≠ q ∧ n.clients q' = some c₁ := by
  by_cases hq : q' = q
  · subst hq
    rw [clients_setClient, Option.some.injEq] at h
    exact .inl ⟨rfl, h.symm⟩
  · rw [clients_setClient_ne hq] at h
    exact .inr ⟨hq, h⟩

/-- The step of the client `q` in a step of all. -/
def clientEvent (n : Net) (q : QpNum) : Event → Option Client.Event
  | .sendReq q' a pick => if q' = q then some (.sendReq a pick false false) else none
  | .transmit q' => if q' = q then some .transmit else none
  | .land q' => if q' = q then (Keyed.pop q n.server.sends).map fun p =>
      .deliver p.1.origin.call p.1.wr.immData p.1.wr.sge.length else none
  | .client q' e => if q' = q ∧ e.inside then some e else none
  | _ => none

theorem client_react {e : Client.Event} {mem : Mem} (h : Client.react c e = .ok c') :
    Client.step (c, mem) e = .ok (c', mem) := by
  cases e with
  | sendReq a pick rr rs => cases h
  | _ => simp only [Client.step, h, Outcome.ok_bind, Outcome.pure_eq]

theorem react_of_step {e : Client.Event} {mem mem' : Mem}
    (he : ∀ a pick rr rs, e ≠ .sendReq a pick rr rs) (h : Client.step (c, mem) e = .ok (c', mem')) :
    Client.react c e = .ok c' := by
  rcases Client.step_cases h with ⟨a, pick, rr, rs, heq, -⟩ | ⟨hr, -⟩
  · exact absurd heq (he a pick rr rs)
  · exact hr

/-- A client is left alone, or it is new, or it takes a step of its own. -/
theorem client_step (h : step n e = .ok n') (hc' : n'.clients q = some c') :
    n.clients q = some c' ∨ (∃ host buf, e = .connect q host buf ∧ c' = .init q q buf) ∨
      ∃ c e' mem', n.clients q = some c ∧ n.clientEvent q e = some e' ∧
        Client.step (c, n.mem (n.host q)) e' = .ok (c', mem') := by
  cases e with
  | connect q' host buf =>
      obtain ⟨server, -, rfl⟩ := step_connect h
      rcases clients_setClient_eq_some hc' with ⟨rfl, rfl⟩ | ⟨-, hc⟩
      · exact .inr (.inl ⟨host, buf, rfl, rfl⟩)
      · exact .inl hc
  | sendReq q' a pick =>
      obtain ⟨c, ele, mp, hc, hup, hsz, hget, rfl⟩ := step_sendReq h
      rcases clients_setClient_eq_some hc' with ⟨rfl, rfl⟩ | ⟨-, hc⟩
      · exact .inr (.inr ⟨c, _, _, hc, if_pos rfl,
          Client.kvRdmaSendReq_posted false hup hget hsz⟩)
      · exact .inl hc
  | transmit q' =>
      obtain ⟨c, p, sends, hc, hsends, rfl⟩ := step_transmit h
      rcases clients_setClient_eq_some hc' with ⟨rfl, rfl⟩ | ⟨-, hc⟩
      · refine .inr (.inr ⟨c, _, _, hc, if_pos rfl, client_react ?_⟩)
        simp only [Client.react, hsends]
      · exact .inl hc
  | take q' => obtain ⟨-, -, server, -, rfl⟩ := step_take h; exact .inl hc'
  | place q' len => obtain ⟨m, wire, t, taken, server, -, -, -, rfl⟩ := step_place h; exact .inl hc'
  | arrive q' =>
      obtain ⟨m, wire, t, taken, server, -, -, -, -, rfl⟩ := step_arrive h
      exact .inl hc'
  | server e => obtain ⟨-, server, -, rfl⟩ := step_server h; exact .inl hc'
  | answer i resp respSz => obtain ⟨server, -, rfl⟩ := step_answer h; exact .inl hc'
  | land q' =>
      obtain ⟨p, sends, c, server, hp, hc, -, c₁, hd, rfl⟩ := step_land h
      rcases clients_setClient_eq_some hc' with ⟨rfl, rfl⟩ | ⟨-, hc⟩
      · rw [response, Mem.length_read] at hd
        exact .inr (.inr ⟨c, _, _, hc, by simp only [clientEvent, hp, if_true, Option.map_some],
          client_react hd⟩)
      · exact .inl hc
  | client q' e =>
      obtain ⟨he, c, c₁, hc, hr, rfl⟩ := step_client h
      rcases clients_setClient_eq_some hc' with ⟨rfl, rfl⟩ | ⟨-, hc⟩
      · exact .inr (.inr ⟨c, e, _, hc, if_pos ⟨rfl, he⟩, client_react hr⟩)
      · exact .inl hc
  | write host addr bytes => obtain rfl := step_write h; exact .inl hc'

end

/-! ### Clients connected -/

section
open Client (poolCount ctxSize)
variable {n : Net} {q : QpNum} {Q : Net → Event → Prop} {tr : List Event}

/-- A client of `host` connects, with the elements of its pool written out. -/
def connected (n : Net) (q : QpNum) (host buf : Nat) : Net :=
  let c := { Client.init q q buf with
    mp := ⟨buf, poolCount, ctxSize, (List.range poolCount).map fun i => buf + i * ctxSize⟩ }
  { n.setClient q c with
    server := Server.onConnectRequest n.server q
    host := Function.update n.host q host }

theorem step_connected {host buf : Nat} (hq : q ∉ n.server.qps) (hl : n.server.leaving = none) :
    step n (.connect q host buf) = .ok (n.connected q host buf) := by
  have hc : Client.init q q buf = { Client.init q q buf with
      mp := ⟨buf, poolCount, ctxSize, (List.range poolCount).map fun i => buf + i * ctxSize⟩ } := by
    simp only [Client.init, kvMempoolCreate_eq]
  have hs : Server.step n.server (.connectRequest q) = .ok (Server.onConnectRequest n.server q) := by
    simp [Server.step, Outcome.require, hq, hl]
  simp only [step, hs, Outcome.ok_bind, Outcome.pure_eq, connected, ← hc]

/-- A client connected to a server with one context. -/
@[irreducible] def oneClient : Net :=
  (init oneContext (fun _ => 0) fun _ _ => 0).connected 7 0 8192

theorem run_connect :
    run step (init oneContext (fun _ => 0) fun _ _ => 0) [.connect 7 0 8192] = .ok oneClient := by
  rw [oneClient]
  exact run_singleton.trans (step_connected (List.not_mem_nil) rfl)

theorem along_connect (hq : Q (init oneContext (fun _ => 0) fun _ _ => 0) (.connect 7 0 8192))
    (h : Along step Q oneClient tr) :
    Along step Q (init oneContext (fun _ => 0) fun _ _ => 0) ([.connect 7 0 8192] ++ tr) := by
  refine along_append.mpr ⟨⟨hq, fun _ _ => trivial⟩, fun n hn => ?_⟩
  rw [run_connect] at hn
  cases hn
  exact h

/-- Two clients, on two hosts, connected to a server with two contexts. -/
@[irreducible] def twoClients : Net :=
  ((init Server.twoContexts (fun _ => 0) fun _ _ => 0).connected 7 0 8192).connected 8 1 8192

theorem run_connects : run step (init Server.twoContexts (fun _ => 0) fun _ _ => 0)
    [.connect 7 0 8192, .connect 8 1 8192] = .ok twoClients := by
  have h₁ : step (init Server.twoContexts (fun _ => 0) fun _ _ => 0) (.connect 7 0 8192) = .ok _ :=
    step_connected List.not_mem_nil rfl
  have h₂ : step ((init Server.twoContexts (fun _ => 0) fun _ _ => 0).connected 7 0 8192)
      (.connect 8 1 8192) = .ok _ := step_connected (by decide) rfl
  rw [run_cons, h₁, Outcome.ok_bind, run_singleton, h₂, twoClients]

theorem along_connects (hq : ∀ n q host buf, Q n (.connect q host buf))
    (h : Along step Q twoClients tr) :
    Along step Q (init Server.twoContexts (fun _ => 0) fun _ _ => 0)
      ([.connect 7 0 8192, .connect 8 1 8192] ++ tr) := by
  refine along_append.mpr ⟨⟨hq _ _ _ _, fun _ _ => ⟨hq _ _ _ _, fun _ _ => trivial⟩⟩, fun n hn => ?_⟩
  rw [run_connects] at hn
  cases hn
  exact h

end

end Net

end RdmaRpc
