import RdmaRpc.Server.Places
import RdmaRpc.Client.Machine

/-!
# Shared — Machine

One handle with connections in both roles: the server with its connections, and any number of client
connections, at one completion queue and under the same pollers.  The completions of each client
connection, and those of the server, are kept and polled apart, which leaves their order open.

A queue pair of a client has room for `MAX_Q_NUM` receives and as many sends, and an entry is occupied
until its completion is polled (`Client.Room`).

The history of a completion says what was posted.  `Server.Marked` and `Client.Marked` are what
`ibv_poll_cq` promises of it: `wr_id` always, and the opcode when the completion is good.
-/

namespace RdmaRpc
open Lib

/-- The opcode of a good completion. -/
def WrKind.opcode : WrKind → WcOpcode
  | .serverRecv => .recv
  | .respWrite => .rdmaWrite
  | .clientRecv => .recvRdmaWithImm
  | .clientSend => .send

namespace Client

/-- The entries of the receive queue that are occupied. -/
def recvsHeld (c : Client) : Nat := c.recvs + c.cq.queue.countP (·.kind = .clientRecv)

/-- The entries of the send queue that are occupied. -/
def sendsHeld (c : Client) : Nat :=
  c.sends.length + c.sent.length + c.cq.queue.countP (·.kind = .clientSend)

/-- A post is accepted only where there is room. -/
def Room (c : Client) : Event → Prop
  | .sendReq _ _ refuseRecv refuseSend =>
    refuseRecv = false → c.recvsHeld < maxQNum ∧ (refuseSend = false → c.sendsHeld < maxQNum)
  | _ => True

instance (c : Client) : DecidablePred c.Room
  | .sendReq .. => inferInstanceAs (Decidable (_ → _))
  | .transmit | .sendDone _ | .sendFail .. | .deliver .. | .recvFail .. | .poll .. | .handle _
  | .put _ | .disconnected | .destroyQp _ | .freeConn => isTrue trivial

/-- `Client.step`, with queues of `MAX_Q_NUM` entries -/
def roomStep (s : Client × Mem) (e : Event) : Outcome Fault (Client × Mem) := do
  Outcome.require (s.1.Room e)
  step s e

end Client

/-- `struct kv_rdma` with its connections, and the memory of the requests. -/
structure Shared where
  server : Server
  clients : List Client
  mem : Mem

namespace Shared

inductive Event where
  /-- `kv_rdma_connect` makes a connection, whose queue pair gets the number `qp` and its pool the
  address `buf` -/
  | connect (qp : QpNum) (buf : Nat)
  | server (e : Server.Event)
  | client (i : Nat) (e : Client.Event)

def init (cfg : ServerCfg) (mem : Mem) : Shared := ⟨.init cfg mem, [], mem⟩

/-- The number of a new queue pair of the server. -/
def newQp : Server.Event → Option QpNum
  | .connectRequest q => some q
  | _ => none

def step (s : Shared) : Event → Outcome Fault Shared
  | .connect qp buf => do
    Outcome.require (qp ∉ s.server.qps ∧ ∀ c ∈ s.clients, c.qp ≠ qp)
    return { s with clients := s.clients ++ [.init s.clients.length qp buf] }
  | .server e => do
    Outcome.require (∀ c ∈ s.clients, newQp e ≠ some c.qp)
    let server ← Server.step s.server e
    return { s with server }
  | .client i e => do
    let c ← Outcome.choose s.clients[i]?
    let (c, mem) ← Client.roomStep (c, s.mem) e
    return { s with clients := s.clients.set i c, mem }

/-! ### What each event does -/

section
variable {s s' : Shared} {i : Nat} {qp : QpNum} {buf : Nat} {cfg : ServerCfg} {mem : Mem}
  {tr : List Event}

theorem step_connect (h : step s (.connect qp buf) = .ok s') :
    s' = { s with clients := s.clients ++ [.init s.clients.length qp buf] } := by
  simp only [step, Outcome.bind_eq_ok, Outcome.pure_eq, Outcome.ok.injEq] at h
  obtain ⟨-, -, rfl⟩ := h
  rfl

theorem step_server {e : Server.Event} (h : step s (.server e) = .ok s') :
    ∃ server, Server.step s.server e = .ok server ∧ s' = { s with server } := by
  simp only [step, Outcome.bind_eq_ok, Outcome.pure_eq, Outcome.ok.injEq] at h
  obtain ⟨-, -, server, hs, rfl⟩ := h
  exact ⟨server, hs, rfl⟩

theorem step_client {e : Client.Event} (h : step s (.client i e) = .ok s') :
    ∃ c c' mem, s.clients[i]? = some c ∧ c.Room e ∧ Client.step (c, s.mem) e = .ok (c', mem) ∧
      s' = { s with clients := s.clients.set i c', mem } := by
  simp only [step, Client.roomStep, Outcome.bind_eq_ok, Outcome.choose_eq_ok, Outcome.require_eq_ok,
    Outcome.pure_eq, Outcome.ok.injEq, Prod.exists] at h
  obtain ⟨c, hc, c', mem, ⟨-, hroom, hs⟩, rfl⟩ := h
  exact ⟨c, c', mem, hc, hroom, hs, rfl⟩

/-- What each client connection keeps, they all keep. -/
theorem forall_clients_step {P : Client → Prop} {e : Event}
    (hinit : ∀ conn qp buf, P (.init conn qp buf))
    (hstep : ∀ c mem e c' mem', P c → c.Room e → Client.step (c, mem) e = .ok (c', mem') → P c')
    (hs : ∀ c ∈ s.clients, P c) (h : step s e = .ok s') : ∀ c ∈ s'.clients, P c := by
  cases e with
  | connect qp buf =>
      obtain rfl := step_connect h
      intro c hc
      rcases List.mem_append.mp hc with hc | hc
      · exact hs c hc
      · exact List.mem_singleton.mp hc ▸ hinit _ _ _
  | server e => obtain ⟨server, -, rfl⟩ := step_server h; exact hs
  | client i e =>
      obtain ⟨c, c', mem, hc, hroom, hclient, rfl⟩ := step_client h
      intro c₁ hc₁
      rcases List.mem_or_eq_of_mem_set hc₁ with hc₁ | rfl
      · exact hs c₁ hc₁
      · exact hstep c s.mem e c₁ mem (hs c (List.mem_of_getElem? hc)) hroom hclient

/-- The server's part of a run. -/
theorem server_run (h : run step (init cfg mem) tr = .ok s) :
    ∃ tr', run Server.step (.init cfg mem) tr' = .ok s.server := by
  have hproject : ∀ s₁ e s₂, step s₁ e = .ok s₂ →
      ∃ tr', run Server.step s₁.server tr' = .ok s₂.server ∧ ∀ e' ∈ tr', True := by
    intro s₁ e s₂ h
    cases e with
    | connect qp buf => obtain rfl := step_connect h; exact ⟨[], rfl, nofun⟩
    | server e =>
        obtain ⟨server, hs, rfl⟩ := step_server h
        exact ⟨[e], by rw [run_singleton, hs], fun _ _ => trivial⟩
    | client i e =>
        obtain ⟨c, c', mem, -, -, -, rfl⟩ := step_client h
        exact ⟨[], rfl, nofun⟩
  obtain ⟨tr', hr, -⟩ := run_project (π := Shared.server) hproject h
  exact ⟨tr', hr⟩

/-- A run of one client connection. -/
theorem run_client {c c' : Client} {mem' : Mem} {tr : List Client.Event} (hi : s.clients[i]? = some c)
    (h : run Client.roomStep (c, s.mem) tr = .ok (c', mem')) :
    run step s (tr.map (.client i)) = .ok { s with clients := s.clients.set i c', mem := mem' } := by
  induction tr generalizing s c with
  | nil =>
      cases h
      obtain ⟨hlt, rfl⟩ := List.getElem?_eq_some_iff.mp hi
      rw [List.set_getElem_self]
      rfl
  | cons e tr ih =>
      obtain ⟨⟨c₁, mem₁⟩, h₁, h⟩ := Outcome.bind_eq_ok.mp h
      have hs : step s (.client i e) =
          .ok { s with clients := s.clients.set i c₁, mem := mem₁ } := by
        simp [step, hi, Outcome.choose, h₁]
      have hi₁ : (s.clients.set i c₁)[i]? = some c₁ := by
        obtain ⟨hlt, -⟩ := List.getElem?_eq_some_iff.mp hi
        simp [hlt]
      have hrun := ih (s := { s with clients := s.clients.set i c₁, mem := mem₁ }) hi₁ h
      rw [List.map_cons, run_cons, hs, Outcome.ok_bind, hrun]
      simp only [List.set_set]

end

end Shared

/-! ### What a completion says -/

/-- A completion of the server's work. -/
def Server.Marked (e : Cqe Nat) : Prop :=
  (e.kind = .serverRecv ∨ e.kind = .respWrite) ∧
    (e.wc.status = .success → e.wc.opcode = e.kind.opcode)

/-- A completion of a client's work. -/
def Client.Marked (e : Cqe ClientWrId) : Prop :=
  (e.kind = .clientRecv ∧ (∃ n, e.wc.wrId = .conn n) ∨
    e.kind = .clientSend ∧ ∃ ele, e.wc.wrId = .ctx ele) ∧
    (e.wc.status = .success → e.wc.opcode = e.kind.opcode)

section
variable {ι : Type} {en : Ending} {wrId : ι} {q : QpNum} {fields : WcFields}

/-- A good completion has the fields of its work request. -/
theorem Ending.opcode_of_success (h : (en.wc wrId q fields).status = .success) :
    (en.wc wrId q fields).opcode = fields.opcode := by
  cases en with
  | good => rfl
  | bad code f => cases h

end

namespace Server
variable {s s' : Server} {e : Event} {ce : Cqe Nat}

/-- A completion of the server is one that was there, or says what was posted. -/
theorem marked_step (h : step s e = .ok s') (hce : ce ∈ s'.cq.all) : ce ∈ s.cq.all ∨ Marked ce := by
  cases e with
  | connectRequest q =>
      obtain ⟨-, -, rfl⟩ := step_connectRequest h
      have hcq : s.withRequests.cq = s.cq := by
        obtain ⟨-, -, -, -, -, -, -, -, -, -, -, hcq, -⟩ := withRequests_frame s
        exact hcq
      exact .inl (hcq ▸ hce)
  | established c => exact .inl (step_established h ▸ hce)
  | disconnected c => obtain ⟨-, conn, -, rfl⟩ := step_disconnected h; exact .inl hce
  | destroyQp drop =>
      obtain ⟨c, q, -, rfl⟩ := step_destroying h
      simp only [rdmaDestroyQp, Completions.all, List.mem_append, List.mem_filter] at hce ⊢
      exact .inl (hce.imp_left And.left)
  | freeConn => obtain ⟨c, -, rfl⟩ := step_freeConn h; exact .inl hce
  | take q => obtain ⟨-, -, i, sge, srq, -, rfl⟩ := step_take.mp h; exact .inl hce
  | place q bytes => obtain ⟨tk, taken, -, -, rfl⟩ := step_place.mp h; exact .inl hce
  | arrive q imm o =>
      obtain ⟨tk, taken, -, rfl⟩ := step_arrive.mp h
      rcases Completions.mem_all_push.mp hce with rfl | hce
      · exact .inr ⟨.inl rfl, fun _ => rfl⟩
      · exact .inl hce
  | arriveFail q code fields junk o =>
      obtain ⟨tk, taken, -, rfl⟩ := step_arriveFail h
      rcases Completions.mem_all_push.mp hce with rfl | hce
      · exact .inr ⟨.inl rfl, fun hst => by cases hst⟩
      · exact .inl hce
  | poll t k =>
      obtain rfl := step_poll h
      exact .inl (Completions.mem_all_poll.mp hce)
  | handle t =>
      obtain ⟨-, e, cq, hn, h⟩ := step_handle h
      have hcq : s'.cq = cq := by
        rcases onCompletion_eq_ok h with ⟨-, -, rfl⟩ | ⟨-, -, -, -, rfl⟩ | ⟨-, rfl⟩ <;> rfl
      exact .inl (Completions.mem_of_mem_next hn (hcq ▸ hce))
  | dispatch t => obtain ⟨e, looked, c, conn, -, -, -, -, rfl⟩ := step_dispatch h; exact .inl hce
  | handlerWrite i addr bytes => obtain ⟨-, -, -, rfl⟩ := step_handlerWrite h; exact .inl hce
  | answer i resp respSz =>
      obtain ⟨hd, held, c, conn, q, -, -, -, -, -, rfl⟩ := step_answer h
      exact .inl hce
  | land q => obtain ⟨p, sends, -, rfl⟩ := step_land h; exact .inl hce
  | writeDone q en =>
      obtain ⟨p, landed, -, rfl⟩ := step_writeDone h
      rcases Completions.mem_all_push.mp hce with rfl | hce
      · exact .inr ⟨.inr rfl, Ending.opcode_of_success⟩
      · exact .inl hce
  | flush q code fields =>
      obtain ⟨p, sends, -, rfl⟩ := step_flush h
      rcases Completions.mem_all_push.mp hce with rfl | hce
      · exact .inr ⟨.inr rfl, fun hst => by cases hst⟩
      · exact .inl hce

end Server

namespace Client
variable {c c' : Client} {mem mem' : Mem} {e : Event} {ce : Cqe ClientWrId}

/-- A completion of a client is one that was there, or says what was posted. -/
theorem marked_step (h : step (c, mem) e = .ok (c', mem')) (hce : ce ∈ c'.cq.all) :
    ce ∈ c.cq.all ∨ Marked ce := by
  rcases step_cases h with ⟨a, pick, rr, rs, rfl, h⟩ | ⟨h, -⟩
  · obtain ⟨-, -, ele, mp, -, -, ⟨-, rfl⟩ | ⟨-, -, rfl⟩ | ⟨-, -, rfl⟩⟩ := kvRdmaSendReq_eq_ok h <;>
      exact .inl hce
  · cases e with
    | sendReq a pick rr rs => cases h
    | transmit => obtain ⟨p, sends, -, rfl⟩ := react_transmit h; exact .inl hce
    | sendDone en =>
        obtain ⟨p, sent, -, rfl⟩ := react_sendDone h
        rcases Completions.mem_all_push.mp hce with rfl | hce
        · exact .inr ⟨.inr ⟨rfl, _, Ending.wc_wrId⟩, Ending.opcode_of_success⟩
        · exact .inl hce
    | sendFail code fields =>
        obtain ⟨p, sends, -, rfl⟩ := react_sendFail h
        rcases Completions.mem_all_push.mp hce with rfl | hce
        · exact .inr ⟨.inr ⟨rfl, _, rfl⟩, fun hst => by cases hst⟩
        · exact .inl hce
    | deliver k imm byteLen =>
        obtain ⟨-, rfl⟩ := react_deliver.mp h
        rcases Completions.mem_all_push.mp hce with rfl | hce
        · exact .inr ⟨.inl ⟨rfl, _, rfl⟩, fun _ => rfl⟩
        · exact .inl hce
    | recvFail code fields =>
        obtain ⟨-, rfl⟩ := react_recvFail h
        rcases Completions.mem_all_push.mp hce with rfl | hce
        · exact .inr ⟨.inl ⟨rfl, _, rfl⟩, fun hst => by cases hst⟩
        · exact .inl hce
    | poll t k =>
        obtain rfl := react_poll h
        exact .inl (Completions.mem_all_poll.mp hce)
    | handle t =>
        obtain ⟨e, cq, hn, h⟩ := react_handle h
        have hcq : c'.cq = cq := by
          rcases h with ⟨-, -, -, -, ctx, cb, -, -, rfl⟩ | ⟨-, rfl⟩ <;> rfl
        exact .inl (Completions.mem_of_mem_next hn (hcq ▸ hce))
    | put t => obtain ⟨ele, returning, -, -, rfl⟩ := react_put h; exact .inl hce
    | disconnected => obtain ⟨-, rfl⟩ := react_disconnected h; exact .inl hce
    | destroyQp drop =>
        obtain ⟨-, rfl⟩ := react_destroyQp h
        cases drop with
        | false => exact .inl hce
        | true =>
            have hpolled : ce ∈ c.cq.polled.map Prod.snd := by
              simpa [onDisconnectQp, Completions.all] using hce
            exact .inl (List.mem_append_right _ hpolled)
    | freeConn => obtain ⟨-, rfl⟩ := react_freeConn h; exact .inl hce

end Client

end RdmaRpc
