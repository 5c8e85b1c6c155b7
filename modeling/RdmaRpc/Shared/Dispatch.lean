import RdmaRpc.Shared.Machine

/-!
# Shared — Dispatch

`rdma_cq_poller` tells the kinds of work apart by the opcode of the completion, which says something
only if the completion is good.  What becomes of a failed completion (`Dispatched`) is right just when
the field happens to hold the opcode of its kind, when the completion is none of a client's receives,
for `on_recv_resp` takes the context from the immediate data whatever the status, and when the
connection a server's context points to is there, as `on_write_resp_done` goes through it to post the
receive again (`dispatched_iff`).
-/

namespace RdmaRpc
open Lib

/-- The functions `rdma_cq_poller` hands completions to. -/
inductive Handler where
  | onRecvReq
  | onRecvResp
  | onWriteRespDone
  | onSendReq
deriving DecidableEq, Repr

/-- The function that is for completions of the kind. -/
def WrKind.handler : WrKind → Handler
  | .serverRecv => .onRecvReq
  | .respWrite => .onWriteRespDone
  | .clientRecv => .onRecvResp
  | .clientSend => .onSendReq

/-- The function the switch hands the completion to, or `none` for the default. -/
def handedTo {ι : Type} (wc : Wc ι) : Outcome Fault (Option Handler) :=
  rdmaCqPoller (fun _ => .ok (some .onRecvReq)) (fun _ => .ok (some .onRecvResp))
    (fun _ => .ok (some .onWriteRespDone)) (fun _ => .ok (some .onSendReq)) (.ok none) wc

/-- A completion has been handed to the function for its kind, which reads `wr_id` as what was stored;
a failed one has its receive posted again, once. -/
structure Server.Dispatched (s : Server) (t : Thread) (e : Cqe Nat) : Prop where
  handler : handedTo e.wc = .ok (some e.kind.handler)
  wrId : onCompletion s t e ≠ .fault .wrIdType
  repost : e.wc.status ≠ .success → ∃ s', onCompletion s t e = .ok s' ∧
    s'.srq = s.srq ++ [repostWr e.wc.wrId (s.requests e.wc.wrId).mr]

/-- A completion has been handed to the function for its kind, which reads `wr_id` as what was stored;
a failed one is not used to choose a context. -/
structure Client.Dispatched (c : Client) (t : Thread) (e : Cqe ClientWrId) : Prop where
  handler : handedTo e.wc = .ok (some e.kind.handler)
  wrId : onCompletion c t e.wc ≠ .fault .wrIdType
  context : e.wc.status ≠ .success → handedTo e.wc ≠ .ok (some .onRecvResp)

namespace Shared

/-- The completion the step handles, if it does, is dispatched by what was posted. -/
def Dispatches (s : Shared) : Event → Prop
  | .server (.handle t) => ∀ p ∈ s.server.cq.next t, { s.server with cq := p.2 }.Dispatched t p.1
  | .client i (.handle t) =>
    ∀ c ∈ s.clients[i]?, ∀ p ∈ c.cq.next t, { c with cq := p.2 }.Dispatched t p.1
  | _ => True

/-- The completion the step handles, if it does, is good; or it says what was posted, and is a
client's send, or of the server with the connection of its context there. -/
def Reliable (s : Shared) : Event → Prop
  | .server (.handle t) => ∀ p ∈ s.server.cq.next t, p.1.wc.status ≠ .success →
    p.1.wc.opcode = p.1.kind.opcode ∧ s.server.LiveConn p.1.wc.wrId
  | .client i (.handle t) => ∀ c ∈ s.clients[i]?, ∀ p ∈ c.cq.next t, p.1.wc.status ≠ .success →
    p.1.kind = .clientSend ∧ p.1.wc.opcode = .send
  | _ => True

end Shared

theorem handedTo_eq_iff {ι : Type} {wc : Wc ι} {kind : WrKind} :
    handedTo wc = .ok (some kind.handler) ↔ wc.opcode = kind.opcode := by
  unfold handedTo rdmaCqPoller
  cases wc.opcode <;> cases kind <;> simp [WrKind.handler, WrKind.opcode]

namespace Server
variable {s : Server} {t : Thread} {e : Cqe Nat}

/-- Only `on_recv_resp` reads a context as a connection. -/
theorem onCompletion_ne_wrIdType (hop : e.wc.opcode = .recv ∨ e.wc.opcode = .rdmaWrite) :
    onCompletion s t e ≠ .fault .wrIdType := by
  have hdone (wc : Wc Nat) : onWriteRespDone s wc ≠ .fault .wrIdType := fun h => by
    simp [onWriteRespDone, Outcome.bind_eq_fault] at h
  unfold onCompletion rdmaCqPoller
  rcases hop with hop | hop
  · simp only [hop, onRecvReq]
    split
    · exact hdone _
    · intro h
      simp [onRecvReqFind, Outcome.bind_eq_fault] at h
  · simp only [hop]
    exact hdone _

theorem dispatched_iff_of_marked (hm : Marked e) : s.Dispatched t e ↔
    (e.wc.status ≠ .success → e.wc.opcode = e.kind.opcode ∧ s.LiveConn e.wc.wrId) := by
  obtain ⟨hkind, hgood⟩ := hm
  have hops : e.wc.opcode = e.kind.opcode → e.wc.opcode = .recv ∨ e.wc.opcode = .rdmaWrite := by
    rcases hkind with hkind | hkind <;> rw [hkind]
    · exact .inl
    · exact .inr
  constructor
  · intro h hbad
    have hop := handedTo_eq_iff.mp h.handler
    obtain ⟨s', hs', -⟩ := h.repost hbad
    rcases onCompletion_eq_ok hs' with ⟨-, hlive, -⟩ | ⟨-, hst, -⟩ | ⟨hign, -⟩
    · exact ⟨hop, hlive⟩
    · exact absurd hst hbad
    · rcases hops hop with hop | hop <;> rw [hop] at hign <;>
        rcases hign with hign | ⟨code, hign⟩ <;> cases hign
  · intro h
    have hop : e.wc.opcode = e.kind.opcode := by
      by_cases hst : e.wc.status = .success
      · exact hgood hst
      · exact (h hst).1
    refine ⟨handedTo_eq_iff.mpr hop, onCompletion_ne_wrIdType (hops hop), fun hbad => ?_⟩
    have hlive := (h hbad).2
    refine ⟨{ s with srq := s.srq ++ [repostWr e.wc.wrId (s.requests e.wc.wrId).mr] }, ?_, rfl⟩
    unfold onCompletion rdmaCqPoller
    rcases hops hop with hop | hop
    · simp only [hop, onRecvReq, if_pos hbad]
      exact onWriteRespDone_eq_ok.mpr ⟨hlive, rfl⟩
    · simp only [hop]
      exact onWriteRespDone_eq_ok.mpr ⟨hlive, rfl⟩

end Server

namespace Client
variable {c : Client} {t : Thread} {e : Cqe ClientWrId}

theorem dispatched_iff_of_marked (hm : Marked e) : c.Dispatched t e ↔
    (e.wc.status ≠ .success → e.kind = .clientSend ∧ e.wc.opcode = .send) := by
  obtain ⟨hkind, hgood⟩ := hm
  constructor
  · intro h hbad
    rcases hkind with ⟨hkind, -⟩ | ⟨hkind, -⟩
    · -- a receive is handed to `on_recv_resp`, or to the wrong function
      have hctx := h.context hbad
      rw [h.handler, hkind] at hctx
      exact absurd rfl hctx
    · have hop := handedTo_eq_iff.mp h.handler
      rw [hkind] at hop
      exact ⟨hkind, hop⟩
  · intro h
    have hop : e.wc.opcode = e.kind.opcode := by
      by_cases hst : e.wc.status = .success
      · exact hgood hst
      · rw [(h hst).2, (h hst).1]
        rfl
    refine ⟨handedTo_eq_iff.mpr hop, ?_, fun hbad hresp => ?_⟩
    · unfold onCompletion rdmaCqPoller
      rcases hkind with ⟨hkind, n, hid⟩ | ⟨hkind, -⟩
      · rw [hkind] at hop
        intro hfault
        simp [hop, WrKind.opcode, onRecvResp, hid, Outcome.bind_eq_fault] at hfault
      · rw [hkind] at hop
        simp [hop, WrKind.opcode]
    · have hresp : e.wc.opcode = WrKind.opcode .clientRecv := handedTo_eq_iff.mp hresp
      rw [(h hbad).2] at hresp
      cases hresp

end Client

namespace Shared
variable {s s' : Shared} {e : Event} {cfg : ServerCfg} {mem : Mem} {tr : List Event}

/-- Each completion says what was posted. -/
structure Sound (s : Shared) : Prop where
  server : ∀ ce ∈ s.server.cq.all, Server.Marked ce
  clients : ∀ c ∈ s.clients, ∀ ce ∈ c.cq.all, Client.Marked ce

theorem sound_init : Sound (init cfg mem) := ⟨nofun, nofun⟩

theorem sound_step (s : Shared) (e : Event) (s' : Shared) (hs : Sound s) (h : step s e = .ok s') :
    Sound s' := by
  refine ⟨?_, forall_clients_step (fun conn qp buf ce hce => ?_)
    (fun c mem e c' mem' hc _ hclient ce hce => ?_) hs.clients h⟩
  · cases e with
    | connect qp buf => obtain rfl := step_connect h; exact hs.server
    | server e =>
        obtain ⟨server, hserver, rfl⟩ := step_server h
        exact fun ce hce => (Server.marked_step hserver hce).elim (hs.server ce) id
    | client i e => obtain ⟨c, c', mem, -, -, -, rfl⟩ := step_client h; exact hs.server
  · cases hce
  · exact (Client.marked_step hclient hce).elim (hc ce) id

theorem dispatches_iff (hs : Sound s) : s.Dispatches e ↔ s.Reliable e := by
  cases e with
  | connect qp buf => exact Iff.rfl
  | server e =>
      cases e with
      | handle t =>
          refine forall_congr' fun p => forall_congr' fun hp => ?_
          exact Server.dispatched_iff_of_marked (hs.server p.1 (Completions.mem_of_next hp))
      | _ => exact Iff.rfl
  | client i e =>
      cases e with
      | handle t =>
          refine forall_congr' fun c => forall_congr' fun hc => forall_congr' fun p =>
            forall_congr' fun hp => ?_
          exact Client.dispatched_iff_of_marked
            (hs.clients c (List.mem_of_getElem? hc) p.1 (Completions.mem_of_next hp))
      | _ => exact Iff.rfl

/-- **Dispatch.**  The completions a run handles are dispatched by what was posted if and only if each
failed one has the opcode of its kind in it, none of them is of a client's receive, and those of the
server have the connection of their context there. -/
theorem dispatched_iff :
    Along step Dispatches (init cfg mem) tr ↔ Along step Reliable (init cfg mem) tr :=
  along_congr sound_step (fun _ _ => dispatches_iff) sound_init

/-- A receive of the server fails, and what is left in the opcode is that of a response. -/
def failedRecv : List Event :=
  [.server (.connectRequest 7), .server (.take 7),
    .server (.arriveFail 7 5 ⟨.recvRdmaWithImm, 0, 0, false⟩ (fun _ => 0) ⟨7, 0⟩),
    .server (.poll 0 1)]

/-- `on_recv_resp` takes the request context for a connection. -/
theorem failedRecv_misdispatched :
    ∃ s p, run step (init oneContext fun _ => 0) failedRecv = .ok s ∧ s.server.cq.next 0 = some p ∧
      p.1.kind = .serverRecv ∧ handedTo p.1.wc = .ok (some .onRecvResp) ∧
      step s (.server (.handle 0)) = .fault .wrIdType ∧
      ¬ Along step Dispatches (init oneContext fun _ => 0) (failedRecv ++ [.server (.handle 0)]) := by
  refine ⟨_, _, rfl, rfl, rfl, rfl, rfl, fun h => ?_⟩
  obtain ⟨hlast, -⟩ := (along_append.mp h).2 _ rfl
  have hhanded := handedTo_eq_iff.mp (hlast _ rfl).handler
  cases hhanded

end Shared

end RdmaRpc
