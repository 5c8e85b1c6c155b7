import RdmaRpc.Client.Code

/-!
# Client — Machine

A client connection and what can happen to it: calls of `kv_rdma_send_req`, the NIC sending a
request and completing it, responses delivered, failed completions, polls, and a disconnect, which
is taken in three steps (`run_onDisconnect`).  The state is the connection with the memory of its
host, where `kv_rdma_send_req` writes the header of the request.
-/

namespace RdmaRpc
open Lib

namespace Client

inductive Event where
  /-- a call of `kv_rdma_send_req` -/
  | sendReq (a : SendReq) (pick : Nat) (refuseRecv refuseSend : Bool)
  /-- the NIC sends the oldest request -/
  | transmit
  /-- the oldest request sent completes -/
  | sendDone (en : Ending)
  /-- a request fails before it is sent -/
  | sendFail (code : Nat) (fields : WcFields)
  /-- the response of the call `k` arrives, with `imm` -/
  | deliver (k : Nat) (imm : BitVec 32) (byteLen : Nat)
  /-- a posted receive fails -/
  | recvFail (code : Nat) (fields : WcFields)
  /-- thread `t` polls `k` completions -/
  | poll (t : Thread) (k : Nat)
  /-- thread `t` handles its next completion -/
  | handle (t : Thread)
  /-- thread `t` puts the element back -/
  | put (t : Thread)
  /-- `RDMA_CM_EVENT_DISCONNECTED`, to `kv_mempool_free` -/
  | disconnected
  /-- `on_disconnect` goes on with `rdma_destroy_qp`; `drop` says whether the completions not yet
  polled go too -/
  | destroyQp (drop : Bool)
  /-- `on_disconnect` goes on to its end -/
  | freeConn

/-- The fields of the completion of a request. -/
def sendFields : WcFields := ⟨.send, 0, 0, false⟩

/-- What happens to the connection, apart from the calls. -/
def react (c : Client) : Event → Outcome Fault Client
  | .sendReq .. => .blocked
  | .transmit =>
    match c.sends with
    | [] => .blocked
    | p :: sends => .ok { c with sends, sent := c.sent ++ [p] }
  | .sendDone en =>
    match c.sent with
    | [] => .blocked
    | p :: sent => .ok { c with
        sent
        cq := c.cq.push ⟨en.wc (.ctx p.wr.wrId) c.qp sendFields, .clientSend, ⟨c.qp, p.call⟩⟩ }
  | .sendFail code fields =>
    match c.sends with
    | [] => .blocked
    | p :: sends => .ok { c with
        sends
        cq := c.cq.push
          ⟨(Ending.bad code fields).wc (.ctx p.wr.wrId) c.qp fields, .clientSend, ⟨c.qp, p.call⟩⟩ }
  | .deliver k imm byteLen => do
    Outcome.require (0 < c.recvs)
    let wc : Wc ClientWrId :=
      ⟨.conn c.conn, .success, .recvRdmaWithImm, byteLen, imm, true, c.qp⟩
    return { c with
      recvs := c.recvs - 1
      delivered := c.delivered ++ [k]
      cq := c.cq.push ⟨wc, .clientRecv, ⟨c.qp, k⟩⟩ }
  | .recvFail code fields => do
    Outcome.require (0 < c.recvs)
    return { c with
      recvs := c.recvs - 1
      cq := c.cq.push
        ⟨(Ending.bad code fields).wc (.conn c.conn) c.qp fields, .clientRecv, ⟨c.qp, 0⟩⟩ }
  | .poll t k => do
    Outcome.require (Keyed.queue t c.cq.polled = [] ∧ Keyed.queue t c.returning = [] ∧
      0 < k ∧ k ≤ maxEntriesPerPoll ∧ k ≤ c.cq.queue.length)
    return { c with cq := c.cq.poll t k }
  | .handle t => do
    Outcome.require (Keyed.queue t c.returning = [])
    let (e, cq) ← Outcome.choose (c.cq.next t)
    onCompletion { c with cq } t e.wc
  | .put t => do
    let (ele, returning) ← Outcome.choose (Keyed.pop t c.returning)
    onRecvRespPut { c with returning } ele
  | .disconnected => do
    Outcome.require (c.stage = .up)
    onDisconnectData c
  | .destroyQp drop => do
    Outcome.require (c.stage = .poolFreed)
    return onDisconnectQp c drop
  | .freeConn => do
    Outcome.require (c.stage = .qpDestroyed)
    onDisconnectConn c

def step (s : Client × Mem) : Event → Outcome Fault (Client × Mem)
  | .sendReq a pick refuseRecv refuseSend => kvRdmaSendReq s.1 s.2 a pick refuseRecv refuseSend
  | e => do
    let c ← react s.1 e
    return (c, s.2)

/-- The accepted calls. -/
def accepted (c : Client) : List Nat :=
  (List.range c.calls.length).filter fun k => (c.calls[k]?).any Call.accepted

/-! ### What each event does -/

section
variable {c c' : Client} {s s' : Client × Mem} {t : Thread}

/-- The connection with the element `ele` taken for the call. -/
def take (c : Client) (a : SendReq) (ele : Nat) (mp : KvMempool) : Client :=
  { c with
    mp
    ctxs := Function.update c.ctxs ele (some ⟨c.conn, a.cb, a.cbArg, a.req, a.resp⟩)
    owner := Function.update c.owner ele c.calls.length }

/-- The connection with both posts of the call accepted. -/
def accept (c : Client) (a : SendReq) (ele : Nat) : Client :=
  { c with
    recvs := c.recvs + 1
    sends := c.sends ++ [⟨sendWr a ele, c.calls.length⟩]
    calls := c.calls ++ [⟨a, ele, true⟩] }

/-- `kv_rdma_send_req` takes an element, writes the header, and posts; a refused post is never
taken back. -/
theorem kvRdmaSendReq_eq_ok {mem mem' : Mem} {a : SendReq} {pick : Nat} {refuseRecv refuseSend : Bool}
    (h : kvRdmaSendReq c mem a pick refuseRecv refuseSend = .ok (c', mem')) :
    c.stage = .up ∧ a.reqSz.toNat ≤ a.req.length ∧ ∃ ele mp, kvMempoolGet c.mp pick = some (ele, mp) ∧
      mem' = mem.write a.req.addr (header mp a ele).bytes ∧
      (refuseRecv = true ∧ c' = (c.take a ele mp).sendReqFail a ele ∨
        refuseRecv = false ∧ refuseSend = true ∧
          c' = { c.take a ele mp with recvs := c.recvs + 1 }.sendReqFail a ele ∨
        refuseRecv = false ∧ refuseSend = false ∧ c' = (c.take a ele mp).accept a ele) := by
  simp only [kvRdmaSendReq, Outcome.bind_eq_ok, Outcome.check_eq_ok, Outcome.deref_eq_ok,
    Prod.exists] at h
  obtain ⟨-, -, -, hup, ele, mp, hget, -, hsz, h⟩ := h
  refine ⟨hup, hsz, ele, mp, hget, ?_⟩
  cases refuseRecv <;> cases refuseSend <;>
    simp only [Outcome.pure_eq, Outcome.ok.injEq, Prod.mk.injEq, if_true, if_false,
      Bool.false_eq_true] at h <;>
    obtain ⟨rfl, rfl⟩ := h
  · exact ⟨rfl, .inr (.inr ⟨rfl, rfl, rfl⟩)⟩
  · exact ⟨rfl, .inr (.inl ⟨rfl, rfl, rfl⟩)⟩
  · exact ⟨rfl, .inl ⟨rfl, rfl⟩⟩
  · exact ⟨rfl, .inl ⟨rfl, rfl⟩⟩

/-- A call whose receive is accepted. -/
theorem kvRdmaSendReq_posted {mem : Mem} {a : SendReq} {pick ele : Nat} {mp : KvMempool}
    (refuseSend : Bool) (hup : c.stage = .up) (hget : kvMempoolGet c.mp pick = some (ele, mp))
    (hsz : a.reqSz.toNat ≤ a.req.length) :
    kvRdmaSendReq c mem a pick false refuseSend = .ok
      (if refuseSend then { c.take a ele mp with recvs := c.recvs + 1 }.sendReqFail a ele
        else (c.take a ele mp).accept a ele, mem.write a.req.addr (header mp a ele).bytes) := by
  have hcheck : ∀ {p : Prop} [Decidable p] {f : Fault}, p → Outcome.check p f = .ok () :=
    fun hp => if_pos hp
  have hrec : c.stage ≠ .freed := by rw [hup]; decide
  simp only [kvRdmaSendReq, hcheck hrec, hcheck hup, hget, hcheck hsz, Outcome.deref,
    Outcome.ok_bind]
  cases refuseSend <;> rfl

/-- A call aborts on a connection that is gone, on an empty pool, and on a request longer than its
region. -/
theorem kvRdmaSendReq_eq_fault {mem : Mem} {a : SendReq} {pick : Nat} {rr rs : Bool} {f : Fault}
    (h : kvRdmaSendReq c mem a pick rr rs = .fault f) :
    c.stage ≠ .up ∨ c.mp.free = [] ∨ ¬ a.reqSz.toNat ≤ a.req.length := by
  simp only [kvRdmaSendReq, Outcome.bind_eq_fault, Outcome.check_eq_fault, Outcome.deref_eq_fault,
    kvMempoolGet_eq_none] at h
  rcases h with ⟨hrec, -⟩ | ⟨-, -, ⟨hup, -⟩ | ⟨-, -, ⟨hfree, -⟩ | ⟨p, -, ⟨hsz, -⟩ | ⟨-, -, h⟩⟩⟩⟩
  · exact .inl fun hup => hrec (by rw [hup]; decide)
  · exact .inl hup
  · exact .inr (.inl hfree)
  · exact .inr (.inr hsz)
  · split at h
    · cases h
    · split at h <;> cases h

/-- A step is a call, or leaves the memory. -/
theorem step_cases {e : Event} (h : step s e = .ok s') :
    (∃ a pick rr rs, e = .sendReq a pick rr rs ∧ kvRdmaSendReq s.1 s.2 a pick rr rs = .ok s') ∨
      react s.1 e = .ok s'.1 ∧ s'.2 = s.2 := by
  have hreact : (react s.1 e >>= fun c => Outcome.ok (c, s.2)) = .ok s' →
      react s.1 e = .ok s'.1 ∧ s'.2 = s.2 := by
    intro h
    obtain ⟨c, hc, hs⟩ := Outcome.bind_eq_ok.mp h
    cases hs
    exact ⟨hc, rfl⟩
  cases e with
  | sendReq a pick rr rs => exact .inl ⟨a, pick, rr, rs, rfl, h⟩
  | _ => exact .inr (hreact h)

theorem react_transmit (h : react c .transmit = .ok c') :
    ∃ p sends, c.sends = p :: sends ∧ c' = { c with sends, sent := c.sent ++ [p] } := by
  simp only [react] at h
  split at h <;> cases h
  exact ⟨_, _, ‹_›, rfl⟩

theorem react_sendDone {en : Ending} (h : react c (.sendDone en) = .ok c') :
    ∃ p sent, c.sent = p :: sent ∧ c' = { c with
      sent
      cq := c.cq.push ⟨en.wc (.ctx p.wr.wrId) c.qp sendFields, .clientSend, ⟨c.qp, p.call⟩⟩ } := by
  simp only [react] at h
  split at h <;> cases h
  exact ⟨_, _, ‹_›, rfl⟩

theorem react_sendFail {code : Nat} {fields : WcFields} (h : react c (.sendFail code fields) = .ok c') :
    ∃ p sends, c.sends = p :: sends ∧ c' = { c with
      sends
      cq := c.cq.push
        ⟨(Ending.bad code fields).wc (.ctx p.wr.wrId) c.qp fields, .clientSend, ⟨c.qp, p.call⟩⟩ } := by
  simp only [react] at h
  split at h <;> cases h
  exact ⟨_, _, ‹_›, rfl⟩

theorem react_deliver {k : Nat} {imm : BitVec 32} {byteLen : Nat} :
    react c (.deliver k imm byteLen) = .ok c' ↔ 0 < c.recvs ∧ c' = { c with
      recvs := c.recvs - 1
      delivered := c.delivered ++ [k]
      cq := c.cq.push ⟨⟨.conn c.conn, .success, .recvRdmaWithImm, byteLen, imm, true, c.qp⟩,
        .clientRecv, ⟨c.qp, k⟩⟩ } := by
  simp only [react, Outcome.bind_eq_ok, Outcome.require_eq_ok, Outcome.pure_eq, Outcome.ok.injEq,
    eq_comm (a := c')]
  constructor
  · rintro ⟨-, h⟩
    exact h
  · exact fun h => ⟨(), h⟩

theorem react_recvFail {code : Nat} {fields : WcFields} (h : react c (.recvFail code fields) = .ok c') :
    0 < c.recvs ∧ c' = { c with
      recvs := c.recvs - 1
      cq := c.cq.push
        ⟨(Ending.bad code fields).wc (.conn c.conn) c.qp fields, .clientRecv, ⟨c.qp, 0⟩⟩ } := by
  simp only [react, Outcome.bind_eq_ok, Outcome.require_eq_ok, Outcome.pure_eq,
    Outcome.ok.injEq] at h
  obtain ⟨-, hr, rfl⟩ := h
  exact ⟨hr, rfl⟩

theorem react_poll {k : Nat} (h : react c (.poll t k) = .ok c') : c' = { c with cq := c.cq.poll t k } := by
  simp only [react, Outcome.bind_eq_ok, Outcome.pure_eq, Outcome.ok.injEq] at h
  obtain ⟨-, -, rfl⟩ := h
  rfl

/-- What the handling of a completion does: it calls the callback of the context the immediate
names, or nothing. -/
theorem onCompletion_eq_ok {wc : Wc ClientWrId} (h : onCompletion c t wc = .ok c') :
    (wc.opcode = .recvRdmaWithImm ∧ ∃ n ctx cb, wc.wrId = .conn n ∧ c.stage = .up ∧
      wc.withImm = true ∧ c.ctxs (kvMempoolGetEle c.mp wc.immData.toInt) = some ctx ∧
      ctx.cb = some cb ∧
      c' = { c with
        called := c.called ++ [⟨cb, ctx.conn, wc.status = .success, ctx.req, ctx.resp, ctx.cbArg,
          c.owner (kvMempoolGetEle c.mp wc.immData.toInt)⟩]
        returning := c.returning ++ [(t, kvMempoolGetEle c.mp wc.immData.toInt)] }) ∨
    (wc.opcode ≠ .recvRdmaWithImm ∧ c' = c) := by
  unfold onCompletion rdmaCqPoller at h
  cases hop : wc.opcode with
  | recvRdmaWithImm =>
      refine .inl ⟨rfl, ?_⟩
      cases hid : wc.wrId with
      | ctx ele => simp only [hop, onRecvResp, hid] at h; cases h
      | conn n =>
          simp only [hop, onRecvResp, hid, Outcome.bind_eq_ok, Outcome.check_eq_ok,
            Outcome.deref_eq_ok, Outcome.pure_eq, Outcome.ok.injEq] at h
          obtain ⟨-, -, -, himm, -, hup, ctx, hctx, cb, hcb, rfl⟩ := h
          exact ⟨n, ctx, cb, rfl, hup, himm, hctx, hcb, rfl⟩
  | recv => simp [hop] at h
  | rdmaWrite => simp [hop] at h
  | send => simp only [hop, Outcome.ok.injEq] at h; exact .inr ⟨by simp, h.symm⟩
  | other code => simp only [hop, Outcome.ok.injEq] at h; exact .inr ⟨by simp, h.symm⟩

theorem onCompletion_ne_blocked {wc : Wc ClientWrId} : onCompletion c t wc ≠ .blocked := by
  refine rdmaCqPoller_ne_blocked nofun (fun h => ?_) nofun nofun nofun
  unfold onRecvResp at h
  split at h
  · cases h
  · simp [Outcome.bind_eq_blocked] at h

/-- The handling of a completion takes it from its thread; a response calls a callback. -/
theorem react_handle (h : react c (.handle t) = .ok c') :
    ∃ e cq, c.cq.next t = some (e, cq) ∧
      ((e.wc.opcode = .recvRdmaWithImm ∧ (∃ n, e.wc.wrId = .conn n) ∧ c.stage = .up ∧
        e.wc.withImm = true ∧ ∃ ctx cb,
          c.ctxs (kvMempoolGetEle c.mp e.wc.immData.toInt) = some ctx ∧ ctx.cb = some cb ∧
          c' = { c with
            cq
            called := c.called ++ [⟨cb, ctx.conn, e.wc.status = .success, ctx.req, ctx.resp,
              ctx.cbArg, c.owner (kvMempoolGetEle c.mp e.wc.immData.toInt)⟩]
            returning := c.returning ++ [(t, kvMempoolGetEle c.mp e.wc.immData.toInt)] }) ∨
        e.wc.opcode ≠ .recvRdmaWithImm ∧ c' = { c with cq }) := by
  simp only [react, Outcome.bind_eq_ok, Outcome.choose_eq_ok, Prod.exists] at h
  obtain ⟨-, -, e, cq, he, h⟩ := h
  refine ⟨e, cq, he, ?_⟩
  rcases onCompletion_eq_ok h with ⟨hop, n, ctx, cb, hid, hup, himm, hctx, hcb, rfl⟩ | ⟨hop, rfl⟩
  · exact .inl ⟨hop, ⟨n, hid⟩, hup, himm, ctx, cb, hctx, hcb, rfl⟩
  · exact .inr ⟨hop, rfl⟩

theorem react_put (h : react c (.put t) = .ok c') :
    ∃ ele returning, Keyed.pop t c.returning = some (ele, returning) ∧ c.stage = .up ∧
      c' = { c with returning, mp := kvMempoolPut c.mp ele } := by
  simp only [react, onRecvRespPut, Outcome.bind_eq_ok, Outcome.choose_eq_ok, Outcome.check_eq_ok,
    Outcome.pure_eq, Outcome.ok.injEq, Prod.exists] at h
  obtain ⟨ele, returning, hp, -, -, -, hup, rfl⟩ := h
  exact ⟨ele, returning, hp, hup, rfl⟩

theorem react_disconnected (h : react c .disconnected = .ok c') :
    c.stage = .up ∧ c' = { c with stage := .poolFreed } := by
  simp only [react, onDisconnectData, Outcome.bind_eq_ok, Outcome.require_eq_ok,
    Outcome.check_eq_ok, Outcome.pure_eq, Outcome.ok.injEq] at h
  obtain ⟨-, hup, -, -, rfl⟩ := h
  exact ⟨hup, rfl⟩

theorem react_destroyQp {drop : Bool} (h : react c (.destroyQp drop) = .ok c') :
    c.stage = .poolFreed ∧ c' = { c with
      stage := .qpDestroyed
      recvs := 0
      sends := []
      sent := []
      cq := if drop then { c.cq with queue := [] } else c.cq } := by
  simp only [react, Outcome.bind_eq_ok, Outcome.require_eq_ok, Outcome.pure_eq,
    Outcome.ok.injEq] at h
  obtain ⟨-, hstage, rfl⟩ := h
  exact ⟨hstage, rfl⟩

theorem react_freeConn (h : react c .freeConn = .ok c') :
    c.stage = .qpDestroyed ∧ c' = { c with stage := .freed } := by
  simp only [react, onDisconnectConn, Outcome.bind_eq_ok, Outcome.require_eq_ok,
    Outcome.check_eq_ok, Outcome.pure_eq, Outcome.ok.injEq] at h
  obtain ⟨-, hstage, -, -, rfl⟩ := h
  exact ⟨hstage, rfl⟩

/-- The three steps of a disconnect in a row are `on_disconnect`. -/
theorem run_onDisconnect {drop : Bool} (hup : c.stage = .up) :
    run react c [.disconnected, .destroyQp drop, .freeConn] = onDisconnect c drop := by
  simp [run, react, onDisconnect, onDisconnectData, onDisconnectQp, onDisconnectConn,
    Outcome.require, Outcome.check, hup]

end

end Client

end RdmaRpc
