import RdmaRpc.Client.Answers
import RdmaRpc.Server.Slots
import RdmaRpc.Server.Connections

/-!
# Net — Framing

One request at the level of bytes: the client fills its buffer and calls `kv_rdma_send_req`
(`sendPayload`), the message lands in the slot of a context and `on_recv_req` calls the handler
(`receiveRequest`), and the handler answers from the slot it was given.

Sender and receiver agree (`Framed`) as long as two lengths survive the 32 bits they are cut to: the
one of the message, in `kv_rdma_send_req`, and the one of the posted receive (`framed_iff`).
-/

namespace RdmaRpc
open Lib

/-- The client fills its buffer and calls `kv_rdma_send_req`; what the NIC sends is the bytes of the
scatter entry and the immediate. -/
def Client.sendPayload (c : Client) (mem : Mem) (a : SendReq) (pick : Nat) (payload : List UInt8) :
    Outcome Fault (List UInt8 × BitVec 32) := do
  let mem := mem.write (kvRdmaGetReqBuf a.req) payload
  let (c, mem) ← kvRdmaSendReq c mem a pick false false
  let p ← Outcome.choose c.sends.getLast?
  return (mem.read p.wr.sge.addr p.wr.sge.length, p.wr.immData)

/-- A message of the queue pair `q` lands in the oldest receive, and `on_recv_req` handles its
completion. -/
def Server.receiveRequest (s : Server) (q : QpNum) (bytes : List UInt8) (imm : BitVec 32) :
    Outcome Fault (Server × HandlerCall) := do
  let (i, sge, s) ← takeRecv s
  Outcome.require (s.Fits sge bytes.length)
  let s := { s with mem := s.mem.write sge.addr bytes }
  let wc : Wc Nat := ⟨i, .success, .recv, bytes.length, imm, true, q⟩
  let s ← onRecvReqFind s wc
  onRecvReqCall s wc

namespace Net

/-- The context `i` of the server holds the header `h` and the key `rkey`, and `kv_rdma_make_resp`
targets them on the queue pair `q`. -/
structure Targets (s : Server) (q : QpNum) (i : Nat) (h : ReqHeader) (rkey : BitVec 32) : Prop where
  context : (s.requests i).header = h ∧ (s.requests i).respRkey = rkey
  resp : ∀ resp respSz, ∃ wr, s.kvRdmaMakeResp i resp respSz = .ok (q, wr) ∧
    wr.remoteAddr = h.respAddr ∧ wr.immData = h.reqId ∧ wr.rkey = rkey

/-- The payload goes through: the handler is called with its length, and finds its bytes in its slot;
the context holds what the client sent, whatever the handler writes in the slot. -/
def Framed (c : Client) (mem : Mem) (s : Server) (q : QpNum) (a : SendReq) (pick ele : Nat)
    (payload : List UInt8) : Prop :=
  ∃ bytes imm s' call,
    c.sendPayload mem a pick payload = .ok (bytes, imm) ∧
    s.receiveRequest q bytes imm = .ok (s', call) ∧
    call.reqSz = payload.length ∧ call.req = (s.requests call.reqH).mr ∧
    s'.mem.read (kvRdmaGetReqBuf call.req) payload.length = payload ∧
    ∀ mem', (∀ x, x < call.req.addr ∨ call.req.addr + call.req.length ≤ x → mem' x = s'.mem x) →
      Targets { s' with mem := mem' } q call.reqH (Client.header c.mp a ele) a.resp.rkey

section
variable {c : Client} {mem mem₀ : Mem} {s : Server} {q : QpNum} {a : SendReq} {pick ele : Nat}
  {payload bytes : List UInt8} {mp : KvMempool} {imm : BitVec 32} {cfg : ServerCfg}
  {tr : List Server.Event}

/-! ### The message -/

/-- What the NIC sends: as many bytes as the scatter entry can say. -/
theorem sendPayload_eq (hup : c.stage = .up) (hget : kvMempoolGet c.mp pick = some (ele, mp))
    (hsz : a.reqSz.toNat ≤ a.req.length) :
    c.sendPayload mem a pick payload = .ok
      (((mem.write (kvRdmaGetReqBuf a.req) payload).write a.req.addr
        (Client.header c.mp a ele).bytes).read a.req.addr (u32 (a.reqSz.toNat + headerSize)),
        a.resp.rkey) := by
  have hsend : Client.kvRdmaSendReq c (mem.write (kvRdmaGetReqBuf a.req) payload) a pick false false =
      .ok _ := Client.kvRdmaSendReq_posted false hup hget hsz
  have hheader : Client.header mp a ele = Client.header c.mp a ele := by
    rw [Client.header, Client.header, kvMempoolGetId, kvMempoolGetId, (kvMempoolGet_eq_some hget).2.1]
  simp [Client.sendPayload, hsend, hheader, Client.accept, Client.take, Client.sendWr,
    Outcome.choose]

/-- A message that fits the scatter entry is the header and the payload. -/
theorem sendPayload_framed (hup : c.stage = .up)
    (hget : kvMempoolGet c.mp pick = some (ele, mp)) (hsz : a.reqSz.toNat ≤ a.req.length)
    (hlen : a.reqSz.toNat = payload.length) (h32 : payload.length + headerSize < 2 ^ 32) :
    c.sendPayload mem a pick payload =
      .ok ((Client.header c.mp a ele).bytes ++ payload, a.resp.rkey) := by
  rw [sendPayload_eq hup hget hsz, hlen, u32_of_lt h32, Nat.add_comm payload.length,
    ← ReqHeader.length_bytes (Client.header c.mp a ele), Mem.read_write_write]
  rw [kvRdmaGetReqBuf, ReqHeader.length_bytes]

/-! ### The slot -/

/-- A posted receive is for the slot of its context, whatever length it has. -/
theorem posted_slot {wr : RecvWr Nat} (h : run Server.step (.init cfg mem₀) tr = .ok s)
    (hwr : wr ∈ s.srq) :
    ∃ sge, wr.sge = some sge ∧ sge.addr = (s.requests wr.wrId).mr.addr := by
  have hinv := Server.slotInv_run h
  have hr := hinv.started.hasRequests_of_mem (Server.mem_places_srq hwr)
  obtain ⟨l, hl⟩ := hinv.srq hr
  rw [hl, List.mem_append] at hwr
  rcases hwr with hwr | hwr
  · obtain ⟨i, -, rfl⟩ := List.mem_map.mp hwr
    exact ⟨_, rfl, by rw [show (Server.startupWr s.cfg i).wrId = i from rfl, hinv.mr hr]; rfl⟩
  · obtain ⟨i, -, rfl⟩ := List.mem_map.mp hwr
    exact ⟨_, rfl, by rw [show (Server.repostWr i _).wrId = i from rfl, hinv.mr hr]⟩

/-- `kv_rdma_make_resp` reads the context and nothing of the slot. -/
theorem targets_of {i : Nat} {cid : ConnId} {conn : RdmaConnection} {mr : IbvMr} {h : ReqHeader}
    {rkey : BitVec 32} (hi : s.requests i = ⟨some cid, rkey, mr, h⟩) (hconn : s.conns cid = some conn)
    (hqp : conn.qp = some q) (hq : q ∈ s.qps) : Targets s q i h rkey := by
  refine ⟨by simp [hi], fun resp respSz =>
    ⟨⟨i, .rdmaWriteWithImm, h.reqId, ⟨resp, u32 respSz, mr.lkey⟩, h.respAddr, rkey⟩, ?_, rfl, rfl, rfl⟩⟩
  simp [Server.kvRdmaMakeResp, hi, Outcome.deref, hconn, hqp, Outcome.check, hq]

/-- What `on_recv_req` does with a message longer than a header. -/
theorem receiveRequest_eq {i : Nat} {sge : IbvSge} {rest : List (RecvWr Nat)} {cid : ConnId}
    {conn : RdmaConnection} (imm : BitVec 32) (hsrq : s.srq = ⟨i, some sge⟩ :: rest)
    (hfit : s.Fits sge bytes.length) (hlen : headerSize < bytes.length)
    (hlook : s.connections.lookup q = some cid) (hconn : s.conns cid = some conn)
    (hsrv : conn.isServer = true) :
    s.receiveRequest q bytes imm = .ok
      ({ s with
        srq := rest
        mem := s.mem.write sge.addr bytes
        requests := Function.update s.requests i
          { conn := some cid, respRkey := imm, mr := (s.requests i).mr,
            header := .ofBytes ((s.mem.write sge.addr bytes).read (s.requests i).mr.addr headerSize) } },
      ⟨conn.handler, i, (s.requests i).mr, u32 (bytes.length - headerSize), conn.arg⟩) := by
  have htake : s.takeRecv = .ok (i, sge, { s with srq := rest }) :=
    Server.takeRecv_eq_ok.mpr ⟨rest, hsrq, rfl⟩
  have hfit' : Server.Fits { s with srq := rest } sge bytes.length := hfit
  simp [Server.receiveRequest, htake, Outcome.require, hfit', Server.onRecvReqFind, Outcome.check,
    hlen, hlook, Server.onRecvReqCall, Outcome.deref, hconn, hsrv]

/-- A message no longer than a header ends the process. -/
theorem receiveRequest_short (h : bytes.length ≤ headerSize) {s' : Server} {call : HandlerCall} :
    s.receiveRequest q bytes imm ≠ .ok (s', call) := by
  intro hok
  obtain ⟨⟨i, sge, s₁⟩, -, hok⟩ := Outcome.bind_eq_ok.mp hok
  obtain ⟨_, -, hok⟩ := Outcome.bind_eq_ok.mp hok
  obtain ⟨s₂, hfind, -⟩ := Outcome.bind_eq_ok.mp hok
  obtain ⟨_, hlen, -⟩ := Outcome.bind_eq_ok.mp hfind
  exact absurd (Outcome.check_eq_ok.mp hlen) (Nat.not_lt.mpr h)

/-- A message longer than the posted receive, or than what is left of the region, does not complete
well. -/
theorem receiveRequest_fits {wr : RecvWr Nat} {sge : IbvSge} {rest : List (RecvWr Nat)} {s' : Server}
    {call : HandlerCall} (hsrq : s.srq = wr :: rest) (hsge : wr.sge = some sge)
    (h : s.receiveRequest q bytes imm = .ok (s', call)) : s.Fits sge bytes.length := by
  obtain ⟨⟨i, sge', s₁⟩, htake, h⟩ := Outcome.bind_eq_ok.mp h
  obtain ⟨_, hfit, -⟩ := Outcome.bind_eq_ok.mp h
  obtain ⟨rest', hsrq', rfl⟩ := Server.takeRecv_eq_ok.mp htake
  rw [hsrq] at hsrq'
  cases hsrq'
  obtain rfl : sge' = sge := Option.some.inj hsge
  exact Outcome.require_eq_ok.mp hfit

/-! ### The exchange -/

/-- A message whose length wraps around is shorter than a header. -/
theorem framed_small (hup : c.stage = .up) (hget : kvMempoolGet c.mp pick = some (ele, mp))
    (hsz : a.reqSz.toNat ≤ a.req.length) (hlen : a.reqSz.toNat = payload.length)
    (h : Framed c mem s q a pick ele payload) : payload.length + headerSize < 2 ^ 32 := by
  obtain ⟨bytes, imm, s', call, hsend, hrecv, -⟩ := h
  rw [sendPayload_eq hup hget hsz, Outcome.ok.injEq, Prod.mk.injEq] at hsend
  obtain ⟨rfl, -⟩ := hsend
  by_contra hbig
  refine absurd hrecv (receiveRequest_short ?_)
  have h32 := a.reqSz.isLt
  rw [Mem.length_read, hlen, u32]
  simp only [headerSize] at *
  omega

theorem framed_fits {wr : RecvWr Nat} {sge : IbvSge} {rest : List (RecvWr Nat)}
    (hup : c.stage = .up) (hget : kvMempoolGet c.mp pick = some (ele, mp))
    (hsz : a.reqSz.toNat ≤ a.req.length) (hlen : a.reqSz.toNat = payload.length)
    (hsmall : payload.length + headerSize < 2 ^ 32) (hsrq : s.srq = wr :: rest)
    (hsge : wr.sge = some sge) (h : Framed c mem s q a pick ele payload) :
    s.Fits sge (payload.length + headerSize) := by
  obtain ⟨bytes, imm, s', call, hsend, hrecv, -⟩ := h
  have hfit := receiveRequest_fits hsrq hsge hrecv
  rw [sendPayload_framed hup hget hsz hlen hsmall, Outcome.ok.injEq, Prod.mk.injEq] at hsend
  obtain ⟨rfl, -⟩ := hsend
  rwa [List.length_append, ReqHeader.length_bytes, Nat.add_comm] at hfit

/-- **A request goes through byte by byte** if and only if the length of its message fits the 32 bits
of the scatter entry, and the message the receive that is posted for it. -/
theorem framed_iff {wr : RecvWr Nat} {sge : IbvSge} {rest : List (RecvWr Nat)}
    {cid : ConnId} (hrun : run Server.step (.init cfg mem₀) tr = .ok s) (hq : (q, cid) ∈ s.connections)
    (hsrq : s.srq = wr :: rest) (hsge : wr.sge = some sge) (hup : c.stage = .up)
    (hget : kvMempoolGet c.mp pick = some (ele, mp)) (hlen : a.reqSz.toNat = payload.length)
    (hpos : 1 ≤ payload.length) (hreq : payload.length + headerSize ≤ a.req.length)
    (hslot : payload.length + headerSize ≤ (s.requests wr.wrId).mr.length) :
    Framed c mem s q a pick ele payload ↔
      payload.length + headerSize < 2 ^ 32 ∧ s.Fits sge (payload.length + headerSize) := by
  have hsz : a.reqSz.toNat ≤ a.req.length := by omega
  constructor
  · intro h
    have hsmall := framed_small hup hget hsz hlen h
    exact ⟨hsmall, framed_fits hup hget hsz hlen hsmall hsrq hsge h⟩
  · rintro ⟨hsmall, hfit⟩
    obtain ⟨i, sge'⟩ := wr
    obtain rfl : sge' = some sge := hsge
    obtain ⟨sge', hsge', haddr⟩ := posted_slot hrun (by rw [hsrq]; exact List.mem_cons_self)
    obtain rfl : sge = sge' := Option.some.inj hsge'
    have hwired := Server.wired_run hrun
    obtain ⟨conn, hconn, hqp, hsrv⟩ := hwired.exists_record hq
    have hlook := hwired.lookup_eq_some.mpr hq
    have hbytes : ((Client.header c.mp a ele).bytes ++ payload).length = payload.length + headerSize := by
      rw [List.length_append, ReqHeader.length_bytes, Nat.add_comm]
    have hrecv := receiveRequest_eq a.resp.rkey hsrq (hbytes ▸ hfit)
      (by rw [hbytes]; omega) hlook hconn hsrv
    obtain ⟨hhead, hbody⟩ := s.mem.read_write_parts sge.addr (Client.header c.mp a ele).bytes
      payload
    rw [ReqHeader.length_bytes] at hhead hbody
    have haddr : sge.addr = (s.requests i).mr.addr := haddr
    refine ⟨_, _, _, _, sendPayload_framed hup hget hsz hlen hsmall, hrecv, ?_, rfl, ?_, ?_⟩
    · show u32 _ = _
      rw [hbytes, Nat.add_sub_cancel]
      exact u32_of_lt (by omega)
    · show Mem.read _ (kvRdmaGetReqBuf (s.requests i).mr) _ = _
      rw [kvRdmaGetReqBuf, ← haddr]
      exact hbody
    · intro mem' _
      have hctx : ReqHeader.ofBytes ((s.mem.write sge.addr
          ((Client.header c.mp a ele).bytes ++ payload)).read (s.requests i).mr.addr headerSize) =
          Client.header c.mp a ele := by
        rw [← haddr, hhead, ReqHeader.ofBytes_bytes]
      exact targets_of ((Function.update_self ..).trans (by rw [hctx])) hconn hqp (hwired.mem_qps hq)

end

/-! ### Three requests -/

/-- A server with its first connection. -/
theorem exists_connected (cfg : ServerCfg) (hpos : 0 < cfg.conReqNum) :
    ∃ s rest, run Server.step (.init cfg fun _ => 0) [.connectRequest 7] = .ok s ∧
      (7, 0) ∈ s.connections ∧ s.srq = Server.startupWr cfg 0 :: rest ∧
      (s.requests 0).mr = Server.slot cfg 0 ∧ s.mrs = Server.slots cfg := by
  obtain ⟨k, hk⟩ := Nat.exists_eq_succ_of_ne_zero (Nat.ne_of_gt hpos)
  refine ⟨_, ((List.range k).map Nat.succ).map (Server.startupWr cfg), rfl, List.mem_cons_self, ?_,
    rfl, rfl⟩
  show (List.range cfg.conReqNum).map (Server.startupWr cfg) = _
  rw [hk, Nat.succ_eq_add_one, List.range_succ_eq_map]
  rfl

/-- Four bytes, in a slot for four. -/
theorem framed_smallReq :
    ∃ s, run Server.step (.init oneContext fun _ => 0) [.connectRequest 7] = .ok s ∧
      Framed (.init 0 7 8192) (fun _ => 0) s 7 Client.smallReq 0 8192 [1, 2, 3, 4] := by
  obtain ⟨s, rest, hrun, hq, hsrq, hmr, hmrs⟩ := exists_connected oneContext (by decide)
  refine ⟨s, hrun, (framed_iff hrun hq hsrq rfl rfl (Client.get_init 0 7 8192) rfl (by decide)
    (by decide) ?_).mpr ⟨by decide, ?_⟩⟩
  · rw [show (Server.startupWr oneContext 0).wrId = 0 from rfl, hmr]
    decide
  · simp only [Server.Fits, Server.regionEnd, hmrs]
    decide

/-- A request for the whole of a buffer of 4 GiB. -/
def hugeReq : SendReq :=
  ⟨⟨4096, 2 ^ 32, 0, 0⟩, .ofNat 32 (2 ^ 32 - 12), ⟨0, 64, 0, 5⟩, none, some 1, 0⟩

/-- The length of a message of 4 GiB is cut to nothing, and so is the one of the receive posted for
the first of 4096 slots of 1 MiB. -/
theorem requests_cut :
    (∃ s, run Server.step (.init Server.hugeSlot fun _ => 0) [.connectRequest 7] = .ok s ∧
      (7, 0) ∈ s.connections ∧ (s.requests 0).mr.length = 2 ^ 32 ∧
      ¬ Framed (.init 0 7 8192) (fun _ => 0) s 7 hugeReq 0 8192 (List.replicate (2 ^ 32 - 12) 0)) ∧
    ∃ s, run Server.step (.init Server.manySlots fun _ => 0) [.connectRequest 7] = .ok s ∧
      (7, 0) ∈ s.connections ∧ (s.requests 0).mr.length = 2 ^ 20 ∧
      ¬ Framed (.init 0 7 8192) (fun _ => 0) s 7 Client.smallReq 0 8192 [1, 2, 3, 4] := by
  constructor
  · obtain ⟨s, rest, hrun, hq, hsrq, hmr, -⟩ := exists_connected Server.hugeSlot (by decide)
    refine ⟨s, hrun, hq, by rw [hmr, Server.slot_length (by decide), Server.slotSz_eq]; rfl, fun h => ?_⟩
    have hsmall := framed_small rfl (Client.get_init 0 7 8192) (by decide) List.length_replicate.symm h
    rw [List.length_replicate] at hsmall
    exact absurd hsmall (by decide)
  · obtain ⟨s, rest, hrun, hq, hsrq, hmr, -⟩ := exists_connected Server.manySlots (by decide)
    refine ⟨s, hrun, hq, by rw [hmr, Server.slot_length (by decide), Server.slotSz_eq]; rfl, fun h => ?_⟩
    have hfit := framed_fits rfl (Client.get_init 0 7 8192) (by decide) rfl (by decide) hsrq rfl h
    exact absurd hfit.1 (by decide)

end Net

end RdmaRpc
