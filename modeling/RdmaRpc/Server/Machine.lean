import RdmaRpc.Server.Code

/-!
# Server — Machine

The server and what can happen to it: CM events, messages arriving, polls of the completion
queue, answers of the handler, and the NIC executing and completing response writes.  The events
carry the choices of the environment; `step` takes one.

A message takes the oldest receive of the shared queue with its first packet (`take`).  From then on
it lands there packet by packet (`place`), as far as it fits both the posted scatter entry and the
registered region, and completes with its last packet (`arrive`); or the receive completes with an
error, having changed unknown bytes within both (`arriveFail`).  The packets of the queue pairs come
in any order among each other, and one queue pair has one message in progress at a time.  A failed
completion carries `wr_id`, `status` and `qp_num`, and whatever in the other fields.

`on_disconnect` is taken in three steps, and nothing else of the CM thread comes between them
(`run_onDisconnect`).  That this thread polls completions too is not used.
-/

namespace RdmaRpc
open Lib

namespace Server

inductive Event where
  /-- `RDMA_CM_EVENT_CONNECT_REQUEST`; the new queue pair gets the number `q` -/
  | connectRequest (q : QpNum)
  /-- `RDMA_CM_EVENT_ESTABLISHED` -/
  | established (c : ConnId)
  /-- `RDMA_CM_EVENT_DISCONNECTED`, to the unlock -/
  | disconnected (c : ConnId)
  /-- `on_disconnect` goes on with `rdma_destroy_qp`; `drop` says whether the completions not yet
  polled go too -/
  | destroyQp (drop : Bool)
  /-- `on_disconnect` goes on to its end -/
  | freeConn
  /-- a message of `q` takes a receive -/
  | take (q : QpNum)
  /-- the next bytes of the message in progress land -/
  | place (q : QpNum) (bytes : List UInt8)
  /-- the message in progress has landed -/
  | arrive (q : QpNum) (imm : Option (BitVec 32)) (origin : Origin)
  | arriveFail (q : QpNum) (code : Nat) (fields : WcFields) (junk : Mem) (origin : Origin)
  /-- thread `t` polls `k` completions -/
  | poll (t : Thread) (k : Nat)
  /-- thread `t` handles its next completion -/
  | handle (t : Thread)
  /-- thread `t` goes on after the unlock of `on_recv_req` -/
  | dispatch (t : Thread)
  /-- the handler writes in the slot of a request it holds -/
  | handlerWrite (i : Nat) (addr : Nat) (bytes : List UInt8)
  /-- the handler calls `kv_rdma_make_resp` -/
  | answer (i : Nat) (resp respSz : Nat)
  /-- the NIC executes the oldest response write of `q` -/
  | land (q : QpNum)
  /-- the oldest executed response write of `q` completes -/
  | writeDone (q : QpNum) (en : Ending)
  /-- a response write of `q` fails before it is executed -/
  | flush (q : QpNum) (code : Nat) (fields : WcFields)

/-- The fields of the completion of a response write. -/
def writeFields : WcFields := ⟨.rdmaWrite, 0, 0, false⟩

/-- The end of the registered slots. -/
def regionEnd (s : Server) : Nat := s.mrs.mr.addr + s.mrs.mr.length

/-- A message of `n` bytes fits a scatter entry and the region. -/
def Fits (s : Server) (sge : IbvSge) (n : Nat) : Prop :=
  n ≤ sge.length ∧ s.mrs.mr.addr ≤ sge.addr ∧ sge.addr + n ≤ s.regionEnd

instance (s : Server) (sge : IbvSge) (n : Nat) : Decidable (s.Fits sge n) :=
  inferInstanceAs (Decidable (_ ∧ _))

/-- The receive the next message takes. -/
def takeRecv (s : Server) : Outcome Fault (Nat × IbvSge × Server) :=
  match s.srq with
  | [] => .blocked
  | wr :: srq => do
    let sge ← Outcome.choose wr.sge
    return (wr.wrId, sge, { s with srq })

def step (s : Server) : Event → Outcome Fault Server
  | .connectRequest q => do
    Outcome.require (q ∉ s.qps ∧ s.leaving = none)
    return onConnectRequest s q
  | .established c => do
    Outcome.require ((s.conns c).isSome ∧ s.leaving = none)
    onEstablished s c
  | .disconnected c => do
    Outcome.require ((s.conns c).isSome ∧ s.leaving = none)
    let s ← onDisconnectData s c
    return { s with leaving := some (.destroyQp c) }
  | .destroyQp drop =>
    match s.leaving with
    | some (.destroyQp c) => do
      let s ← onDisconnectQp s c drop
      return { s with leaving := some (.free c) }
    | _ => .blocked
  | .freeConn =>
    match s.leaving with
    | some (.free c) => do
      let s ← onDisconnectConn s c
      return { s with leaving := none }
    | _ => .blocked
  | .take q => do
    Outcome.require (q ∈ s.qps ∧ Keyed.queue q s.taken = [])
    let (i, sge, s) ← takeRecv s
    return { s with taken := s.taken ++ [(q, ⟨i, sge, 0, s.takes⟩)], takes := s.takes + 1 }
  | .place q bytes => do
    let (t, taken) ← Outcome.choose (Keyed.pop q s.taken)
    Outcome.require (s.Fits t.sge (t.placed + bytes.length))
    return { s with
      taken := taken ++ [(q, { t with placed := t.placed + bytes.length })]
      mem := s.mem.write (t.sge.addr + t.placed) bytes }
  | .arrive q imm origin => do
    let (t, taken) ← Outcome.choose (Keyed.pop q s.taken)
    let wc : Wc Nat := ⟨t.wrId, .success, .recv, t.placed, imm.getD 0, imm.isSome, q⟩
    return { s with taken, cq := s.cq.push ⟨wc, .serverRecv, origin⟩ }
  | .arriveFail q code fields junk origin => do
    let (t, taken) ← Outcome.choose (Keyed.pop q s.taken)
    let lo := max t.sge.addr s.mrs.mr.addr
    let hi := min (t.sge.addr + t.sge.length) s.regionEnd
    let wc := (Ending.bad code fields).wc t.wrId q fields
    return { s with
      taken
      mem := s.mem.scramble junk lo hi
      cq := s.cq.push ⟨wc, .serverRecv, origin⟩ }
  | .poll t k => do
    Outcome.require (t < s.cfg.threadNum ∧ Keyed.queue t s.cq.polled = [] ∧
      Keyed.queue t s.looked = [] ∧ 0 < k ∧ k ≤ maxEntriesPerPoll ∧ k ≤ s.cq.queue.length)
    return { s with cq := s.cq.poll t k }
  | .handle t => do
    Outcome.require (Keyed.queue t s.looked = [])
    let (e, cq) ← Outcome.choose (s.cq.next t)
    onCompletion { s with cq } t e
  | .dispatch t => do
    let (e, looked) ← Outcome.choose (Keyed.pop t s.looked)
    let (s, call) ← onRecvReqCall { s with looked } e.wc
    return { s with held := s.held ++ [(e.wc.wrId, ⟨call, e.origin⟩)] }
  | .handlerWrite i addr bytes => do
    let mr := (s.requests i).mr
    Outcome.require (i ∈ s.held.map Prod.fst ∧ mr.addr ≤ addr ∧
      addr + bytes.length ≤ mr.addr + mr.length)
    return { s with mem := s.mem.write addr bytes }
  | .answer i resp respSz => do
    let (h, held) ← Outcome.choose (Keyed.pop i s.held)
    let (q, wr) ← kvRdmaMakeResp s i resp respSz
    return { s with held, sends := s.sends ++ [(q, ⟨wr, h.origin⟩)] }
  | .land q => do
    let (p, sends) ← Outcome.choose (Keyed.pop q s.sends)
    return { s with sends, landed := s.landed ++ [(q, p)] }
  | .writeDone q en => do
    let (p, landed) ← Outcome.choose (Keyed.pop q s.landed)
    return { s with landed, cq := s.cq.push ⟨en.wc p.wr.wrId q writeFields, .respWrite, p.origin⟩ }
  | .flush q code fields => do
    let (p, sends) ← Outcome.choose (Keyed.pop q s.sends)
    let wc := (Ending.bad code fields).wc p.wr.wrId q writeFields
    return { s with sends, cq := s.cq.push ⟨wc, .respWrite, p.origin⟩ }

/-! ### What each event does -/

section
variable {s s' : Server} {q : QpNum} {c : ConnId} {t : Thread} {i : Nat}

/-- The connection a context points to is there, and a server's. -/
def LiveConn (s : Server) (i : Nat) : Prop :=
  ∃ c conn, (s.requests i).conn = some c ∧ s.conns c = some conn ∧ conn.isServer = true

theorem onWriteRespDone_eq_ok {wc : Wc Nat} :
    onWriteRespDone s wc = .ok s' ↔ s.LiveConn wc.wrId ∧
      s' = { s with srq := s.srq ++ [repostWr wc.wrId (s.requests wc.wrId).mr] } := by
  simp only [onWriteRespDone, LiveConn, Outcome.bind_eq_ok, Outcome.deref_eq_ok,
    Outcome.check_eq_ok, Outcome.pure_eq, Outcome.ok.injEq]
  constructor
  · rintro ⟨c, hc, conn, hconn, -, hs, rfl⟩
    exact ⟨⟨c, conn, hc, hconn, hs⟩, rfl⟩
  · rintro ⟨⟨c, conn, hc, hconn, hs⟩, rfl⟩
    exact ⟨c, hc, conn, hconn, (), hs, rfl⟩

theorem takeRecv_eq_ok {sge : IbvSge} :
    takeRecv s = .ok (i, sge, s') ↔
      ∃ srq, s.srq = ⟨i, some sge⟩ :: srq ∧ s' = { s with srq } := by
  unfold takeRecv
  cases hs : s.srq with
  | nil => simp
  | cons wr srq =>
      obtain ⟨j, sge'⟩ := wr
      simp only [Outcome.bind_eq_ok, Outcome.choose_eq_ok, Outcome.pure_eq, Outcome.ok.injEq,
        Prod.mk.injEq, List.cons.injEq, RecvWr.mk.injEq]
      constructor
      · rintro ⟨sge₁, rfl, rfl, rfl, rfl⟩
        exact ⟨srq, ⟨⟨rfl, rfl⟩, rfl⟩, rfl⟩
      · rintro ⟨srq₁, ⟨⟨rfl, rfl⟩, rfl⟩, rfl⟩
        exact ⟨sge, rfl, rfl, rfl, rfl⟩

theorem step_take :
    step s (.take q) = .ok s' ↔
      q ∈ s.qps ∧ Keyed.queue q s.taken = [] ∧ ∃ i sge srq, s.srq = ⟨i, some sge⟩ :: srq ∧
        s' = { s with
          srq
          taken := s.taken ++ [(q, ⟨i, sge, 0, s.takes⟩)]
          takes := s.takes + 1 } := by
  simp only [step, Outcome.bind_eq_ok, Outcome.require_eq_ok, Prod.exists, takeRecv_eq_ok,
    Outcome.pure_eq, Outcome.ok.injEq]
  constructor
  · rintro ⟨-, ⟨hq, hnone⟩, i, sge, _, ⟨srq, hsrq, rfl⟩, rfl⟩
    exact ⟨hq, hnone, i, sge, srq, hsrq, rfl⟩
  · rintro ⟨hq, hnone, i, sge, srq, hsrq, rfl⟩
    exact ⟨(), ⟨hq, hnone⟩, i, sge, _, ⟨srq, hsrq, rfl⟩, rfl⟩

theorem step_place {bytes : List UInt8} :
    step s (.place q bytes) = .ok s' ↔ ∃ t taken, Keyed.pop q s.taken = some (t, taken) ∧
      s.Fits t.sge (t.placed + bytes.length) ∧
      s' = { s with
        taken := taken ++ [(q, { t with placed := t.placed + bytes.length })]
        mem := s.mem.write (t.sge.addr + t.placed) bytes } := by
  simp only [step, Outcome.bind_eq_ok, Outcome.require_eq_ok, Outcome.choose_eq_ok, Prod.exists,
    Outcome.pure_eq, Outcome.ok.injEq]
  constructor
  · rintro ⟨t, taken, hp, -, hfit, rfl⟩
    exact ⟨t, taken, hp, hfit, rfl⟩
  · rintro ⟨t, taken, hp, hfit, rfl⟩
    exact ⟨t, taken, hp, (), hfit, rfl⟩

theorem step_arrive {imm : Option (BitVec 32)} {origin : Origin} :
    step s (.arrive q imm origin) = .ok s' ↔ ∃ t taken, Keyed.pop q s.taken = some (t, taken) ∧
      s' = { s with
        taken
        cq := s.cq.push ⟨⟨t.wrId, .success, .recv, t.placed, imm.getD 0, imm.isSome, q⟩,
          .serverRecv, origin⟩ } := by
  simp only [step, Outcome.bind_eq_ok, Outcome.choose_eq_ok, Prod.exists, Outcome.pure_eq,
    Outcome.ok.injEq]
  constructor
  · rintro ⟨t, taken, hp, rfl⟩
    exact ⟨t, taken, hp, rfl⟩
  · rintro ⟨t, taken, hp, rfl⟩
    exact ⟨t, taken, hp, rfl⟩

theorem step_arriveFail {code : Nat} {fields : WcFields} {junk : Mem} {origin : Origin}
    (h : step s (.arriveFail q code fields junk origin) = .ok s') :
    ∃ t taken, Keyed.pop q s.taken = some (t, taken) ∧
      s' = { s with
        taken
        mem := s.mem.scramble junk (max t.sge.addr s.mrs.mr.addr)
          (min (t.sge.addr + t.sge.length) s.regionEnd)
        cq := s.cq.push ⟨(Ending.bad code fields).wc t.wrId q fields, .serverRecv, origin⟩ } := by
  simp only [step, Outcome.bind_eq_ok, Outcome.choose_eq_ok, Prod.exists, Outcome.pure_eq,
    Outcome.ok.injEq] at h
  obtain ⟨t, taken, hp, rfl⟩ := h
  exact ⟨t, taken, hp, rfl⟩

/-- The completion makes the server post the context's receive again. -/
def Reposts (wc : Wc Nat) : Prop := wc.opcode = .rdmaWrite ∨ wc.opcode = .recv ∧ wc.status ≠ .success

instance : DecidablePred Reposts := fun _ => inferInstanceAs (Decidable (_ ∨ _))

/-- What the handling of a completion does: it posts the context's receive again, or looks the
connection up, or loses the completion. -/
theorem onCompletion_eq_ok {e : Cqe Nat} (h : onCompletion s t e = .ok s') :
    (Reposts e.wc ∧ s.LiveConn e.wc.wrId ∧
      s' = { s with srq := s.srq ++ [repostWr e.wc.wrId (s.requests e.wc.wrId).mr] }) ∨
    (e.wc.opcode = .recv ∧ e.wc.status = .success ∧ headerSize < e.wc.byteLen ∧
      e.wc.withImm = true ∧
      s' = { s with
        requests := Function.update s.requests e.wc.wrId
          { s.requests e.wc.wrId with conn := s.connections.lookup e.wc.qpNum }
        looked := s.looked ++ [(t, e)] }) ∨
    ((e.wc.opcode = .send ∨ ∃ code, e.wc.opcode = .other code) ∧ s' = s) := by
  unfold onCompletion rdmaCqPoller at h
  cases hop : e.wc.opcode with
  | recv =>
      simp only [hop, onRecvReq] at h
      split at h
      · rename_i hst
        obtain ⟨hlive, rfl⟩ := onWriteRespDone_eq_ok.mp h
        exact .inl ⟨.inr ⟨hop, hst⟩, hlive, rfl⟩
      · rename_i hst
        simp only [onRecvReqFind, Outcome.bind_eq_ok, Outcome.check_eq_ok, Outcome.pure_eq,
          Outcome.ok.injEq] at h
        obtain ⟨_, ⟨-, hlen, -, himm, rfl⟩, rfl⟩ := h
        exact .inr (.inl ⟨rfl, not_not.mp hst, hlen, himm, rfl⟩)
  | rdmaWrite =>
      simp only [hop] at h
      obtain ⟨hlive, rfl⟩ := onWriteRespDone_eq_ok.mp h
      exact .inl ⟨.inl hop, hlive, rfl⟩
  | recvRdmaWithImm => simp [hop] at h
  | send => simp only [hop, Outcome.ok.injEq] at h; exact .inr (.inr ⟨.inl rfl, h.symm⟩)
  | other code => simp only [hop, Outcome.ok.injEq] at h; exact .inr (.inr ⟨.inr ⟨code, rfl⟩, h.symm⟩)

theorem onCompletion_ne_blocked {e : Cqe Nat} : onCompletion s t e ≠ .blocked := by
  have hdone : ∀ wc, onWriteRespDone s wc ≠ .blocked := fun wc h => by
    simp [onWriteRespDone, Outcome.bind_eq_blocked] at h
  refine rdmaCqPoller_ne_blocked (fun h => ?_) nofun (hdone _) nofun nofun
  unfold onRecvReq at h
  split at h
  · exact hdone _ h
  · simp [onRecvReqFind, Outcome.bind_eq_blocked] at h

theorem onRecvReqCall_ne_blocked {wc : Wc Nat} : onRecvReqCall s wc ≠ .blocked := by
  simp [onRecvReqCall, Outcome.bind_eq_blocked]

theorem step_handle (h : step s (.handle t) = .ok s') :
    Keyed.queue t s.looked = [] ∧ ∃ e cq, s.cq.next t = some (e, cq) ∧
      onCompletion { s with cq } t e = .ok s' := by
  simp only [step, Outcome.bind_eq_ok, Outcome.require_eq_ok, Outcome.choose_eq_ok,
    Prod.exists] at h
  obtain ⟨-, hl, e, cq, he, h⟩ := h
  exact ⟨hl, e, cq, he, h⟩

theorem step_handle_eq_fault {f : Fault} (h : step s (.handle t) = .fault f) :
    ∃ e cq, s.cq.next t = some (e, cq) ∧ onCompletion { s with cq } t e = .fault f := by
  simp only [step, Outcome.bind_eq_fault, Outcome.require_ne_fault, Outcome.require_eq_ok,
    Outcome.choose_ne_fault, Outcome.choose_eq_ok, false_or, Prod.exists] at h
  obtain ⟨-, -, e, cq, hn, h⟩ := h
  exact ⟨e, cq, hn, h⟩

theorem step_dispatch (h : step s (.dispatch t) = .ok s') :
    ∃ e looked c conn, Keyed.pop t s.looked = some (e, looked) ∧
      (s.requests e.wc.wrId).conn = some c ∧ s.conns c = some conn ∧ conn.isServer = true ∧
      s' = { s with
        looked
        requests := Function.update s.requests e.wc.wrId
          { s.requests e.wc.wrId with
            respRkey := e.wc.immData
            header := .ofBytes (s.mem.read (s.requests e.wc.wrId).mr.addr headerSize) }
        held := s.held ++ [(e.wc.wrId, ⟨⟨conn.handler, e.wc.wrId, (s.requests e.wc.wrId).mr,
          u32 (e.wc.byteLen - headerSize), conn.arg⟩, e.origin⟩)] } := by
  simp only [step, onRecvReqCall, Outcome.bind_eq_ok, Outcome.choose_eq_ok, Outcome.deref_eq_ok,
    Outcome.check_eq_ok, Outcome.pure_eq, Outcome.ok.injEq, Prod.exists, Prod.mk.injEq] at h
  obtain ⟨e, looked, hp, _, _, ⟨c, hc, conn, hconn, -, hsrv, rfl, rfl⟩, rfl⟩ := h
  exact ⟨e, looked, c, conn, hp, hc, hconn, hsrv, rfl⟩

theorem step_answer {resp respSz : Nat} (h : step s (.answer i resp respSz) = .ok s') :
    ∃ hd held c conn q, Keyed.pop i s.held = some (hd, held) ∧
      (s.requests i).conn = some c ∧ s.conns c = some conn ∧ conn.qp = some q ∧ q ∈ s.qps ∧
      s' = { s with
        held
        sends := s.sends ++ [(q, ⟨⟨i, .rdmaWriteWithImm, (s.requests i).header.reqId,
          ⟨resp, u32 respSz, (s.requests i).mr.lkey⟩, (s.requests i).header.respAddr,
          (s.requests i).respRkey⟩, hd.origin⟩)] } := by
  simp only [step, kvRdmaMakeResp, Outcome.bind_eq_ok, Outcome.choose_eq_ok, Outcome.deref_eq_ok,
    Outcome.check_eq_ok, Outcome.pure_eq, Outcome.ok.injEq, Prod.exists, Prod.mk.injEq] at h
  obtain ⟨hd, held, hp, _, _, ⟨c, hc, conn, hconn, q, hq, -, hmem, rfl, rfl⟩, rfl⟩ := h
  exact ⟨hd, held, c, conn, q, hp, hc, hconn, hq, hmem, rfl⟩

theorem step_disconnected (h : step s (.disconnected c) = .ok s') :
    s.leaving = none ∧ ∃ conn, s.conns c = some conn ∧
      s' = { s with
        connections := if conn.isServer then s.connections.filter (·.2 ≠ c) else s.connections
        leaving := some (.destroyQp c) } := by
  simp only [step, onDisconnectData, Outcome.bind_eq_ok, Outcome.require_eq_ok,
    Outcome.deref_eq_ok, Outcome.pure_eq, Outcome.ok.injEq] at h
  obtain ⟨-, ⟨-, hl⟩, _, ⟨conn, hconn, rfl⟩, rfl⟩ := h
  refine ⟨hl, conn, hconn, ?_⟩
  cases conn.isServer <;> rfl

theorem step_destroyQp {drop : Bool} (h : step s (.destroyQp drop) = .ok s') :
    ∃ c conn q, s.leaving = some (.destroyQp c) ∧ s.conns c = some conn ∧ conn.qp = some q ∧
      s' = { rdmaDestroyQp s q drop with leaving := some (.free c) } := by
  simp only [step] at h
  split at h
  · rename_i c hl
    simp only [onDisconnectQp, Outcome.bind_eq_ok, Outcome.deref_eq_ok, Outcome.pure_eq,
      Outcome.ok.injEq] at h
    obtain ⟨_, ⟨conn, hconn, q, hq, rfl⟩, rfl⟩ := h
    exact ⟨c, conn, q, hl, hconn, hq, rfl⟩
  · cases h

theorem step_freeConn (h : step s .freeConn = .ok s') :
    ∃ c, s.leaving = some (.free c) ∧
      s' = { s with conns := Function.update s.conns c none, leaving := none } := by
  simp only [step] at h
  split at h
  · rename_i c hl
    simp only [onDisconnectConn, Outcome.bind_eq_ok, Outcome.deref_eq_ok, Outcome.pure_eq,
      Outcome.ok.injEq] at h
    obtain ⟨_, ⟨conn, -, rfl⟩, rfl⟩ := h
    exact ⟨c, hl, rfl⟩
  · cases h

/-- The three steps of a disconnect in a row are `on_disconnect`. -/
theorem run_onDisconnect {drop : Bool} (hl : s.leaving = none) (hc : (s.conns c).isSome) :
    run step s [.disconnected c, .destroyQp drop, .freeConn] = onDisconnect s c drop := by
  obtain ⟨⟨isServer, qp, handler, arg⟩, hconn⟩ := Option.isSome_iff_exists.mp hc
  -- the record is there, so only a connection with no queue pair stops the walk
  cases isServer <;> cases qp <;>
    simp [run, step, onDisconnect, onDisconnectData, onDisconnectQp, onDisconnectConn,
      rdmaDestroyQp, Outcome.require, Outcome.deref, hl, hconn]

theorem step_established (h : step s (.established c) = .ok s') : s' = s := by
  simp only [step, onEstablished, Outcome.bind_eq_ok, Outcome.pure_eq, Outcome.ok.injEq] at h
  obtain ⟨-, -, -, -, rfl⟩ := h
  rfl

theorem step_poll {k : Nat} (h : step s (.poll t k) = .ok s') : s' = { s with cq := s.cq.poll t k } := by
  simp only [step, Outcome.bind_eq_ok, Outcome.pure_eq, Outcome.ok.injEq] at h
  obtain ⟨-, -, rfl⟩ := h
  rfl

theorem step_handlerWrite {addr : Nat} {bytes : List UInt8}
    (h : step s (.handlerWrite i addr bytes) = .ok s') :
    i ∈ s.held.map Prod.fst ∧ (s.requests i).mr.addr ≤ addr ∧
      addr + bytes.length ≤ (s.requests i).mr.addr + (s.requests i).mr.length ∧
      s' = { s with mem := s.mem.write addr bytes } := by
  simp only [step, Outcome.bind_eq_ok, Outcome.require_eq_ok, Outcome.pure_eq,
    Outcome.ok.injEq] at h
  obtain ⟨-, ⟨hi, hlo, hhi⟩, rfl⟩ := h
  exact ⟨hi, hlo, hhi, rfl⟩

theorem step_land (h : step s (.land q) = .ok s') :
    ∃ p sends, Keyed.pop q s.sends = some (p, sends) ∧
      s' = { s with sends, landed := s.landed ++ [(q, p)] } := by
  simp only [step, Outcome.bind_eq_ok, Outcome.choose_eq_ok, Outcome.pure_eq, Outcome.ok.injEq,
    Prod.exists] at h
  obtain ⟨p, sends, hp, rfl⟩ := h
  exact ⟨p, sends, hp, rfl⟩

theorem step_writeDone {en : Ending} (h : step s (.writeDone q en) = .ok s') :
    ∃ p landed, Keyed.pop q s.landed = some (p, landed) ∧
      s' = { s with
        landed
        cq := s.cq.push ⟨en.wc p.wr.wrId q writeFields, .respWrite, p.origin⟩ } := by
  simp only [step, Outcome.bind_eq_ok, Outcome.choose_eq_ok, Outcome.pure_eq, Outcome.ok.injEq,
    Prod.exists] at h
  obtain ⟨p, landed, hp, rfl⟩ := h
  exact ⟨p, landed, hp, rfl⟩

theorem step_flush {code : Nat} {fields : WcFields} (h : step s (.flush q code fields) = .ok s') :
    ∃ p sends, Keyed.pop q s.sends = some (p, sends) ∧
      s' = { s with
        sends
        cq := s.cq.push ⟨(Ending.bad code fields).wc p.wr.wrId q writeFields, .respWrite,
          p.origin⟩ } := by
  simp only [step, Outcome.bind_eq_ok, Outcome.choose_eq_ok, Outcome.pure_eq, Outcome.ok.injEq,
    Prod.exists] at h
  obtain ⟨p, sends, hp, rfl⟩ := h
  exact ⟨p, sends, hp, rfl⟩

/-- The handle with its contexts set up. -/
def withRequests (s : Server) : Server := if s.hasRequests then s else serverDataInit s

theorem onConnectRequest_eq (s : Server) (q : QpNum) :
    onConnectRequest s q = { s.withRequests with
      nextConn := s.nextConn + 1
      conns := Function.update s.conns s.nextConn (some ⟨true, some q, s.cfg.handler, s.cfg.arg⟩)
      qps := q :: s.qps
      connections := (q, s.nextConn) :: s.connections } := by
  unfold onConnectRequest createConnetion withRequests
  cases h : s.hasRequests <;> simp [h, serverDataInit]

theorem step_connectRequest (h : step s (.connectRequest q) = .ok s') :
    q ∉ s.qps ∧ s.leaving = none ∧ s' = { s.withRequests with
      nextConn := s.nextConn + 1
      conns := Function.update s.conns s.nextConn (some ⟨true, some q, s.cfg.handler, s.cfg.arg⟩)
      qps := q :: s.qps
      connections := (q, s.nextConn) :: s.connections } := by
  simp only [step, Outcome.bind_eq_ok, Outcome.require_eq_ok, Outcome.pure_eq,
    Outcome.ok.injEq] at h
  obtain ⟨-, ⟨hq, hl⟩, rfl⟩ := h
  exact ⟨hq, hl, onConnectRequest_eq s q⟩

/-- The start-up leaves what is not the slots, the contexts and the receives. -/
theorem withRequests_frame (s : Server) :
    s.withRequests.cfg = s.cfg ∧ s.withRequests.hasRequests = true ∧
      s.withRequests.connections = s.connections ∧ s.withRequests.conns = s.conns ∧
      s.withRequests.nextConn = s.nextConn ∧ s.withRequests.leaving = s.leaving ∧
      s.withRequests.taken = s.taken ∧ s.withRequests.takes = s.takes ∧
      s.withRequests.qps = s.qps ∧ s.withRequests.sends = s.sends ∧
      s.withRequests.landed = s.landed ∧ s.withRequests.cq = s.cq ∧
      s.withRequests.looked = s.looked ∧ s.withRequests.held = s.held ∧
      s.withRequests.mem = s.mem := by
  unfold withRequests
  cases h : s.hasRequests <;> simp [h, serverDataInit]

end

end Server

end RdmaRpc
