import RdmaRpc.Shared.Dispatch
import RdmaRpc.Client.Answers

/-!
# Shared — Overflow

`create_connetion` asks for one completion queue of `3 * MAX_Q_NUM` entries for all connections of
a handle.  The server's completions are no more than its contexts, however many connections it has.
A client connection may have its whole send queue and its whole receive queue waiting there
(`Client.queue_length_le`), which is `2 * MAX_Q_NUM`: the queue is large enough for one client
connection at a time, and not for two (`waiting_le_iff`).
-/

namespace RdmaRpc
open Lib

/-! ### One client connection -/

namespace Client
variable {c c' : Client} {mem mem' : Mem} {e : Event}

/-- Both queues of the queue pair hold what `create_connetion` asks for. -/
structure Within (c : Client) : Prop where
  recvs : c.recvsHeld ≤ maxQNum
  sends : c.sendsHeld ≤ maxQNum

/-- The connection is up, or is being taken down or gone with completions that nobody has polled. -/
def InUse (c : Client) : Prop := c.stage = .up ∨ c.cq.queue ≠ []

instance : DecidablePred InUse := fun _ => inferInstanceAs (Decidable (_ ∨ _))

theorem within_init {conn : ConnId} {qp : QpNum} {buf : Nat} : (init conn qp buf).Within :=
  ⟨Nat.zero_le _, Nat.zero_le _⟩

theorem countP_queue_poll {cq : Completions ClientWrId} {t : Thread} {k : Nat}
    (p : Cqe ClientWrId → Bool) : (cq.poll t k).queue.countP p ≤ cq.queue.countP p :=
  (List.drop_sublist k cq.queue).countP_le

theorem countP_queue_push {cq : Completions ClientWrId} {ce : Cqe ClientWrId}
    (p : Cqe ClientWrId → Bool) :
    (cq.push ce).queue.countP p = cq.queue.countP p + if p ce then 1 else 0 := by
  simp [Completions.push, List.countP_append, List.countP_singleton]

/-- The completion of a request takes its entry over. -/
theorem Within.push_send (hw : c.Within) {ce : Cqe ClientWrId} (hk : ce.kind = .clientSend)
    {sends sent : List Sent}
    (hlen : sends.length + sent.length + 1 = c.sends.length + c.sent.length) :
    { c with sends, sent, cq := c.cq.push ce }.Within := by
  obtain ⟨hr, hs⟩ := hw
  simp only [sendsHeld] at hs
  constructor
  · simpa [recvsHeld, countP_queue_push, hk] using hr
  · simp only [sendsHeld, countP_queue_push, hk, decide_true, if_true]
    omega

/-- The completion of a receive takes its entry over. -/
theorem Within.push_recv (hw : c.Within) {ce : Cqe ClientWrId} (hk : ce.kind = .clientRecv)
    (hpos : 0 < c.recvs) {delivered : List Nat} :
    { c with recvs := c.recvs - 1, delivered, cq := c.cq.push ce }.Within := by
  obtain ⟨hr, hs⟩ := hw
  simp only [recvsHeld] at hr
  constructor
  · simp only [recvsHeld, countP_queue_push, hk, decide_true, if_true]
    omega
  · simpa [sendsHeld, countP_queue_push, hk] using hs

/-- A post takes an entry where there is room. -/
theorem within_sendReq {a : SendReq} {pick : Nat} {rr rs : Bool} (hw : c.Within)
    (hroom : c.Room (.sendReq a pick rr rs))
    (h : kvRdmaSendReq c mem a pick rr rs = .ok (c', mem')) : c'.Within := by
  obtain ⟨hr, hs⟩ := hw
  obtain ⟨-, -, ele, mp, -, -, ⟨-, rfl⟩ | ⟨rfl, -, rfl⟩ | ⟨rfl, rfl, rfl⟩⟩ := kvRdmaSendReq_eq_ok h
  · exact ⟨hr, hs⟩
  · obtain ⟨hroomr, -⟩ := hroom rfl
    simp only [recvsHeld] at hroomr
    refine ⟨?_, hs⟩
    simp only [recvsHeld, sendReqFail, take]
    omega
  · obtain ⟨hroomr, hrooms⟩ := hroom rfl
    have hrooms := hrooms rfl
    simp only [recvsHeld] at hroomr
    simp only [sendsHeld] at hrooms
    constructor
    · simp only [recvsHeld, accept, take]
      omega
    · simp only [sendsHeld, accept, take, List.length_append, List.length_singleton]
      omega

/-- An entry that is taken is kept until its completion is polled. -/
theorem Within.step (hw : c.Within) (hroom : c.Room e)
    (h : Client.step (c, mem) e = .ok (c', mem')) : c'.Within := by
  rcases step_cases h with ⟨a, pick, rr, rs, rfl, h⟩ | ⟨h, -⟩
  · exact within_sendReq hw hroom h
  · replace h : react c e = .ok c' := h
    cases e with
    | sendReq a pick rr rs => cases h
    | transmit =>
        obtain ⟨p, sends, hp, rfl⟩ := react_transmit h
        refine ⟨hw.recvs, ?_⟩
        have hs := hw.sends
        simp only [sendsHeld, hp, List.length_cons] at hs
        simp only [sendsHeld, List.length_append, List.length_singleton]
        omega
    | sendDone en =>
        obtain ⟨p, sent, hp, rfl⟩ := react_sendDone h
        exact hw.push_send rfl (by rw [hp, List.length_cons, Nat.add_assoc])
    | sendFail code fields =>
        obtain ⟨p, sends, hp, rfl⟩ := react_sendFail h
        exact hw.push_send rfl (by rw [hp, List.length_cons, Nat.add_right_comm])
    | deliver k imm byteLen =>
        obtain ⟨hpos, rfl⟩ := react_deliver.mp h
        exact hw.push_recv rfl hpos
    | recvFail code fields =>
        obtain ⟨hpos, rfl⟩ := react_recvFail h
        exact hw.push_recv rfl hpos
    | poll t k =>
        obtain rfl := react_poll h
        exact ⟨(Nat.add_le_add_left (countP_queue_poll _) _).trans hw.recvs,
          (Nat.add_le_add_left (countP_queue_poll _) _).trans hw.sends⟩
    | handle t =>
        obtain ⟨e, cq, hn, h⟩ := react_handle h
        have hq := Completions.queue_next hn
        rcases h with ⟨-, -, -, -, ctx, cb, -, -, rfl⟩ | ⟨-, rfl⟩ <;>
          exact ⟨by simpa only [recvsHeld, hq] using hw.recvs,
            by simpa only [sendsHeld, hq] using hw.sends⟩
    | put t => obtain ⟨ele, returning, -, -, rfl⟩ := react_put h; exact ⟨hw.recvs, hw.sends⟩
    | disconnected => obtain ⟨-, rfl⟩ := react_disconnected h; exact ⟨hw.recvs, hw.sends⟩
    | freeConn => obtain ⟨-, rfl⟩ := react_freeConn h; exact ⟨hw.recvs, hw.sends⟩
    | destroyQp drop =>
        obtain ⟨-, rfl⟩ := react_destroyQp h
        cases drop with
        | true => exact ⟨Nat.zero_le _, Nat.zero_le _⟩
        | false =>
            obtain ⟨hr, hs⟩ := hw
            refine ⟨(Nat.add_le_add_right (Nat.zero_le _) _).trans hr, ?_⟩
            exact (Nat.add_le_add_right (Nat.zero_le _) _).trans hs

/-- No more completions of a connection wait than its two queues hold. -/
theorem queue_length_le (hw : c.Within) (hm : ∀ ce ∈ c.cq.queue, Marked ce) :
    c.cq.queue.length ≤ 2 * maxQNum := by
  have hr : c.cq.queue.countP (·.kind = .clientRecv) ≤ maxQNum :=
    (Nat.le_add_left _ _).trans hw.recvs
  have hs : c.cq.queue.countP (·.kind = .clientSend) ≤ maxQNum :=
    (Nat.le_add_left _ _).trans hw.sends
  have hsend : c.cq.queue.countP (fun ce => ¬ decide (ce.kind = .clientRecv)) ≤
      c.cq.queue.countP (·.kind = .clientSend) := by
    refine List.countP_mono_left fun ce hce hne => ?_
    rcases (hm ce hce).1 with ⟨hk, -⟩ | ⟨hk, -⟩
    · simp [hk] at hne
    · simp [hk]
  have hlen := List.length_eq_countP_add_countP (fun ce : Cqe ClientWrId => ce.kind = .clientRecv)
    (l := c.cq.queue)
  omega

/-! ### A burst -/

/-- The call `k`, up to the arrival of its response. -/
def roundTrip (k : Nat) : List Event :=
  [.sendReq smallReq 0 false false, .transmit, .sendDone .good,
    .deliver k (BitVec.ofNat 32 (k * ctxSize)) 4]

/-- The calls below `k`. -/
def burst (k : Nat) : List Event := (List.range k).flatMap roundTrip

/-- Two completions of each of `k` calls wait. -/
structure Bursting (c : Client) (k : Nat) : Prop where
  up : c.stage = .up
  free : c.mp.free.length + k = poolCount
  recvs : c.recvs = 0
  sends : c.sends = []
  sent : c.sent = []
  recvDone : c.cq.queue.countP (·.kind = .clientRecv) = k
  sendDone : c.cq.queue.countP (·.kind = .clientSend) = k
  length : c.cq.queue.length = 2 * k

theorem bursting_init {conn : ConnId} {qp : QpNum} {buf : Nat} : (init conn qp buf).Bursting 0 := by
  refine ⟨rfl, ?_, rfl, rfl, rfl, rfl, rfl, rfl⟩
  simp [init_mp]

/-- The request that was posted is sent and completes, and its response arrives. -/
theorem run_served (mem : Mem) (k n : Nat) (imm : BitVec 32) {p : Sent} (hsends : c.sends = [p])
    (hsent : c.sent = []) (hrecvs : c.recvs = 1) :
    run roomStep (c, mem) [.transmit, .sendDone .good, .deliver k imm n] = .ok ({ c with
      sends := []
      sent := []
      recvs := 0
      delivered := c.delivered ++ [k]
      cq := (c.cq.push ⟨Ending.good.wc (.ctx p.wr.wrId) c.qp sendFields, .clientSend,
        ⟨c.qp, p.call⟩⟩).push ⟨⟨.conn c.conn, .success, .recvRdmaWithImm, n, imm, true, c.qp⟩,
          .clientRecv, ⟨c.qp, k⟩⟩ }, mem) := by
  simp [roomStep, Outcome.require, Room, step, react, hsends, hsent, hrecvs]

/-- One more call leaves two more completions. -/
theorem run_roundTrip {k : Nat} (mem : Mem) (hb : c.Bursting k) (hk : k < maxQNum) :
    ∃ c' mem', run roomStep (c, mem) (roundTrip k) = .ok (c', mem') ∧ c'.Bursting (k + 1) := by
  obtain ⟨hup, hfree, hrecvs, hsends, hsent, hrecvDone, hsendDone, hlength⟩ := hb
  obtain ⟨⟨ele, mp⟩, hget⟩ : ∃ p, kvMempoolGet c.mp 0 = some p := by
    refine Option.ne_none_iff_exists'.mp fun hnone => ?_
    rw [kvMempoolGet_eq_none.mp hnone, List.length_nil] at hfree
    simp only [maxQNum, poolCount] at hk hfree
    omega
  have hleft : mp.free.length + (k + 1) = poolCount := by
    have hlen := (kvMempoolGet_eq_some hget).1.length_eq
    rw [List.length_cons] at hlen
    omega
  have hroom : c.Room (.sendReq smallReq 0 false false) := by
    simpa [Room, recvsHeld, sendsHeld, hrecvs, hsends, hsent, hrecvDone, hsendDone] using hk
  have hpost : roomStep (c, mem) (.sendReq smallReq 0 false false) = .ok
      ((c.take smallReq ele mp).accept smallReq ele,
        mem.write smallReq.req.addr (header mp smallReq ele).bytes) := by
    have hcall : kvRdmaSendReq c mem smallReq 0 false false = .ok
        ((c.take smallReq ele mp).accept smallReq ele,
          mem.write smallReq.req.addr (header mp smallReq ele).bytes) :=
      kvRdmaSendReq_posted false hup hget (by decide)
    simp [roomStep, Outcome.require, hroom, step, hcall]
  have hqueued : ((c.take smallReq ele mp).accept smallReq ele).sends =
      [⟨sendWr smallReq ele, c.calls.length⟩] := by
    simp [accept, take, hsends]
  have hone : ((c.take smallReq ele mp).accept smallReq ele).recvs = 1 := by
    simp [accept, take, hrecvs]
  have hserved := run_served (mem.write smallReq.req.addr (header mp smallReq ele).bytes) k 4
    (BitVec.ofNat 32 (k * ctxSize)) hqueued hsent hone
  refine ⟨_, _, Outcome.bind_eq_ok.mpr ⟨_, hpost, hserved⟩, hup, hleft, rfl, rfl, rfl, ?_, ?_, ?_⟩
  · simp [countP_queue_push, accept, take, hrecvDone]
  · simp [countP_queue_push, accept, take, hsendDone]
  · simp only [Completions.push, accept, take, List.length_append, List.length_singleton, hlength]
    omega

/-- A connection takes as many calls as its queues have entries before anyone polls. -/
theorem run_burst (conn : ConnId) (qp : QpNum) (buf : Nat) (mem : Mem) {k : Nat} (hk : k ≤ maxQNum) :
    ∃ c' mem', run roomStep (init conn qp buf, mem) (burst k) = .ok (c', mem') ∧ c'.Bursting k := by
  induction k with
  | zero => exact ⟨_, _, rfl, bursting_init⟩
  | succ k ih =>
      obtain ⟨c₁, mem₁, hr₁, hb₁⟩ := ih (Nat.le_of_succ_le hk)
      obtain ⟨c₂, mem₂, hr₂, hb₂⟩ := run_roundTrip mem₁ hb₁ hk
      refine ⟨c₂, mem₂, ?_, hb₂⟩
      rw [burst, List.range_succ, List.flatMap_append, List.flatMap_singleton]
      exact run_append_eq_ok.mpr ⟨_, hr₁, hr₂⟩

end Client

/-! ### The queue of a handle -/

namespace Shared
variable {s s' : Shared} {e : Event} {cfg : ServerCfg} {mem : Mem} {tr : List Event}

/-- The completions that wait in the queue. -/
def waiting (s : Shared) : Nat :=
  s.server.cq.queue.length + (s.clients.map fun c => c.cq.queue.length).sum

/-- The client connections in use. -/
def inUse (s : Shared) : Nat := s.clients.countP (·.InUse)

/-- No client connection has more in its queues than they hold. -/
def Within (s : Shared) : Prop := ∀ c ∈ s.clients, c.Within

theorem within_step (s : Shared) (e : Event) (s' : Shared) (hs : s.Within) (h : step s e = .ok s') :
    s'.Within :=
  forall_clients_step (fun _ _ _ => Client.within_init)
    (fun _ _ _ _ _ hc hroom hclient => hc.step hroom hclient) hs h

/-- The completions of the server are no more than its contexts. -/
theorem server_queue_length_le (h : run step (init cfg mem) tr = .ok s) :
    s.server.cq.queue.length ≤ cfg.conReqNum := by
  obtain ⟨tr', hr⟩ := server_run h
  have hsub : (Server.ctxsDone s.server.cq.queue).Subperm s.server.places := by
    refine List.Sublist.subperm ?_
    simp only [Server.places, Completions.all, Server.ctxsDone, List.map_append, List.append_assoc]
    exact (List.sublist_append_left _ _).trans
      ((List.sublist_append_right _ _).trans (List.sublist_append_right _ _))
  have hle := Server.length_le_of_subperm hr hsub
  rwa [Server.ctxsDone, List.length_map] at hle

/-- Client connections out of use have nothing in the queue. -/
theorem sum_queue_le {b : Nat} {clients : List Client}
    (h : ∀ c ∈ clients, c.cq.queue.length ≤ b) :
    (clients.map fun c => c.cq.queue.length).sum ≤
      clients.countP (·.InUse) * b := by
  induction clients with
  | nil => exact Nat.zero_le _
  | cons c clients ih =>
      have hrest := ih fun c hc => h c (List.mem_cons_of_mem _ hc)
      rw [List.map_cons, List.sum_cons, List.countP_cons]
      by_cases huse : c.InUse
      · rw [if_pos (decide_eq_true huse), Nat.add_mul, Nat.one_mul, Nat.add_comm]
        exact Nat.add_le_add hrest (h c List.mem_cons_self)
      · have hnil : c.cq.queue = [] := by
          by_contra hne
          exact huse (.inr hne)
        rwa [if_neg (mt of_decide_eq_true huse), hnil, List.length_nil, Nat.zero_add]

/-- The server may have a completion for each context, and a client connection in use both its queues
full of them. -/
theorem waiting_le (h : run step (init cfg mem) tr = .ok s) :
    s.waiting ≤ cfg.conReqNum + s.inUse * (2 * maxQNum) := by
  have hwithin : s.Within := run_invariant within_step (fun c hc => by cases hc) h
  have hsound : s.Sound := run_invariant sound_step sound_init h
  refine Nat.add_le_add (server_queue_length_le h) (sum_queue_le fun c hc => ?_)
  exact Client.queue_length_le (hwithin c hc) fun ce hce =>
    hsound.clients c hc ce (List.mem_append_left _ hce)

/-! ### Two bursts -/

/-- Two client connections, with their pools apart. -/
def twoClients (cfg : ServerCfg) (mem : Mem) : Shared :=
  { init cfg mem with clients := [.init 0 0 8192, .init 1 1 (2 ^ 20)] }

/-- As many calls on each as its queues have entries, before anyone polls. -/
def twoBursts : List Event :=
  [.connect 0 8192, .connect 1 (2 ^ 20)] ++ (Client.burst maxQNum).map (.client 0) ++
    (Client.burst maxQNum).map (.client 1)

theorem run_connects (cfg : ServerCfg) (mem : Mem) :
    run step (init cfg mem) [.connect 0 8192, .connect 1 (2 ^ 20)] = .ok (twoClients cfg mem) := by
  simp [step, init, Outcome.require, Server.init, twoClients, Client.init]

/-- The completions of two connections fill the queue and a third more. -/
theorem run_twoBursts (cfg : ServerCfg) (mem : Mem) : ∃ s,
    run step (init cfg mem) twoBursts = .ok s ∧ s.clients.length = 2 ∧
      s.waiting = 4 * maxQNum := by
  obtain ⟨c₀, mem₀, hr₀, hb₀⟩ := Client.run_burst 0 0 8192 mem (Nat.le_refl maxQNum)
  obtain ⟨c₁, mem₁, hr₁, hb₁⟩ := Client.run_burst 1 1 (2 ^ 20) mem₀ (Nat.le_refl maxQNum)
  have hrun₀ : run step (twoClients cfg mem) ((Client.burst maxQNum).map (.client 0)) =
      .ok { init cfg mem with clients := [c₀, .init 1 1 (2 ^ 20)], mem := mem₀ } :=
    run_client (s := twoClients cfg mem) rfl hr₀
  have hrun₁ : run step { init cfg mem with clients := [c₀, .init 1 1 (2 ^ 20)], mem := mem₀ }
      ((Client.burst maxQNum).map (.client 1)) =
      .ok { init cfg mem with clients := [c₀, c₁], mem := mem₁ } :=
    run_client (s := { init cfg mem with clients := [c₀, .init 1 1 (2 ^ 20)], mem := mem₀ }) rfl hr₁
  refine ⟨_, run_append_eq_ok.mpr ⟨_, run_append_eq_ok.mpr ⟨_, run_connects cfg mem, hrun₀⟩, hrun₁⟩,
    rfl, ?_⟩
  simp only [waiting, init, Server.init, Completions.empty, List.map_cons, List.map_nil,
    List.sum_cons, List.sum_nil, List.length_nil, hb₀.length, hb₁.length]
  omega

/-- With two client connections at one queue, more completions wait than it holds. -/
theorem queue_overflow :
    ∃ s, run step (init oneContext fun _ => 0) twoBursts = .ok s ∧ s.clients.length = 2 ∧
      ¬ s.waiting ≤ 3 * maxQNum := by
  obtain ⟨s, hr, hlen, hwait⟩ := run_twoBursts oneContext fun _ => 0
  refine ⟨s, hr, hlen, ?_⟩
  rw [hwait]
  decide

/-- **Overflow.**  The completion queue is large enough for all runs with at most `m` client connections
in use, however many the server has, if and only if `m` is at most one. -/
theorem waiting_le_iff (hcfg : cfg.conReqNum ≤ maxQNum) (m : Nat) :
    (∀ mem tr s, run step (init cfg mem) tr = .ok s → s.inUse ≤ m → s.waiting ≤ 3 * maxQNum) ↔
      m ≤ 1 := by
  constructor
  · intro h
    by_contra hm
    obtain ⟨s, hr, hlen, hwait⟩ := run_twoBursts cfg fun _ => 0
    have huse : s.inUse ≤ m := by
      have hle : s.inUse ≤ s.clients.length := List.countP_le_length
      omega
    have hle := h _ _ s hr huse
    rw [hwait, maxQNum] at hle
    omega
  · intro hm mem tr s hr huse
    have hle := waiting_le hr
    have hone : s.inUse * (2 * maxQNum) ≤ 1 * (2 * maxQNum) :=
      Nat.mul_le_mul_right _ (huse.trans hm)
    omega

/-- One client connection, beside a server with one context. -/
theorem waiting_le_oneContext :
    (∀ mem tr s, run step (init oneContext mem) tr = .ok s → s.inUse ≤ 1 →
      s.waiting ≤ 3 * maxQNum) ↔ 1 ≤ 1 :=
  waiting_le_iff (by decide) 1

end Shared

end RdmaRpc
