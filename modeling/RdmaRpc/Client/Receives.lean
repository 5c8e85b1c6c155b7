import RdmaRpc.Client.Answers

/-!
# Client — Receives

The receives of a client connection, against the requests on their way and their answers.
`kv_rdma_send_req` is cut between its two posts (`kvRdmaSendReq_cut`), so that anything can happen
there: other calls, of other threads, and events of the NIC.

The server answers a request it has received at most once; it may take the requests in any order, and
leave some unanswered.  Each posted send has a receive posted before it, so there are at least as
many receives as answers still to come (`recvs_cover`).  A receive fails only when the connection is
torn down, and no such event is here.
-/

namespace RdmaRpc
open Lib

namespace Client

/-! ### `kv_rdma_send_req`, in two parts -/

/-- `kv_rdma_send_req`, to `ibv_post_recv`: the element it took, or `none` when the call went to
`fail`. -/
def sendReqRecv (c : Client) (mem : Mem) (a : SendReq) (pick : Nat) (refuse : Bool) :
    Outcome Fault (Client × Mem × Option Nat) := do
  Outcome.check (c.stage ≠ .freed) .freedConn
  Outcome.check (c.stage = .up) .freedPool
  let (ele, mp) ← Outcome.deref .nullElement (kvMempoolGet c.mp pick)
  let c := c.take a ele mp
  Outcome.check (a.reqSz.toNat ≤ a.req.length) .assertReqSz
  let mem := mem.write a.req.addr (header mp a ele).bytes
  if refuse then
    return (sendReqFail c a ele, mem, none)
  return ({ c with recvs := c.recvs + 1 }, mem, some ele)

/-- `kv_rdma_send_req`, from `ibv_post_send` -/
def sendReqSend (c : Client) (a : SendReq) (ele : Nat) (refuse : Bool) : Client :=
  if refuse then sendReqFail c a ele
  else { c with
    sends := c.sends ++ [⟨sendWr a ele, c.calls.length⟩]
    calls := c.calls ++ [⟨a, ele, true⟩] }

theorem kvRdmaSendReq_cut (c : Client) (mem : Mem) (a : SendReq) (pick : Nat)
    (refuseRecv refuseSend : Bool) :
    kvRdmaSendReq c mem a pick refuseRecv refuseSend = (do
      let (c, mem, ele) ← sendReqRecv c mem a pick refuseRecv
      return (ele.elim c fun ele => sendReqSend c a ele refuseSend, mem)) := by
  unfold kvRdmaSendReq sendReqRecv
  cases Outcome.check (c.stage ≠ .freed) Fault.freedConn with
  | blocked => rfl
  | fault f => rfl
  | ok _ =>
    cases Outcome.check (c.stage = .up) Fault.freedPool with
    | blocked => rfl
    | fault f => rfl
    | ok _ =>
      cases Outcome.deref Fault.nullElement (kvMempoolGet c.mp pick) with
      | blocked => rfl
      | fault f => rfl
      | ok p =>
          cases refuseRecv <;> cases refuseSend <;>
            cases h : Outcome.check (a.reqSz.toNat ≤ a.req.length) Fault.assertReqSz <;>
            simp [take, sendReqSend]

/-! ### The connection and its link -/

/-- A client connection, and what is between it and the server: `posting` are the calls of
`kv_rdma_send_req` that have posted their receive, each with its element; `wire`, `arrived` and
`answers` are the requests on their way, those the server has received and not answered, and the
answers on their way, by the call. -/
structure Link where
  client : Client
  mem : Mem
  posting : List (SendReq × Nat)
  wire : List Nat
  arrived : List Nat
  answers : List Nat

namespace Link

/-- The connection after `kv_rdma_connect` and `create_connetion` -/
def init (conn : ConnId) (qp : QpNum) (buf : Nat) (mem : Mem) : Link :=
  ⟨Client.init conn qp buf, mem, [], [], [], []⟩

inductive Event where
  /-- a call of `kv_rdma_send_req`, to `ibv_post_recv` -/
  | postRecv (a : SendReq) (pick : Nat) (refuse : Bool)
  /-- the `i`-th call goes on with `ibv_post_send` -/
  | postSend (i : Nat) (refuse : Bool)
  /-- the NIC sends the oldest request -/
  | transmit
  /-- the `i`-th request on its way arrives at the server -/
  | arrive (i : Nat)
  /-- the server answers the `i`-th request it has received -/
  | answer (i : Nat)
  /-- the `i`-th answer arrives -/
  | deliver (i : Nat) (imm : BitVec 32) (byteLen : Nat)
  | sendDone (en : Ending)
  | poll (t : Thread) (k : Nat)
  | handle (t : Thread)
  | put (t : Thread)

def step (l : Link) : Event → Outcome Fault Link
  | .postRecv a pick refuse => do
    let (client, mem, ele) ← sendReqRecv l.client l.mem a pick refuse
    return { l with client, mem, posting := l.posting ++ (ele.map fun ele => (a, ele)).toList }
  | .postSend i refuse => do
    let (a, ele) ← Outcome.choose l.posting[i]?
    return { l with client := sendReqSend l.client a ele refuse, posting := l.posting.eraseIdx i }
  | .transmit => do
    let p ← Outcome.choose l.client.sends.head?
    let client ← react l.client .transmit
    return { l with client, wire := l.wire ++ [p.call] }
  | .arrive i => do
    let k ← Outcome.choose l.wire[i]?
    return { l with wire := l.wire.eraseIdx i, arrived := l.arrived ++ [k] }
  | .answer i => do
    let k ← Outcome.choose l.arrived[i]?
    return { l with arrived := l.arrived.eraseIdx i, answers := l.answers ++ [k] }
  | .deliver i imm byteLen => do
    let k ← Outcome.choose l.answers[i]?
    let client ← react l.client (.deliver k imm byteLen)
    return { l with client, answers := l.answers.eraseIdx i }
  | .sendDone en => do
    let client ← react l.client (.sendDone en)
    return { l with client }
  | .poll t k => do
    let client ← react l.client (.poll t k)
    return { l with client }
  | .handle t => do
    let client ← react l.client (.handle t)
    return { l with client }
  | .put t => do
    let client ← react l.client (.put t)
    return { l with client }

/-- The requests that are sent for: a send was posted, and no answer has arrived. -/
def outstanding (l : Link) : List Nat :=
  l.client.accepted.filter (· ∉ l.client.delivered)

/-- Where the accepted requests are. -/
def places (l : Link) : List Nat :=
  l.client.sends.map Sent.call ++ l.wire ++ l.arrived ++ l.answers ++ l.client.delivered

/-- Each accepted request is in one place, and each call that posted its receive and was not refused
its send has a receive, or an answer. -/
structure Covered (l : Link) : Prop where
  places : l.places.Perm l.client.accepted
  recvs : l.client.accepted.length + l.posting.length ≤ l.client.recvs + l.client.delivered.length

section
variable {c c' : Client} {l l' : Link} {e : Event} {k : Nat}

/-- A call that is done is accepted, or not. -/
theorem accepted_snoc {call : Call} (h : c'.calls = c.calls ++ [call]) :
    c'.accepted = c.accepted ++ if call.accepted then [c.calls.length] else [] := by
  have hold : (List.range c.calls.length).filter
      (fun k => ((c.calls ++ [call])[k]?).any Call.accepted) = c.accepted :=
    List.filter_congr fun k hk => by rw [List.getElem?_append_left (List.mem_range.mp hk)]
  rw [accepted, h, List.length_append, List.length_singleton, List.range_succ, List.filter_append,
    hold]
  cases hc : call.accepted <;> simp [hc]

/-- What takes no part in the requests and the answers. -/
def quiet : Client.Event → Bool
  | .sendDone _ | .poll .. | .handle _ | .put _ => true
  | _ => false

theorem react_quiet {e : Client.Event} (he : quiet e = true) (h : react c e = .ok c') :
    c'.sends = c.sends ∧ c'.recvs = c.recvs ∧ c'.calls = c.calls ∧ c'.delivered = c.delivered := by
  cases e with
  | sendDone en =>
      obtain ⟨p, sent, -, rfl⟩ := react_sendDone h
      exact ⟨rfl, rfl, rfl, rfl⟩
  | poll t k =>
      obtain rfl := react_poll h
      exact ⟨rfl, rfl, rfl, rfl⟩
  | handle t =>
      obtain ⟨e, cq, -, ⟨-, -, -, -, ctx, cb, -, -, rfl⟩ | ⟨-, rfl⟩⟩ := react_handle h
      · exact ⟨rfl, rfl, rfl, rfl⟩
      · exact ⟨rfl, rfl, rfl, rfl⟩
  | put t =>
      obtain ⟨ele, returning, -, -, rfl⟩ := react_put h
      exact ⟨rfl, rfl, rfl, rfl⟩
  | _ => cases he

theorem Covered.quiet {e : Client.Event} (hl : l.Covered) (he : Link.quiet e = true)
    (h : react l.client e = .ok c) : Covered { l with client := c } := by
  obtain ⟨hsends, hrecvs, hcalls, hdel⟩ := react_quiet he h
  have hacc : c.accepted = l.client.accepted := by rw [accepted, accepted, hcalls]
  refine ⟨?_, ?_⟩
  · simpa only [Link.places, hsends, hdel, hacc] using hl.places
  · simpa only [hrecvs, hdel, hacc] using hl.recvs

theorem count_eraseIdx {i : Nat} {ks : List Nat} (h : ks[i]? = some k) (x : Nat) :
    ks.count x = (ks.eraseIdx i).count x + if k = x then 1 else 0 := by
  rw [(Keyed.perm_pick h).count_eq, List.count_cons]
  simp

/-- A call that goes to `fail` is not accepted. -/
theorem Covered.fail {a : SendReq} {ele : Nat} (hl : l.Covered) :
    Covered { l with client := sendReqFail l.client a ele } := by
  have hacc : (sendReqFail l.client a ele).accepted = l.client.accepted := by
    rw [accepted_snoc (c := l.client) rfl]
    simp
  exact ⟨by rw [hacc]; exact hl.places, by rw [hacc]; exact hl.recvs⟩

/-- The first post of a call is a receive, and then the call waits for its second. -/
theorem covered_postRecv {a : SendReq} {pick : Nat} {refuse : Bool} (hl : l.Covered)
    (h : step l (.postRecv a pick refuse) = .ok l') : l'.Covered := by
  have hrecvs := hl.recvs
  obtain ⟨⟨c, mem, ele⟩, hc, h⟩ := Outcome.bind_eq_ok.mp h
  cases h
  obtain ⟨_, -, hc⟩ := Outcome.bind_eq_ok.mp hc
  obtain ⟨_, -, hc⟩ := Outcome.bind_eq_ok.mp hc
  obtain ⟨⟨ele', mp⟩, -, hc⟩ := Outcome.bind_eq_ok.mp hc
  obtain ⟨_, -, hc⟩ := Outcome.bind_eq_ok.mp hc
  cases refuse with
  | true =>
      cases hc
      have htake : Covered { l with client := l.client.take a ele' mp } := ⟨hl.places, hl.recvs⟩
      obtain ⟨hp, hr⟩ := htake.fail (a := a)
      exact ⟨hp, by simpa using hr⟩
  | false =>
      cases hc
      refine ⟨hl.places, ?_⟩
      show l.client.accepted.length + _ ≤ l.client.recvs + 1 + l.client.delivered.length
      simp only [Option.map_some, Option.toList_some, List.length_append, List.length_singleton]
      omega

/-- A call that has posted its receive posts its send, or gives up. -/
theorem covered_postSend {i : Nat} {refuse : Bool} (hl : l.Covered)
    (h : step l (.postSend i refuse) = .ok l') : l'.Covered := by
  have hplaces := List.perm_iff_count.mp hl.places
  have hrecvs := hl.recvs
  simp only [Link.places, List.count_append] at hplaces
  obtain ⟨⟨a, ele⟩, hi, h⟩ := Outcome.bind_eq_ok.mp h
  cases h
  have hlen := List.length_eraseIdx_add_one (List.getElem?_eq_some_iff.mp (Outcome.choose_eq_ok.mp hi)).1
  cases refuse with
  | true =>
      have hless : Covered { l with posting := l.posting.eraseIdx i } := by
        refine ⟨hl.places, ?_⟩
        show l.client.accepted.length + (l.posting.eraseIdx i).length ≤
          l.client.recvs + l.client.delivered.length
        omega
      exact hless.fail
  | false =>
      have hcalls : (sendReqSend l.client a ele false).calls =
          l.client.calls ++ [⟨a, ele, true⟩] := rfl
      have hacc := accepted_snoc hcalls
      refine ⟨List.perm_iff_count.mpr fun x => ?_, ?_⟩
      · have := hplaces x
        simp only [Link.places, hacc, if_true, List.count_append]
        simp only [sendReqSend, List.map_append, List.map_cons, List.map_nil, List.count_append,
          Bool.false_eq_true, if_false]
        omega
      · simp only [hacc, if_true, List.length_append, List.length_singleton]
        show _ ≤ l.client.recvs + l.client.delivered.length
        omega

theorem covered_step (hl : l.Covered) (h : step l e = .ok l') : l'.Covered := by
  have hplaces := List.perm_iff_count.mp hl.places
  have hrecvs := hl.recvs
  simp only [Link.places, List.count_append] at hplaces
  cases e with
  | postRecv a pick refuse => exact covered_postRecv hl h
  | postSend i refuse => exact covered_postSend hl h
  | transmit =>
      obtain ⟨p, hp, h⟩ := Outcome.bind_eq_ok.mp h
      obtain ⟨c, hc, h⟩ := Outcome.bind_eq_ok.mp h
      cases h
      obtain ⟨p', sends, hsends, rfl⟩ := react_transmit hc
      obtain rfl : p' = p := by simpa [hsends] using hp
      refine ⟨List.perm_iff_count.mpr fun x => ?_, hrecvs⟩
      have := hplaces x
      rw [hsends, List.map_cons, List.count_cons] at this
      simp only [Link.places, List.count_append, List.count_singleton]
      show _ = List.count x l.client.accepted
      omega
  | arrive i =>
      obtain ⟨k, hk, h⟩ := Outcome.bind_eq_ok.mp h
      cases h
      refine ⟨List.perm_iff_count.mpr fun x => ?_, hrecvs⟩
      have hx := count_eraseIdx (Outcome.choose_eq_ok.mp hk) x
      have := hplaces x
      simp only [Link.places, List.count_append, List.count_singleton, beq_iff_eq]
      omega
  | answer i =>
      obtain ⟨k, hk, h⟩ := Outcome.bind_eq_ok.mp h
      cases h
      refine ⟨List.perm_iff_count.mpr fun x => ?_, hrecvs⟩
      have hx := count_eraseIdx (Outcome.choose_eq_ok.mp hk) x
      have := hplaces x
      simp only [Link.places, List.count_append, List.count_singleton, beq_iff_eq]
      omega
  | deliver i imm byteLen =>
      obtain ⟨k, hk, h⟩ := Outcome.bind_eq_ok.mp h
      obtain ⟨c, hc, h⟩ := Outcome.bind_eq_ok.mp h
      cases h
      obtain ⟨hpos, rfl⟩ := react_deliver.mp hc
      refine ⟨List.perm_iff_count.mpr fun x => ?_, ?_⟩
      · have hx := count_eraseIdx (Outcome.choose_eq_ok.mp hk) x
        have := hplaces x
        simp only [Link.places, List.count_append, List.count_singleton, beq_iff_eq]
        show _ = List.count x l.client.accepted
        omega
      · show l.client.accepted.length + _ ≤ _
        simp only [List.length_append, List.length_singleton]
        omega
  | sendDone en =>
      obtain ⟨c, hc, h⟩ := Outcome.bind_eq_ok.mp h
      cases h
      exact hl.quiet rfl hc
  | poll t k =>
      obtain ⟨c, hc, h⟩ := Outcome.bind_eq_ok.mp h
      cases h
      exact hl.quiet rfl hc
  | handle t =>
      obtain ⟨c, hc, h⟩ := Outcome.bind_eq_ok.mp h
      cases h
      exact hl.quiet rfl hc
  | put t =>
      obtain ⟨c, hc, h⟩ := Outcome.bind_eq_ok.mp h
      cases h
      exact hl.quiet rfl hc

theorem covered_init {conn : ConnId} {qp : QpNum} {buf : Nat} {mem : Mem} :
    (init conn qp buf mem).Covered :=
  ⟨.refl [], Nat.le_refl 0⟩

/-- The requests that are sent for are those not yet delivered, and as many. -/
theorem Covered.length_outstanding (hl : l.Covered) :
    l.outstanding.length + l.client.delivered.length = l.client.accepted.length := by
  have hnd : l.client.accepted.Nodup := List.nodup_range.filter _
  have hperm := hl.places
  rw [Link.places] at hperm
  have hdel : l.client.delivered.Nodup := (List.nodup_append.mp (hperm.nodup_iff.mpr hnd)).2.1
  have hsub : ∀ k ∈ l.client.delivered, k ∈ l.client.accepted := fun k hk =>
    hperm.subset (List.mem_append_right _ hk)
  have hin : (l.client.accepted.filter (· ∈ l.client.delivered)).Perm l.client.delivered := by
    refine (List.perm_ext_iff_of_nodup (hnd.filter _) hdel).mpr fun k => ?_
    simp only [List.mem_filter, decide_eq_true_eq]
    exact ⟨And.right, fun hk => ⟨hsub k hk, hk⟩⟩
  have hsplit := List.length_eq_length_filter_add (l := l.client.accepted) (· ∈ l.client.delivered)
  rw [hsplit, hin.length_eq, outstanding]
  simp only [decide_not]
  omega

/-- **Every response finds a posted receive.**  There are as many receives as requests sent for, and
one when an answer is on its way. -/
theorem recvs_cover {conn : ConnId} {qp : QpNum} {buf : Nat} {mem : Mem} {tr : List Event}
    (h : run step (init conn qp buf mem) tr = .ok l) :
    l.outstanding.length ≤ l.client.recvs ∧ (l.answers ≠ [] → 0 < l.client.recvs) := by
  have hl : l.Covered := run_invariant (P := Covered) (fun _ _ _ => covered_step) covered_init h
  have hout := hl.length_outstanding
  have hrecvs := hl.recvs
  refine ⟨by omega, fun hne => ?_⟩
  have hlen := hl.places.length_eq
  simp only [Link.places, List.length_append] at hlen
  have hpos := List.length_pos_iff.mpr hne
  omega

end

/-- The first request, up to the answer of the server. -/
def firstAnswer : List Event :=
  [.postRecv smallReq 0 false, .postSend 0 false, .transmit, .arrive 0, .answer 0]

theorem recvs_cover_firstAnswer :
    ∃ l, run step (init 0 7 4096 fun _ => 0) firstAnswer = .ok l ∧ l.answers = [0] ∧
      0 < l.client.recvs := by
  obtain ⟨mp, hget⟩ : ∃ mp, kvMempoolGet (Client.init 0 7 4096).mp 0 = some (4096, mp) :=
    ⟨_, get_init 0 7 4096⟩
  have hcall : sendReqRecv (Client.init 0 7 4096) (fun _ => 0) smallReq 0 false = .ok
      ({ (Client.init 0 7 4096).take smallReq 4096 mp with recvs := 1 },
        Mem.write (fun _ => 0) 64 (header mp smallReq 4096).bytes, some 4096) := by
    simp only [sendReqRecv, hget]
    rfl
  have hrun : ∃ l, run step (init 0 7 4096 fun _ => 0) firstAnswer = .ok l ∧ l.answers = [0] := by
    simp only [firstAnswer, run_cons, step, init, hcall]
    exact ⟨_, rfl, rfl⟩
  obtain ⟨l, hl, ha⟩ := hrun
  exact ⟨l, hl, ha, (recvs_cover hl).2 (by simp [ha])⟩

end Link

end Client

end RdmaRpc
