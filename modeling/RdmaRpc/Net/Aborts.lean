import RdmaRpc.Net.Correlation
import RdmaRpc.Net.Credits

/-!
# Net — Aborts

Which requests go through without an abort.  `on_recv_req` asserts that a message is longer than
its header, and `on_recv_resp` calls the callback without a look at it, so a request of size 0
aborts the server and one with a `NULL` callback the client; `kv_rdma_send_req` accepts both.  It
also accepts more requests than the server has receives for, and the send of one that finds none
fails (`requests_abort`).

Where each request carries a payload and a callback, its message is no longer than the receives
posted for it, and the requests are within the server's credits, every request accepted is processed
(`requests_processed`): its message takes a receive, lands, reaches the handler with its size, and its
response the callback.
-/

namespace RdmaRpc
open Lib

/-- The request fits in its memory region and in the server's messages. -/
def SendReq.Admissible (cfg : ServerCfg) (a : SendReq) : Prop :=
  a.reqSz.toNat + headerSize ≤ a.req.length ∧ a.reqSz.toNat ≤ cfg.maxMsgSz

/-- The request has a payload and a callback, and its message fits in the receives of the server,
whose lengths are cut to 32 bits. -/
structure SendReq.Sane (cfg : ServerCfg) (a : SendReq) : Prop where
  payload : 0 < a.reqSz.toNat
  cb : a.cb ≠ none
  slot : a.reqSz.toNat + headerSize ≤ u32 (Server.slotSz cfg)
  region : a.reqSz.toNat + headerSize ≤ u32 (Server.regionSz cfg)

theorem SendReq.sane_iff {cfg : ServerCfg} {a : SendReq} : a.Sane cfg ↔ 0 < a.reqSz.toNat ∧ a.cb ≠ none ∧
    a.reqSz.toNat + headerSize ≤ u32 (Server.slotSz cfg) ∧
    a.reqSz.toNat + headerSize ≤ u32 (Server.regionSz cfg) :=
  ⟨fun h => ⟨h.payload, h.cb, h.slot, h.region⟩, fun ⟨h₁, h₂, h₃, h₄⟩ => ⟨h₁, h₂, h₃, h₄⟩⟩

namespace Net

/-- The requests the step makes are `P`. -/
def Event.Asks (P : SendReq → Prop) : Event → Prop
  | .sendReq _ a _ => P a
  | _ => True

/-- The step keeps the contract, and makes admissible requests. -/
def Promised (cfg : ServerCfg) (n : Net) (e : Event) : Prop :=
  n.Contract e ∧ e.Asks (SendReq.Admissible cfg)

/-- The client has made sane requests, and posted a receive for each. -/
structure Ready (cfg : ServerCfg) (c : Client) : Prop where
  up : c.stage = .up
  lively : c.Lively
  calls : ∀ call ∈ c.calls, call.args.Sane cfg
  recvs : c.recvs + c.delivered.length = c.calls.length
  nodup : c.delivered.Nodup

/-- Nothing aborts, and each request moves on. -/
structure Processes (n : Net) : Prop where
  fault : ∀ e f, e.Asks (fun a => a.reqSz.toNat ≤ a.req.length) → step n e = .fault f →
    ∃ q a pick c, e = .sendReq q a pick ∧ n.clients q = some c ∧ c.mp.free = []
  take : ∀ q, Keyed.queue q n.wire ≠ [] → Keyed.queue q n.server.taken = [] →
    ∃ n', step n (.take q) = .ok n'
  place : ∀ q m wire tk taken len, Keyed.pop q n.wire = some (m, wire) →
    Keyed.pop q n.server.taken = some (tk, taken) → ∃ n', step n (.place q len) = .ok n'
  arrive : ∀ q m wire tk taken, Keyed.pop q n.wire = some (m, wire) →
    Keyed.pop q n.server.taken = some (tk, taken) → tk.placed = m.bytes.length →
    ∃ n', step n (.arrive q) = .ok n'
  recvReq : ∀ t ce cq, n.server.cq.next t = some (ce, cq) → ce.kind = .serverRecv →
    Keyed.queue t n.server.looked = [] →
    ∃ n', step n (.server (.handle t)) = .ok n' ∧ n'.server.looked = n.server.looked ++ [(t, ce)]
  handler : ∀ t ce looked, Keyed.pop t n.server.looked = some (ce, looked) →
    ∃ n' hd c call, step n (.server (.dispatch t)) = .ok n' ∧
      n'.server.held = n.server.held ++ [(ce.wc.wrId, hd)] ∧ hd.origin = ce.origin ∧
      n.clients ce.origin.qp = some c ∧ c.calls[ce.origin.call]? = some call ∧
      hd.call.reqSz = call.args.reqSz.toNat
  land : ∀ q p sends, Keyed.pop q n.server.sends = some (p, sends) → ∃ n', step n (.land q) = .ok n'
  recvResp : ∀ q c t ce cq, n.clients q = some c → c.cq.next t = some (ce, cq) →
    Client.Responds ce.wc = true → Keyed.queue t c.returning = [] →
    ∃ n' call cb, step n (.client q (.handle t)) = .ok n' ∧ c.calls[ce.origin.call]? = some call ∧
      call.args.cb = some cb ∧ (n'.clients q).map Client.called =
        some (c.called ++ [Client.callbackOf c.conn call cb ce.origin.call])
  put : ∀ q c t ele returning, n.clients q = some c → Keyed.pop t c.returning = some (ele, returning) →
    ∃ n', step n (.client q (.put t)) = .ok n'

instance (P : SendReq → Prop) [DecidablePred P] : DecidablePred (Event.Asks P)
  | .sendReq _ a _ => inferInstanceAs (Decidable (P a))
  | .connect .. | .transmit _ | .take _ | .place .. | .arrive _ | .server _ | .answer .. | .land _
  | .client .. | .write .. => isTrue trivial

section
variable {cfg : ServerCfg} {n n' : Net} {e : Event} {q : QpNum} {c c' : Client} {o : Origin}
  {t : Ticket} {f : Fault}

/-! ### Clients -/

theorem ready_init {buf : Nat} : Ready cfg (.init q q buf) where
  up := rfl
  lively := ⟨fun _ he => (by cases he), fun h => absurd rfl h, fun h => absurd (.inl rfl) h⟩
  calls := fun _ h => nomatch h
  recvs := rfl
  nodup := List.nodup_nil

/-- A response taken off the server's send queue finds a receive. -/
theorem Ready.recvs_pos (hr : Ready cfg c) (hm : Matched cfg n) (hl : n.Linked)
    (hc : n.clients q = some c) {p : Posted} (hp : (q, p) ∈ n.server.sends) : 0 < c.recvs := by
  have hnew := hm.not_delivered hl hc hp
  have hlt : ∀ k ∈ p.origin.call :: c.delivered, k ∈ List.range c.calls.length := by
    intro k hk
    rw [List.mem_range]
    have hticket : ∃ t, c.ticket k = some t := by
      rcases List.mem_cons.mp hk with rfl | hk
      · obtain ⟨t, a, -, hw⟩ := hm.serves.sends q p hp
        have ht := hw.ticket
        rw [ticket, hw.qp, hc] at ht
        exact ⟨t, ht⟩
      · obtain ⟨t, ht, -⟩ := hm.delivered q c hc k hk
        exact ⟨t, ht⟩
    obtain ⟨t, ht⟩ := hticket
    obtain ⟨call, hcall, -⟩ := ticket_eq_some.mp ht
    exact Client.lt_of_getElem? hcall
  have hle := (List.subperm_of_subset (List.nodup_cons.mpr ⟨hnew, hr.nodup⟩) hlt).length_le
  rw [List.length_cons, List.length_range] at hle
  have := hr.recvs
  omega

theorem Ready.frame (hr : Ready cfg c) (hl : c'.Lively) (hstage : c'.stage = c.stage)
    (hcalls : c'.calls = c.calls) (hrecvs : c'.recvs = c.recvs) (hdel : c'.delivered = c.delivered) :
    Ready cfg c' where
  up := hstage.trans hr.up
  lively := hl
  calls := hcalls ▸ hr.calls
  recvs := by rw [hrecvs, hdel, hcalls]; exact hr.recvs
  nodup := hdel ▸ hr.nodup

theorem ready_step (hR : ∀ q c, n.clients q = some c → Ready cfg c) (hm : Matched cfg n)
    (hl : n.Linked) (hcon : e.Asks (SendReq.Sane cfg)) (h : step n e = .ok n')
    (hc' : n'.clients q = some c') : Ready cfg c' := by
  rcases client_step h hc' with hc | ⟨host, buf, -, rfl⟩ | ⟨c, e', mem', hc, he, hs⟩
  · exact hR q c' hc
  · exact ready_init
  · have hr := hR q c hc
    have hlively : (c, n.mem (n.host q)).1.Orderly e' → c'.Lively := fun ho =>
      Client.lively_step (s := (c, n.mem (n.host q))) hr.lively ho hs
    cases e with
    | sendReq q' a pick =>
        simp only [clientEvent, Option.ite_none_right_eq_some, Option.some.injEq] at he
        obtain ⟨-, rfl⟩ := he
        obtain ⟨-, -, ele, mp, -, -, hcase⟩ := Client.kvRdmaSendReq_eq_ok hs
        rcases hcase with ⟨h, -⟩ | ⟨-, h, -⟩ | ⟨-, -, hc₁⟩
        · cases h
        · cases h
        · refine ⟨?_, hlively trivial, fun call hcall => ?_, ?_, ?_⟩
          · rw [hc₁]; exact hr.up
          · rw [hc₁] at hcall
            rcases List.mem_append.mp hcall with hcall | hcall
            · exact hr.calls call hcall
            · cases List.mem_singleton.mp hcall
              exact hcon
          · -- kv_rdma_send_req posts a receive for each request
            have := hr.recvs
            rw [hc₁]
            simp only [Client.accept, Client.take, List.length_append, List.length_singleton]
            omega
          · rw [hc₁]; exact hr.nodup
    | transmit q' =>
        simp only [clientEvent, Option.ite_none_right_eq_some, Option.some.injEq] at he
        obtain ⟨-, rfl⟩ := he
        obtain ⟨p, sends, -, hc₁⟩ := Client.react_transmit (react_of_step (by simp) hs)
        exact hr.frame (hlively trivial) (by rw [hc₁]) (by rw [hc₁]) (by rw [hc₁]) (by rw [hc₁])
    | land q' =>
        simp only [clientEvent, Option.ite_none_right_eq_some, Option.map_eq_some_iff] at he
        obtain ⟨rfl, ⟨p, sends⟩, hp, rfl⟩ := he
        obtain ⟨hpos, hc₁⟩ := Client.react_deliver.mp (react_of_step (by simp) hs)
        -- the receive of this request is still posted, for its response comes once
        have hnew := hm.not_delivered hl hc (Keyed.mem_of_pop hp)
        refine ⟨?_, hlively trivial, ?_, ?_, ?_⟩
        · rw [hc₁]; exact hr.up
        · rw [hc₁]; exact hr.calls
        · have := hr.recvs
          rw [hc₁]
          simp only [List.length_append, List.length_singleton]
          omega
        · rw [hc₁]
          exact List.nodup_append.mpr ⟨hr.nodup, List.nodup_singleton _, fun k hk k' hk' heq =>
            hnew (by rw [← List.mem_singleton.mp hk', ← heq]; exact hk)⟩
    | client q' e =>
        simp only [clientEvent, Option.ite_none_right_eq_some, Option.some.injEq] at he
        obtain ⟨⟨-, hin⟩, rfl⟩ := he
        have hr' : Client.react c e = .ok c' :=
          react_of_step (by rintro a pick rr rs rfl; cases hin) hs
        obtain ⟨-, hdel, hcalls, -, hstage, hrecvs⟩ := react_inside hin hr'
        have ho : (c, n.mem (n.host q)).1.Orderly e := by
          cases e with
          | sendDone en =>
              cases en with
              | good => trivial
              | bad code fields => cases hin
          | sendFail code fields => cases hin
          | recvFail code fields => cases hin
          | poll t k => exact fun hfreed => absurd (hr.up.symm.trans hfreed) (by decide)
          | disconnected => cases hin
          | destroyQp drop => cases hin
          | _ => trivial
        exact hr.frame (hlively ho) hstage hcalls hrecvs hdel
    | _ => cases he

/-- What is known of a request with a ticket. -/
theorem sane_of_ticket (hR : ∀ q c, n.clients q = some c → Ready cfg c) (ht : n.ticket o = some t) :
    ∃ c call, n.clients o.qp = some c ∧ c.calls[o.call]? = some call ∧ call.args.Sane cfg ∧
      t.len = call.args.reqSz.toNat + headerSize := by
  obtain ⟨c, hc, hticket⟩ := Option.bind_eq_some_iff.mp ht
  obtain ⟨call, hcall, -, rfl⟩ := ticket_eq_some.mp hticket
  have hsane := (hR _ c hc).calls call (List.mem_of_getElem? hcall)
  refine ⟨c, call, hc, hcall, hsane, u32_of_lt (Nat.lt_of_le_of_lt hsane.slot (u32_lt _))⟩

/-- A message fits in the receives posted. -/
theorem sane_of_wire (hm : Matched cfg n) (hR : ∀ q c, n.clients q = some c → Ready cfg c) {m : Msg}
    (hw : (q, m) ∈ n.wire) : (n.clients q).isSome ∧
      m.bytes.length ≤ u32 (Server.slotSz cfg) ∧ m.bytes.length ≤ u32 (Server.regionSz cfg) := by
  obtain ⟨t, hcar⟩ := hm.wire q m hw
  obtain ⟨c, call, hc, -, hsane, ht⟩ := sane_of_ticket hR hcar.ticket
  rw [hcar.len, ht, hcar.qp, hc]
  exact ⟨rfl, hsane.slot, hsane.region⟩

section
variable {mem : Mem} {hosts : Nat → Mem} {tr : List Event}

/-- Sane requests keep to their slots. -/
theorem fitting_of_sane (hr : run step (init cfg mem hosts) tr = .ok n) (hm : Matched cfg n)
    (hR : ∀ q c, n.clients q = some c → Ready cfg c) : n.Fitting e := by
  cases e with
  | take q =>
      intro m hhead wr hwr sge hsge
      obtain ⟨tr', hrun, -⟩ := server_run hr
      have hplace := Server.mem_places_srq (List.mem_of_mem_head? hwr)
      have hlen := (sane_of_wire hm hR (Keyed.mem_queue.mp (List.mem_of_mem_head? hhead))).2.1
      rw [Server.mr_eq_slot hrun hplace, Server.slot_length (Server.lt_of_mem_places hrun hplace)]
      exact .inl (hlen.trans (u32_le _))
  | _ => trivial

/-! ### Faults -/

theorem server_ne_fault (hr : run step (init cfg mem hosts) tr = .ok n) (hm : Matched cfg n)
    (hR : ∀ q c, n.clients q = some c → Ready cfg c) {e : Server.Event} :
    Server.step n.server e ≠ .fault f := by
  intro h
  obtain ⟨tr', hrun, hg⟩ := server_run hr
  obtain ⟨ce, hce, hk, hlen⟩ :=
    (smooth_run hr).step_fault (Server.lively_good hg hrun) (Server.wired_run hrun) h
  obtain ⟨t, hcar⟩ := hm.serves.arrived ce hce hk
  obtain ⟨c, call, -, -, hsane, ht⟩ := sane_of_ticket hR hcar.ticket
  have := hsane.payload
  rw [hcar.len, ht] at hlen
  omega

theorem client_ne_fault (hm : Matched cfg n) (hR : ∀ q c, n.clients q = some c → Ready cfg c)
    (hc : n.clients q = some c) {e : Client.Event} : Client.react c e ≠ .fault f :=
  (hm.sound q c hc).react_ne_fault (hR q c hc).lively (hR q c hc).up fun call hcall =>
    ((hR q c hc).calls call hcall).cb

/-- Within the credits a queue pair with nothing in progress finds a receive for its next message. -/
theorem srq_ne_nil (hr : run step (init cfg mem hosts) tr = .ok n) (hw : Keyed.queue q n.wire ≠ [])
    (hidle : Keyed.queue q n.server.taken = [])
    (hcred : n.outstanding.length + n.uncredited.length ≤ cfg.conReqNum) : n.server.srq ≠ [] :=
  srq_ne_nil_of_credits hr ((linked_run hr).length_taken_lt (workLive_run hr) hw hidle) hcred

/-- The one thing that can fail is that `kv_mempool_get` finds no element. -/
theorem step_fault (hr : run step (init cfg mem hosts) tr = .ok n) (hm : Matched cfg n)
    (hR : ∀ q c, n.clients q = some c → Ready cfg c)
    (hcred : n.outstanding.length + n.uncredited.length ≤ cfg.conReqNum)
    (hask : e.Asks fun a => a.reqSz.toNat ≤ a.req.length) (h : step n e = .fault f) :
    ∃ q a pick c, e = .sendReq q a pick ∧ n.clients q = some c ∧ c.mp.free = [] := by
  have hserver : ∀ {e f}, Server.step n.server e = .fault f → False := server_ne_fault hr hm hR
  have hclient : ∀ {q c e f}, n.clients q = some c → Client.react c e = .fault f → False :=
    fun hc => client_ne_fault hm hR hc
  cases e with
  | sendReq q a pick =>
      simp only [step, Outcome.bind_eq_fault, Outcome.choose_ne_fault, Outcome.choose_eq_ok, false_or,
        Outcome.pure_eq, reduceCtorEq, and_false, exists_false, or_false] at h
      obtain ⟨c, hc, h⟩ := h
      refine ⟨q, a, pick, c, rfl, hc, ?_⟩
      rcases Client.kvRdmaSendReq_eq_fault h with hup | hfree | hsz
      · exact absurd (hR q c hc).up hup
      · exact hfree
      · exact absurd hask hsz
  | connect q host buf =>
      simp only [step, Outcome.bind_eq_fault, Outcome.pure_eq, reduceCtorEq, and_false, exists_false,
        or_false] at h
      exact (hserver h).elim
  | transmit q =>
      simp only [step, Outcome.bind_eq_fault, Outcome.choose_ne_fault, Outcome.choose_eq_ok, false_or,
        Outcome.pure_eq, reduceCtorEq, and_false, exists_false, or_false] at h
      obtain ⟨c, hc, p, -, h⟩ := h
      exact (hclient hc h).elim
  | take q =>
      simp only [step, Outcome.bind_eq_fault, Outcome.require_ne_fault, Outcome.require_eq_ok,
        Outcome.check_eq_fault, Outcome.check_eq_ok, false_or, Outcome.pure_eq, reduceCtorEq, and_false,
        exists_false, or_false] at h
      obtain ⟨-, ⟨hw, hidle⟩, ⟨hne, -⟩ | ⟨-, -, h⟩⟩ := h
      · exact absurd (srq_ne_nil hr hw hidle hcred) hne
      · exact (hserver h).elim
  | place q len =>
      simp only [step, Outcome.bind_eq_fault, Outcome.choose_ne_fault, Outcome.choose_eq_ok, false_or,
        Outcome.pure_eq, reduceCtorEq, and_false, exists_false, or_false, Prod.exists] at h
      obtain ⟨m, wire, -, tk, taken, -, h⟩ := h
      exact (hserver h).elim
  | arrive q =>
      simp only [step, Outcome.bind_eq_fault, Outcome.choose_ne_fault, Outcome.choose_eq_ok,
        Outcome.require_ne_fault, Outcome.require_eq_ok, false_or, Outcome.pure_eq, reduceCtorEq,
        and_false, exists_false, or_false, Prod.exists] at h
      obtain ⟨m, wire, -, tk, taken, -, -, -, h⟩ := h
      exact (hserver h).elim
  | server e =>
      simp only [step, Outcome.bind_eq_fault, Outcome.require_ne_fault, Outcome.require_eq_ok, false_or,
        Outcome.pure_eq, reduceCtorEq, and_false, exists_false, or_false] at h
      obtain ⟨-, -, h⟩ := h
      exact (hserver h).elim
  | answer i resp respSz =>
      simp only [step, Outcome.bind_eq_fault, Outcome.pure_eq, reduceCtorEq, and_false, exists_false,
        or_false] at h
      exact (hserver h).elim
  | land q =>
      simp only [step, Outcome.bind_eq_fault, Outcome.choose_ne_fault, Outcome.choose_eq_ok, false_or,
        Outcome.pure_eq, reduceCtorEq, and_false, exists_false, or_false, Prod.exists] at h
      obtain ⟨p, sends, -, h | ⟨server, -, c, hc, h⟩⟩ := h
      · exact (hserver h).elim
      · exact (hclient hc h).elim
  | client q e =>
      simp only [step, Outcome.bind_eq_fault, Outcome.require_ne_fault, Outcome.require_eq_ok,
        Outcome.choose_ne_fault, Outcome.choose_eq_ok, false_or, Outcome.pure_eq, reduceCtorEq,
        and_false, exists_false, or_false] at h
      obtain ⟨-, -, c, hc, h⟩ := h
      exact (hclient hc h).elim
  | write host addr bytes => simp [step] at h

/-! ### Steps that can be taken -/

theorem exists_take (hr : run step (init cfg mem hosts) tr = .ok n) (hm : Matched cfg n)
    (hR : ∀ q c, n.clients q = some c → Ready cfg c)
    (hcred : n.outstanding.length + n.uncredited.length ≤ cfg.conReqNum)
    (hw : Keyed.queue q n.wire ≠ []) (hidle : Keyed.queue q n.server.taken = []) :
    ∃ n', step n (.take q) = .ok n' := by
  have hne := srq_ne_nil hr hw hidle hcred
  obtain ⟨m, hmem⟩ := List.exists_mem_of_ne_nil _ hw
  have hknown := (sane_of_wire hm hR (Keyed.mem_queue.mp hmem)).1
  obtain ⟨tr', hrun, -⟩ := server_run hr
  obtain ⟨server, hs⟩ := Server.take_ok hrun (((linked_run hr).known q).mp hknown) hidle hne
  refine ⟨{ n with server }, ?_⟩
  simp only [step, Outcome.require, if_pos (And.intro hw hidle), Outcome.check, if_pos hne,
    Outcome.ok_bind, hs, Outcome.pure_eq]

theorem exists_place (hr : run step (init cfg mem hosts) tr = .ok n) (hm : Matched cfg n)
    (hprog : InProgress cfg n) (hreg : Server.regionSz cfg < 2 ^ 64)
    (hR : ∀ q c, n.clients q = some c → Ready cfg c) {m : Msg} {wire : List (QpNum × Msg)} {tk : Taken}
    {taken : List (QpNum × Taken)} (len : Nat) (hw : Keyed.pop q n.wire = some (m, wire))
    (ht : Keyed.pop q n.server.taken = some (tk, taken)) : ∃ n', step n (.place q len) = .ok n' := by
  obtain ⟨-, hslot, hregion⟩ := sane_of_wire hm hR (Keyed.mem_of_pop hw)
  have hle : tk.placed + (m.next tk.placed len).length ≤ m.bytes.length :=
    Msg.length_next_le (hprog.landing hw ht).placed
  obtain ⟨tr', hrun, -⟩ := server_run hr
  obtain ⟨server, hs⟩ := Server.place_ok hrun hreg ht (hle.trans hslot) (hle.trans hregion)
  refine ⟨{ n with server }, ?_⟩
  simp only [step, hw, ht, Outcome.choose, Outcome.ok_bind, hs, Outcome.pure_eq]

theorem exists_arrive {m : Msg} {wire : List (QpNum × Msg)} {tk : Taken}
    {taken : List (QpNum × Taken)} (hw : Keyed.pop q n.wire = some (m, wire))
    (ht : Keyed.pop q n.server.taken = some (tk, taken)) (hlen : tk.placed = m.bytes.length) :
    ∃ n', step n (.arrive q) = .ok n' := by
  have hs : Server.step n.server (.arrive q (some m.imm) m.origin) = .ok _ :=
    Server.step_arrive.mpr ⟨tk, taken, ht, rfl⟩
  simp only [step, hw, ht, Outcome.choose, Outcome.require, if_pos hlen, Outcome.ok_bind, hs,
    Outcome.pure_eq, Outcome.ok.injEq, exists_eq']

theorem exists_handle (hr : run step (init cfg mem hosts) tr = .ok n) (hm : Matched cfg n)
    (hR : ∀ q c, n.clients q = some c → Ready cfg c) {th : Thread} {ce : Cqe Nat}
    {cq : Completions Nat} (hn : n.server.cq.next th = some (ce, cq)) (hk : ce.kind = .serverRecv)
    (hq : Keyed.queue th n.server.looked = []) : ∃ n', step n (.server (.handle th)) = .ok n' ∧
      n'.server.looked = n.server.looked ++ [(th, ce)] := by
  have hb : Server.step n.server (.handle th) ≠ .blocked := by
    simp [Server.step, Outcome.bind_eq_blocked, hq, hn, Server.onCompletion_ne_blocked]
  obtain ⟨server, hs⟩ := Outcome.exists_ok hb fun f => server_ne_fault hr hm hR
  refine ⟨{ n with server }, ?_, ?_⟩
  · simp only [step, Server.Event.inside, Outcome.require, if_true, Outcome.ok_bind, hs, Outcome.pure_eq]
  · obtain ⟨-, ce', cq', hn', hc⟩ := Server.step_handle hs
    rw [hn, Option.some.injEq, Prod.mk.injEq] at hn'
    obtain ⟨rfl, rfl⟩ := hn'
    obtain ⟨hst, ⟨-, hop, -⟩ | ⟨hk', -⟩⟩ := (smooth_run hr).cq ce (Completions.mem_of_next hn)
    · rcases Server.onCompletion_eq_ok hc with ⟨hre, -⟩ | ⟨-, -, -, -, rfl⟩ | ⟨hop', -⟩
      · rcases hre with hre | ⟨-, hre⟩
        · rw [hop] at hre; cases hre
        · exact absurd hst hre
      · rfl
      · simp [hop] at hop'
    · rw [hk] at hk'; cases hk'

theorem exists_dispatch (hr : run step (init cfg mem hosts) tr = .ok n) (hm : Matched cfg n)
    (hR : ∀ q c, n.clients q = some c → Ready cfg c) {th : Thread} {ce : Cqe Nat}
    {looked : List (Thread × Cqe Nat)} (hp : Keyed.pop th n.server.looked = some (ce, looked)) :
    ∃ n' hd c call, step n (.server (.dispatch th)) = .ok n' ∧
      n'.server.held = n.server.held ++ [(ce.wc.wrId, hd)] ∧ hd.origin = ce.origin ∧
      n.clients ce.origin.qp = some c ∧ c.calls[ce.origin.call]? = some call ∧
      hd.call.reqSz = call.args.reqSz.toNat := by
  have hb : Server.step n.server (.dispatch th) ≠ .blocked := by
    simp [Server.step, Outcome.bind_eq_blocked, hp, Server.onRecvReqCall_ne_blocked]
  obtain ⟨server, hs⟩ := Outcome.exists_ok hb fun f => server_ne_fault hr hm hR
  obtain ⟨⟨t, hcar⟩, -⟩ := hm.serves.looked _ (Keyed.mem_of_pop hp)
  obtain ⟨c, call, hc, hcall, hsane, hlen⟩ := sane_of_ticket hR hcar.ticket
  obtain ⟨ce', looked', conn, record, hp', -, -, -, hs'⟩ := Server.step_dispatch hs
  rw [hp, Option.some.injEq, Prod.mk.injEq] at hp'
  obtain ⟨rfl, rfl⟩ := hp'
  refine ⟨{ n with server }, _, c, call, ?_, by rw [hs'], rfl, hc, hcall, ?_⟩
  · simp only [step, Server.Event.inside, Outcome.require, if_true, Outcome.ok_bind, hs, Outcome.pure_eq]
  · show u32 (ce.wc.byteLen - headerSize) = call.args.reqSz.toNat
    have hlt : call.args.reqSz.toNat + headerSize < 2 ^ 32 :=
      Nat.lt_of_le_of_lt hsane.slot (u32_lt _)
    rw [hcar.len, hlen, Nat.add_sub_cancel, u32_of_lt (Nat.lt_of_le_of_lt (Nat.le_add_right _ _) hlt)]

theorem exists_land (hr : run step (init cfg mem hosts) tr = .ok n) (hm : Matched cfg n)
    (hR : ∀ q c, n.clients q = some c → Ready cfg c) {p : Posted} {sends : List (QpNum × Posted)}
    (hp : Keyed.pop q n.server.sends = some (p, sends)) : ∃ n', step n (.land q) = .ok n' := by
  have hmem := Keyed.mem_of_pop hp
  obtain ⟨t, a, -, hw⟩ := hm.serves.sends q p hmem
  obtain ⟨c, hc, -⟩ := Option.bind_eq_some_iff.mp hw.ticket
  rw [hw.qp] at hc
  have hpos := (hR q c hc).recvs_pos hm (linked_run hr) hc hmem
  have hs : ∃ server, Server.step n.server (.land q) = .ok server := by
    simp [Server.step, hp, Outcome.choose]
  obtain ⟨server, hs⟩ := hs
  obtain ⟨c', hd⟩ : ∃ c', Client.react c
      (.deliver p.origin.call p.wr.immData (n.response q p).bytes.length) = .ok c' :=
    ⟨_, Client.react_deliver.mpr ⟨hpos, rfl⟩⟩
  simp only [step, hp, Outcome.choose, Outcome.ok_bind, hs, hc, hd, Outcome.pure_eq,
    Outcome.ok.injEq, exists_eq']

theorem exists_recvResp (hm : Matched cfg n) (hR : ∀ q c, n.clients q = some c → Ready cfg c)
    (hc : n.clients q = some c) {th : Thread} {ce : Cqe ClientWrId} {cq : Completions ClientWrId}
    (hn : c.cq.next th = some (ce, cq)) (hresp : Client.Responds ce.wc = true)
    (hq : Keyed.queue th c.returning = []) :
    ∃ n' call cb, step n (.client q (.handle th)) = .ok n' ∧
      c.calls[ce.origin.call]? = some call ∧ call.args.cb = some cb ∧
      (n'.clients q).map Client.called =
        some (c.called ++ [Client.callbackOf c.conn call cb ce.origin.call]) := by
  have hb : Client.react c (.handle th) ≠ .blocked := by
    simp [Client.react, Outcome.bind_eq_blocked, hq, hn, Client.onCompletion_ne_blocked]
  obtain ⟨c', hs⟩ := Outcome.exists_ok hb fun f => client_ne_fault hm hR hc
  have hsound := hm.sound q c hc
  have hce : ce ∈ c.cq.all := (Completions.all_next hn).mem_iff.mpr List.mem_cons_self
  obtain ⟨ce', cq', hn', hcase⟩ := Client.react_handle hs
  rw [hn, Option.some.injEq, Prod.mk.injEq] at hn'
  obtain ⟨rfl, rfl⟩ := hn'
  -- a response goes to `on_recv_resp`, which calls back
  rcases hcase with ⟨-, -, -, -, ctx, cb, hctx, hcb, hc'⟩ | ⟨hop, -⟩
  · obtain ⟨call, hw, -, -, hcb, heq⟩ := hsound.callback_eq hce hresp hctx hcb
    refine ⟨n.setClient q c', call, cb, ?_, hw.recorded, hcb, ?_⟩
    · simp only [step, Client.Event.inside, Outcome.require, if_true, Outcome.ok_bind, hc,
        Outcome.choose, hs, Outcome.pure_eq]
    · rw [clients_setClient, Option.map_some, hc', ← heq]
  · unfold Client.Responds at hresp
    split at hresp
    · exact absurd (of_decide_eq_true hresp) hop
    · cases hresp

theorem exists_put (hm : Matched cfg n) (hR : ∀ q c, n.clients q = some c → Ready cfg c)
    (hc : n.clients q = some c) {th : Thread} {ele : Nat} {returning : List (Thread × Nat)}
    (hp : Keyed.pop th c.returning = some (ele, returning)) :
    ∃ n', step n (.client q (.put th)) = .ok n' := by
  have hb : Client.react c (.put th) ≠ .blocked := by
    simp [Client.react, Client.onRecvRespPut, Outcome.bind_eq_blocked, hp]
  obtain ⟨c', hs⟩ := Outcome.exists_ok hb fun f => client_ne_fault hm hR hc
  refine ⟨n.setClient q c', ?_⟩
  simp only [step, Client.Event.inside, Outcome.require, if_true, Outcome.ok_bind, hc,
    Outcome.choose, hs, Outcome.pure_eq]

/-! ### Runs -/

/-- What runs of sane requests keep: the requests are matched, the messages in progress whole, and the
clients ready. -/
theorem ready_run (hreg : Server.regionSz cfg < 2 ^ 64)
    (hcon : Along step (fun n e => n.Contract e ∧ e.Asks (SendReq.Sane cfg)) (init cfg mem hosts) tr)
    (hr : run step (init cfg mem hosts) tr = .ok n) :
    Matched cfg n ∧ InProgress cfg n ∧ ∀ q c, n.clients q = some c → Ready cfg c := by
  have hinv : (Matched cfg n ∧ InProgress cfg n ∧ ∀ q c, n.clients q = some c → Ready cfg c) ∧
      ∃ tr, run step (init cfg mem hosts) tr = .ok n := by
    refine run_invariant_along
      (P := fun n => (Matched cfg n ∧ InProgress cfg n ∧ ∀ q c, n.clients q = some c → Ready cfg c) ∧
        ∃ tr, run step (init cfg mem hosts) tr = .ok n) ?_
      ⟨⟨matched_init, inProgress_init, fun _ _ h => nomatch h⟩, [], rfl⟩ hcon hr
    rintro n₁ e n₂ ⟨⟨hm, hprog, hR⟩, tr₁, hr₁⟩ ⟨hcon, hask⟩ h
    obtain ⟨tr', hserver, -⟩ := server_run hr₁
    have hl := linked_run hr₁
    refine ⟨⟨matched_step hm hl hserver hreg (smooth_run hr₁) hprog hcon h,
      inProgress_step hprog hr₁ hreg (fitting_of_sane hr₁ hm hR) h,
      fun q c hc => ready_step hR hm hl hask h hc⟩, tr₁ ++ [e], run_snoc_eq_ok.mpr ⟨n₁, hr₁, h⟩⟩
  exact hinv.1

/-- **Every accepted request is processed**, in runs that keep the contract and whose requests are
admissible and sane, as long as they are within the credits of the server. -/
theorem requests_processed (hreg : Server.regionSz cfg < 2 ^ 64)
    (hcon : Along step (fun n e => n.Promised cfg e ∧ e.Asks (SendReq.Sane cfg)) (init cfg mem hosts) tr)
    (hr : run step (init cfg mem hosts) tr = .ok n)
    (hcred : n.outstanding.length + n.uncredited.length ≤ cfg.conReqNum) : n.Processes := by
  obtain ⟨hm, hprog, hR⟩ := ready_run hreg (hcon.imp fun _ _ h => ⟨h.1.1, h.2⟩) hr
  exact {
    fault := fun e f hask h => step_fault hr hm hR hcred hask h
    take := fun q hw hidle => exists_take hr hm hR hcred hw hidle
    place := fun q m wire tk taken len hw ht => exists_place hr hm hprog hreg hR len hw ht
    arrive := fun q m wire tk taken hw ht hlen => exists_arrive hw ht hlen
    recvReq := fun t ce cq hn hk hq => exists_handle hr hm hR hn hk hq
    handler := fun t ce looked hp => exists_dispatch hr hm hR hp
    land := fun q p sends hp => exists_land hr hm hR hp
    recvResp := fun q c t ce cq hc hn hresp hq => exists_recvResp hm hR hc hn hresp hq
    put := fun q c t ele returning hc hp => exists_put hm hR hc hp }

end

/-! ### Runs of one and two clients -/

instance (a : SendReq) : Decidable (a.Admissible cfg) := inferInstanceAs (Decidable (_ ∧ _))
instance (a : SendReq) : Decidable (a.Sane cfg) := decidable_of_iff' _ SendReq.sane_iff
instance (n : Net) (e : Event) : Decidable (n.Promised cfg e) := inferInstanceAs (Decidable (_ ∧ _))

/-- Two requests on two connections, answered out of order, are processed up to their callbacks. -/
theorem requests_processed_twoClients :
    ∃ n, run step (init Server.twoContexts (fun _ => 0) fun _ _ => 0)
        ([.connect 7 0 8192, .connect 8 1 8192] ++ twoRequests) = .ok n ∧
      n.answers.map Answer.origin = [⟨8, 0⟩, ⟨7, 0⟩] ∧ (∀ q ∈ [7, 8], n.CallsBack q) ∧
      n.Processes := by
  have hend : Outcome.Ends (fun n : Net => n.answers.map Answer.origin = [⟨8, 0⟩, ⟨7, 0⟩] ∧
      (∀ q ∈ [7, 8], n.CallsBack q) ∧
      n.outstanding.length + n.uncredited.length ≤ Server.twoContexts.conReqNum)
      (run step twoClients twoRequests) := by decide +kernel
  have hcon : Along step (fun n e => n.Promised Server.twoContexts e ∧
      e.Asks (SendReq.Sane Server.twoContexts)) twoClients twoRequests := by decide +kernel
  obtain ⟨n, hn, horder, hback, hcred⟩ := Outcome.ends_iff.mp hend
  have hrun := run_append_eq_ok.mpr ⟨_, run_connects, hn⟩
  exact ⟨n, hrun, horder, hback, requests_processed (by decide)
    (along_connects (fun _ _ _ _ => ⟨⟨trivial, trivial⟩, trivial⟩) hcon) hrun hcred⟩

/-- A request is sent, and its message polled. -/
def upToMessage (a : SendReq) : List Event :=
  [.sendReq 7 a 0, .transmit 7, .take 7, .place 7 64, .arrive 7, .server (.poll 0 1)]

/-- The request is answered, and its response polled. -/
def upToResponse (a : SendReq) : List Event :=
  upToMessage a ++ [.server (.handle 0), .server (.dispatch 0), .answer 0 4108 4, .land 7,
    .client 7 (.poll 0 1)]

/-- A second request is sent while the first is in the server. -/
def twoAtOnce : List Event :=
  upToMessage Client.smallReq ++
    [.sendReq 7 { Client.smallReq with req := ⟨80, 16, 0, 0⟩, resp := ⟨132, 4, 0, 6⟩ } 0, .transmit 7]

/-- A run of the requests of one client on a server with one context ends in the fault `f`. -/
def Aborts (tr : List Event) (e : Event) (f : Fault) : Prop :=
  Along step (Promised oneContext) (init oneContext (fun _ => 0) fun _ _ => 0)
      ([.connect 7 0 8192] ++ tr) ∧
    Outcome.Ends (fun n => step n e = .fault f)
      (run step (init oneContext (fun _ => 0) fun _ _ => 0) ([.connect 7 0 8192] ++ tr))

theorem aborts_of_oneClient {tr : List Event} {e : Event} {f : Fault}
    (hcon : Along step (Promised oneContext) oneClient tr)
    (hend : Outcome.Ends (fun n => step n e = .fault f) (run step oneClient tr)) : Aborts tr e f := by
  obtain ⟨n, hn, hf⟩ := Outcome.ends_iff.mp hend
  exact ⟨along_connect ⟨trivial, trivial⟩ hcon,
    Outcome.ends_iff.mpr ⟨n, run_append_eq_ok.mpr ⟨_, run_connect, hn⟩, hf⟩⟩

/-- **A request of size 0 aborts the server, one without a callback its client, and one more than the
server has receives for fails.** -/
theorem requests_abort :
    Aborts (upToMessage { Client.smallReq with reqSz := 0 })
        (.server (.handle 0)) .assertByteLen ∧
      Aborts (upToResponse { Client.smallReq with cb := none }) (.client 7 (.handle 0)) .nullCallback ∧
      Aborts twoAtOnce (.take 7) .receiverNotReady := by
  refine ⟨aborts_of_oneClient ?_ ?_, aborts_of_oneClient ?_ ?_, aborts_of_oneClient ?_ ?_⟩ <;>
    decide +kernel

end

end Net

end RdmaRpc
