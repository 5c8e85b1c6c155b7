import RdmaRpc.Net.Machine

/-!
# Net — Requests

Where a request is.  From the call of `kv_rdma_send_req` to the response write it is in one place
after the other: on the client's send queue, on the wire, in the server, and then written.
`copies` counts it at all of them, and the law is that an accepted request is found once, and
anything else never (`copies_eq`).

The law needs nothing of the callers.  What it says is that no request is lost, none is
duplicated, and nothing is answered that was not asked.
-/

namespace RdmaRpc
open Lib

/-- The ticket of the call `k`, if it was accepted. -/
def Client.ticket (c : Client) (k : Nat) : Option Ticket :=
  match c.calls[k]? with
  | some call =>
    if call.accepted then some ⟨header c.mp call.args call.ele, call.args.resp.rkey,
      u32 (call.args.reqSz.toNat + headerSize)⟩ else none
  | none => none

namespace Net

def ticket (n : Net) (o : Origin) : Option Ticket := (n.clients o.qp).bind (·.ticket o.call)

/-- The requests of `o`'s connection still to be sent. -/
def unsent (n : Net) (q : QpNum) : List Nat :=
  (n.clients q).elim [] fun c => c.sends.map Sent.call

/-- The number of places `o` is at. -/
def copies (n : Net) (o : Origin) : Nat :=
  (n.unsent o.qp).count o.call + (n.wire.map (·.2.origin)).count o + n.server.asked.count o +
    (n.written.map Written.origin).count o

/-- Each connection is known at both ends, each accepted request is at one place, the server serves
what has been written, and a message in progress is the oldest on the wire. -/
structure Linked (n : Net) : Prop where
  known : ∀ q, (n.clients q).isSome ↔ q ∈ n.server.qps
  law : ∀ o, n.copies o = (n.ticket o).elim 0 fun _ => 1
  served : ∀ o, n.server.served.count o ≤ (n.written.map Written.origin).count o
  busy : ∀ q t, (q, t) ∈ n.server.taken → Keyed.queue q n.wire ≠ []

section
variable {n n' : Net} {e : Event} {o : Origin} {q : QpNum} {c c' : Client} {k : Nat}

/-! ### Tickets -/

/-- A call recorded has its ticket, and leaves the others. -/
theorem ticket_accept {a : SendReq} {ele pick : Nat} {mp : KvMempool}
    (hget : kvMempoolGet c.mp pick = some (ele, mp)) : ((c.take a ele mp).accept a ele).ticket k =
      if k = c.calls.length then
        some ⟨Client.header mp a ele, a.resp.rkey, u32 (a.reqSz.toNat + headerSize)⟩
      else c.ticket k := by
  obtain ⟨-, hbuf, -, -⟩ := kvMempoolGet_eq_some hget
  have hheader : ∀ a ele, Client.header mp a ele = Client.header c.mp a ele := fun a ele => by
    simp only [Client.header, kvMempoolGetId, hbuf]
  simp only [Client.ticket, Client.accept, Client.take, hheader]
  rcases Nat.lt_trichotomy k c.calls.length with hk | rfl | hk
  · rw [List.getElem?_append_left hk, if_neg (Nat.ne_of_lt hk)]
  · simp
  · rw [List.getElem?_eq_none (by simp; omega), List.getElem?_eq_none (by omega),
      if_neg (Nat.ne_of_gt hk)]

theorem ticket_length : c.ticket c.calls.length = none := by
  simp [Client.ticket]

theorem ticket_congr (hcalls : c'.calls = c.calls) (hbuf : c'.mp.buf = c.mp.buf) :
    c'.ticket k = c.ticket k := by
  simp only [Client.ticket, Client.header, kvMempoolGetId, hcalls, hbuf]

theorem ticket_isSome : (c.ticket k).isSome ↔ ∃ call, c.calls[k]? = some call ∧ call.accepted = true := by
  unfold Client.ticket
  cases c.calls[k]? with
  | none => simp
  | some call => cases h : call.accepted <;> simp [h]

/-- What goes on inside a client moves no request. -/
theorem react_inside {e : Client.Event} (he : e.inside = true) (h : Client.react c e = .ok c') :
    c'.sends = c.sends ∧ c'.delivered = c.delivered ∧ c'.calls = c.calls ∧ c'.mp.buf = c.mp.buf ∧
      c'.stage = c.stage ∧ c'.recvs = c.recvs := by
  cases e with
  | sendDone en =>
      obtain ⟨p, sent, -, rfl⟩ := Client.react_sendDone h
      exact ⟨rfl, rfl, rfl, rfl, rfl, rfl⟩
  | poll t k => obtain rfl := Client.react_poll h; exact ⟨rfl, rfl, rfl, rfl, rfl, rfl⟩
  | handle t =>
      obtain ⟨e, cq, -, ⟨-, -, -, -, ctx, cb, -, -, rfl⟩ | ⟨-, rfl⟩⟩ := Client.react_handle h <;>
        exact ⟨rfl, rfl, rfl, rfl, rfl, rfl⟩
  | put t =>
      obtain ⟨ele, returning, -, -, rfl⟩ := Client.react_put h
      exact ⟨rfl, rfl, rfl, rfl, rfl, rfl⟩
  | sendReq a pick rr rs => cases he
  | transmit => cases he
  | sendFail code fields => cases he
  | deliver k imm byteLen => cases he
  | recvFail code fields => cases he
  | disconnected => cases he
  | destroyQp drop => cases he
  | freeConn => cases he

/-! ### One client changes -/

/-- A client changed keeps its connection known. -/
theorem known_setClient (hl : n.Linked) (hc : n.clients q = some c) (q' : QpNum) :
    ((n.setClient q c').clients q').isSome ↔ q' ∈ n.server.qps := by
  by_cases hq : q' = q
  · subst hq
    rw [clients_setClient, ← hl.known, hc]
    simp
  · rw [clients_setClient_ne hq]
    exact hl.known q'

theorem ticket_setClient (h : ∀ k, c'.ticket k = (n.clients q).bind (·.ticket k)) :
    (n.setClient q c').ticket o = n.ticket o := by
  unfold ticket
  by_cases hq : o.qp = q
  · rw [hq, clients_setClient, Option.bind_some, h]
  · rw [clients_setClient_ne hq]

theorem unsent_setClient {q' : QpNum} (h : c'.sends.map Sent.call = n.unsent q) :
    (n.setClient q c').unsent q' = n.unsent q' := by
  by_cases hq : q' = q
  · rw [hq, unsent, clients_setClient]
    exact h
  · rw [unsent, clients_setClient_ne hq, unsent]

/-! ### One step -/

/-- A step that moves no request. -/
theorem Linked.frame (hl : n.Linked) (hknown : ∀ q, (n'.clients q).isSome ↔ q ∈ n'.server.qps)
    (hticket : ∀ o, n'.ticket o = n.ticket o) (hcopies : ∀ o, n'.copies o = n.copies o)
    (hserved : ∀ o, n'.server.served.count o ≤ (n'.written.map Written.origin).count o)
    (hbusy : ∀ q t, (q, t) ∈ n'.server.taken → Keyed.queue q n'.wire ≠ []) : n'.Linked :=
  ⟨hknown, fun o => by rw [hcopies, hticket]; exact hl.law o, hserved, hbusy⟩

/-- Only the packets of a message change what is in progress. -/
theorem taken_step {s s' : Server} {e : Server.Event} (hg : e.Good) (he : e.onWire = false)
    (h : Server.step s e = .ok s') : s'.taken = s.taken := by
  cases e with
  | connectRequest q =>
      obtain ⟨-, -, rfl⟩ := Server.step_connectRequest h
      obtain ⟨-, -, -, -, -, -, htaken, -⟩ := Server.withRequests_frame s
      exact htaken
  | established c => obtain rfl := Server.step_established h; rfl
  | poll t k => obtain rfl := Server.step_poll h; rfl
  | handle t =>
      obtain ⟨-, ce, cq, -, h⟩ := Server.step_handle h
      rcases Server.onCompletion_eq_ok h with ⟨-, -, rfl⟩ | ⟨-, -, -, -, rfl⟩ | ⟨-, rfl⟩ <;> rfl
  | dispatch t => obtain ⟨ce, looked, c, conn, -, -, -, -, rfl⟩ := Server.step_dispatch h; rfl
  | handlerWrite i addr bytes => obtain ⟨-, -, -, rfl⟩ := Server.step_handlerWrite h; rfl
  | answer i resp respSz =>
      obtain ⟨hd, held, c, conn, q, -, -, -, -, -, rfl⟩ := Server.step_answer h
      rfl
  | land q => obtain ⟨p, sends, -, rfl⟩ := Server.step_land h; rfl
  | writeDone q en => obtain ⟨p, landed, -, rfl⟩ := Server.step_writeDone h; rfl
  | take q => cases he
  | place q bytes => cases he
  | arrive q imm origin => cases he
  | arriveFail q code fields junk origin => cases he
  | disconnected c => exact hg.elim
  | destroyQp drop => exact hg.elim
  | freeConn => exact hg.elim
  | flush q code fields => exact hg.elim

theorem linked_connect (hl : n.Linked) (hsm : n.server.Smooth) {host buf : Nat}
    (h : step n (.connect q host buf) = .ok n') : n'.Linked := by
  obtain ⟨server, hs, rfl⟩ := step_connect h
  have hcount := fun o => Server.count_step (o := o) hsm (by trivial) hs
  have htaken := taken_step (by trivial) rfl hs
  obtain ⟨hq, -, hs'⟩ := Server.step_connectRequest hs
  have hqps : server.qps = q :: n.server.qps := by rw [hs']
  have hnone : n.clients q = none := by
    have := (hl.known q).not.mpr hq
    simpa using this
  have hclients : ∀ q', Function.update n.clients q (some (Client.init q q buf)) q' =
      if q' = q then some (Client.init q q buf) else n.clients q' := fun q' => by
    by_cases h : q' = q
    · subst h; simp
    · simp [h]
  refine hl.frame (fun q' => ?_) (fun o => ?_) (fun o => ?_) (fun o => ?_) (htaken ▸ hl.busy)
  · show (Function.update n.clients q _ q').isSome ↔ q' ∈ server.qps
    rw [hclients, hqps, List.mem_cons, ← hl.known]
    split <;> simp [*]
  · show (Function.update n.clients q _ o.qp).bind _ = (n.clients o.qp).bind _
    rw [hclients]
    split
    · rename_i hq
      rw [hq, hnone]
      rfl
    · rfl
  · have hu : ((Function.update n.clients q (some (Client.init q q buf)) o.qp).elim []
        fun c => c.sends.map Sent.call) = n.unsent o.qp := by
      rw [hclients, unsent]
      split
      · rename_i hq
        rw [hq, hnone]
        rfl
      · rfl
    have := (hcount o).1
    simp only [Server.arriving, Server.landing, List.count_nil] at this
    simp only [copies, unsent, setClient] at hu ⊢
    rw [hu]
    omega
  · have h₁ := (hcount o).2
    have h₂ := hl.served o
    simp only [Server.landing, List.count_nil] at h₁
    exact h₁.trans h₂

/-- An accepted request is on the send queue, with a ticket. -/
theorem linked_sendReq (hl : n.Linked) {a : SendReq} {pick : Nat}
    (h : step n (.sendReq q a pick) = .ok n') : n'.Linked := by
  obtain ⟨c, ele, mp, hc, -, -, hget, rfl⟩ := step_sendReq h
  refine ⟨known_setClient hl hc, fun o => ?_, hl.served, hl.busy⟩
  have hlaw := hl.law o
  simp only [copies, ticket, unsent, setMem, setClient] at hlaw ⊢
  by_cases hq : o.qp = q
  · rw [hq, hc, Option.elim_some, Option.bind_some] at hlaw
    rw [hq, Function.update_self, Option.elim_some, Option.bind_some, ticket_accept hget]
    simp only [Client.accept, Client.take, List.map_append, List.map_cons, List.map_nil,
      List.count_append]
    -- the call is new, so it was nowhere
    by_cases hk : o.call = c.calls.length
    · rw [hk, ticket_length, Option.elim_none] at hlaw
      rw [if_pos hk, hk, List.count_singleton_self, Option.elim_some]
      omega
    · rw [if_neg hk, List.count_singleton, if_neg (by rw [beq_iff_eq]; exact Ne.symm hk)]
      exact hlaw
  · rw [Function.update_of_ne hq]
    exact hlaw

theorem linked_transmit (hl : n.Linked) (h : step n (.transmit q) = .ok n') : n'.Linked := by
  obtain ⟨c, p, sends, hc, hsends, rfl⟩ := step_transmit h
  refine hl.frame (known_setClient hl hc) (fun o => ?_) (fun o => ?_) hl.served fun q' t ht => ?_
  · exact ticket_setClient fun k => by rw [hc]; exact ticket_congr rfl rfl
  · simp only [copies, unsent, setClient, message, List.map_append, List.map_cons, List.map_nil,
      List.count_append]
    by_cases hq : o.qp = q
    · rw [hq, Function.update_self, hc, Option.elim_some, Option.elim_some, hsends, List.map_cons]
      simp only [List.count_cons, List.count_nil]
      have ho : ((⟨q, p.call⟩ : Origin) == o) = (p.call == o.call) := by
        rw [Bool.eq_iff_iff, beq_iff_eq, beq_iff_eq]
        constructor
        · rintro rfl; rfl
        · intro h; rw [h, ← hq]
      rw [ho]
      omega
    · have ho : (⟨q, p.call⟩ : Origin) ≠ o := by rintro rfl; exact hq rfl
      rw [Function.update_of_ne hq, List.count_singleton, if_neg (by simpa using ho)]
      omega
  · rw [Keyed.queue_append]
    exact List.append_ne_nil_of_left_ne_nil (hl.busy q' t ht) _

/-- What takes a receive is the oldest message of its queue pair. -/
theorem linked_take (hl : n.Linked) (hsm : n.server.Smooth) (h : step n (.take q) = .ok n') :
    n'.Linked := by
  obtain ⟨hw, -, server, hs, rfl⟩ := step_take h
  have hcount := fun o => Server.count_step (o := o) hsm (by trivial) hs
  simp only [Server.arriving, Server.landing, List.count_nil] at hcount
  obtain ⟨-, -, i, sge, srq, -, hs'⟩ := Server.step_take.mp hs
  have hqps : server.qps = n.server.qps := by rw [hs']
  refine hl.frame (by rw [hqps]; exact hl.known) (fun _ => rfl) (fun o => ?_)
    (fun o => (hcount o).2.trans (hl.served o)) fun q' t ht => ?_
  · have := (hcount o).1
    simp only [copies, unsent]
    omega
  · have ht : (q', t) ∈ server.taken := ht
    rw [hs'] at ht
    rcases List.mem_append.mp ht with ht | ht
    · exact hl.busy q' t ht
    · cases List.mem_singleton.mp ht
      exact hw

theorem linked_place (hl : n.Linked) (hsm : n.server.Smooth) {len : Nat}
    (h : step n (.place q len) = .ok n') : n'.Linked := by
  obtain ⟨m, wire, t, taken, server, hp, -, hs, rfl⟩ := step_place h
  have hcount := fun o => Server.count_step (o := o) hsm (by trivial) hs
  simp only [Server.arriving, Server.landing, List.count_nil] at hcount
  obtain ⟨t', taken', ht', -, hs'⟩ := Server.step_place.mp hs
  have hqps : server.qps = n.server.qps := by rw [hs']
  refine hl.frame (by rw [hqps]; exact hl.known) (fun _ => rfl) (fun o => ?_)
    (fun o => (hcount o).2.trans (hl.served o)) fun q' t₁ ht => ?_
  · have := (hcount o).1
    simp only [copies, unsent]
    omega
  · have ht : (q', t₁) ∈ server.taken := ht
    rw [hs'] at ht
    rcases List.mem_append.mp ht with ht | ht
    · exact hl.busy q' t₁ ((Keyed.pop_sublist ht').subset ht)
    · cases List.mem_singleton.mp ht
      simp [Keyed.queue_of_pop hp]

theorem linked_arrive (hl : n.Linked) (hsm : n.server.Smooth) (hw : n.server.WorkLive)
    (h : step n (.arrive q) = .ok n') : n'.Linked := by
  obtain ⟨m, wire, t, taken, server, hp, -, -, hs, rfl⟩ := step_arrive h
  have hcount := fun o => Server.count_step (o := o) hsm (by exact rfl) hs
  obtain ⟨t', taken', ht', hs'⟩ := Server.step_arrive.mp hs
  have hqps : server.qps = n.server.qps := by rw [hs']
  refine hl.frame (by rw [hqps]; exact hl.known) (fun _ => rfl) (fun o => ?_) (fun o => ?_)
    fun q' t₁ ht => ?_
  · have hwire := (Keyed.pop_perm hp).map (·.2.origin) |>.count_eq o
    have := (hcount o).1
    simp only [Server.arriving, Server.landing, List.count_nil, List.map_cons, List.count_cons,
      copies, unsent] at this hwire ⊢
    omega
  · have h₁ := (hcount o).2
    have h₂ := hl.served o
    simp only [Server.landing, List.count_nil] at h₁
    exact h₁.trans h₂
  · have ht : (q', t₁) ∈ taken' := by rw [hs'] at ht; exact ht
    -- nothing of this queue pair is in progress any more
    have hne : q' ≠ q := hw.ne_of_popped ht' ht
    show Keyed.queue q' wire ≠ []
    rw [Keyed.queue_of_pop_ne hp hne]
    exact hl.busy q' t₁ ((Keyed.pop_sublist ht').subset ht)

/-- A step inside the server. -/
theorem linked_inner (hl : n.Linked) (hsm : n.server.Smooth) {e : Server.Event} {server : Server}
    (hg : e.Good) (he : e.onWire = false) (ha : Server.arriving e = [])
    (hland : Server.landing n.server e = []) (hqps : server.qps = n.server.qps) (hs : Server.step n.server e = .ok server) {A : List Answer} :
    Linked { n with server, answers := A } := by
  have hcount := fun o => Server.count_step (o := o) hsm hg hs
  simp only [ha, hland, List.count_nil] at hcount
  refine hl.frame (by rw [hqps]; exact hl.known) (fun _ => rfl) (fun o => ?_)
    (fun o => (hcount o).2.trans (hl.served o)) (taken_step hg he hs ▸ hl.busy)
  have := (hcount o).1
  simp only [copies, unsent]
  omega

theorem linked_land (hl : n.Linked) (hsm : n.server.Smooth) (h : step n (.land q) = .ok n') :
    n'.Linked := by
  obtain ⟨p, sends, c, server, hp, hc, hs, c', hd, rfl⟩ := step_land h
  have hcount := fun o => Server.count_step (o := o) hsm (by trivial) hs
  have htaken := taken_step (by trivial) rfl hs
  obtain ⟨p', sends', -, hs'⟩ := Server.step_land hs
  obtain ⟨-, hc'⟩ := Client.react_deliver.mp hd
  have hqps : server.qps = n.server.qps := by rw [hs']
  simp only [Server.arriving, Server.landing, hp, Option.map_some, Option.toList_some,
    List.count_nil] at hcount
  refine hl.frame (by rw [hqps]; exact known_setClient hl hc) (fun o => ?_) (fun o => ?_)
    (fun o => ?_) (htaken ▸ hl.busy)
  · exact ticket_setClient fun k => by rw [hc, hc']; exact ticket_congr rfl rfl
  · have hu : ∀ q', (n.setClient q c').unsent q' = n.unsent q' := fun q' =>
      unsent_setClient (by rw [hc', unsent, hc]; rfl)
    have := (hcount o).1
    have hu := hu o.qp
    simp only [copies, unsent, setMem, setClient, response, List.map_append, List.map_cons, List.map_nil,
      List.count_append] at hu ⊢
    rw [hu]
    omega
  · have h₁ := (hcount o).2
    have h₂ := hl.served o
    simp only [response, List.map_append, List.map_cons, List.map_nil, List.count_append]
    omega

theorem linked_client (hl : n.Linked) {e : Client.Event} (h : step n (.client q e) = .ok n') :
    n'.Linked := by
  obtain ⟨he, c, c', hc, hr, rfl⟩ := step_client h
  obtain ⟨hsends, -, hcalls, hbuf, -⟩ := react_inside he hr
  refine hl.frame (known_setClient hl hc) (fun o => ?_) (fun o => ?_) hl.served hl.busy
  · exact ticket_setClient fun k => by rw [hc]; exact ticket_congr hcalls hbuf
  · have hu : (n.setClient q c').unsent o.qp = n.unsent o.qp :=
      unsent_setClient (by rw [hsends, unsent, hc]; rfl)
    simp only [copies, hu]
    rfl

theorem linked_step (hl : n.Linked) (hsm : n.server.Smooth) (hw : n.server.WorkLive)
    (h : step n e = .ok n') : n'.Linked := by
  cases e with
  | connect q host buf => exact linked_connect hl hsm h
  | sendReq q a pick => exact linked_sendReq hl h
  | transmit q => exact linked_transmit hl h
  | take q => exact linked_take hl hsm h
  | place q len => exact linked_place hl hsm h
  | arrive q => exact linked_arrive hl hsm hw h
  | server e =>
      obtain ⟨he, server, hs, rfl⟩ := step_server h
      have hqps : server.qps = n.server.qps :=
        (Server.step_cm (by cases e <;> first | rfl | cases he) hs).2.2.1
      refine linked_inner hl hsm (good_of_inside he) ?_ ?_ ?_ hqps hs
      · cases e <;> first | rfl | cases he
      · cases e <;> first | rfl | cases he
      · cases e <;> first | rfl | cases he
  | answer i resp respSz =>
      obtain ⟨server, hs, rfl⟩ := step_answer h
      have hqps : server.qps = n.server.qps := by
        obtain ⟨hd, held, c, conn, q, -, -, -, -, -, rfl⟩ := Server.step_answer hs
        rfl
      exact linked_inner hl hsm (by trivial) rfl rfl rfl hqps hs
  | land q => exact linked_land hl hsm h
  | client q e => exact linked_client hl h
  | write host addr bytes =>
      obtain rfl := step_write h
      exact hl.frame hl.known (fun _ => rfl) (fun _ => rfl) hl.served hl.busy

/-! ### Runs -/

variable {cfg : ServerCfg} {mem : Mem} {hosts : Nat → Mem} {tr : List Event}

theorem linked_init : (init cfg mem hosts).Linked where
  known := fun q => by simp [init, Server.init]
  law := fun o => by simp [copies, unsent, ticket, init, Server.init, Server.asked, Server.originsOf]
  served := fun o => by simp [init, Server.init, Server.served, Server.originsOf]
  busy := fun q t ht => by simp [init, Server.init] at ht

theorem smooth_run (h : run step (init cfg mem hosts) tr = .ok n) : n.server.Smooth := by
  obtain ⟨tr', hr, hg⟩ := server_run h
  exact Server.smooth_run hg hr

theorem workLive_run (h : run step (init cfg mem hosts) tr = .ok n) : n.server.WorkLive := by
  obtain ⟨tr', hr, -⟩ := server_run h
  exact Server.workLive_run hr

/-- **Each accepted request is at one place, and nothing else is anywhere.** -/
theorem linked_run (h : run step (init cfg mem hosts) tr = .ok n) : n.Linked := by
  have hinv : n.Linked ∧ ∃ tr, run step (init cfg mem hosts) tr = .ok n := by
    refine run_invariant
      (P := fun n => n.Linked ∧ ∃ tr, run step (init cfg mem hosts) tr = .ok n) ?_
      ⟨linked_init, [], rfl⟩ h
    rintro n₁ e n₂ ⟨hl, tr₁, hr₁⟩ h
    exact ⟨linked_step hl (smooth_run hr₁) (workLive_run hr₁) h, tr₁ ++ [e],
      run_snoc_eq_ok.mpr ⟨n₁, hr₁, h⟩⟩
  exact hinv.1

end

end Net

end RdmaRpc
