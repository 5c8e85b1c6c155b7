import RdmaRpc.Net.Landing

/-!
# Net — Correlation

The response a callback is called for is the response to its own request (`Correlated`).  `Contract`
is what the callers and the handler owe: nobody writes into the buffer of a request that is still to
be sent, and a response lies in the slot of the request it answers.

`Matched` follows a request around: its header is in its buffer, then in its message, then in the
slot and the context of the server (`Serves`), then in the response write, whose immediate data
names the element of the call that waits for it (`Sound`).  Each step of a run within the contract
keeps this (`matched_step`), as long as no message leaves its slot (`Fitting`), and the correlation
of callbacks is read off (`callback_correlated`).  A message that does leave its slot can change the
header in the next one before `on_recv_req` has read it, and the response to that request goes
elsewhere (`callback_astray`).
-/

namespace RdmaRpc
open Lib

namespace Net

/-- The requests of a connection still to be sent. -/
def sends (n : Net) (q : QpNum) : List Sent := (n.clients q).elim [] Client.sends

/-- The `len` bytes from `lo` on `host` are in no buffer of a request still to be sent. -/
def Spares (n : Net) (host lo len : Nat) : Prop :=
  ∀ q ∈ n.server.qps, n.host q = host → ∀ p ∈ n.sends q,
    lo + len ≤ p.wr.sge.addr ∨ p.wr.sge.addr + p.wr.sge.length ≤ lo

/-- The step writes into no request's buffer, and answers from the request's own slot. -/
def Contract (n : Net) : Event → Prop
  | .sendReq q a _ => n.Spares (n.host q) a.req.addr headerSize
  | .answer i resp respSz => (n.server.requests i).mr.addr ≤ resp ∧
      resp + u32 respSz ≤ (n.server.requests i).mr.addr + (n.server.requests i).mr.length
  | .land q => ∀ p ∈ Keyed.pop q n.server.sends,
      n.Spares (n.host q) p.1.wr.remoteAddr.toNat p.1.wr.sge.length
  | .write host addr bytes => n.Spares host addr bytes.length
  | _ => True

instance (n : Net) (host lo len : Nat) : Decidable (n.Spares host lo len) :=
  inferInstanceAs (Decidable (∀ _ ∈ _, _))

instance (n : Net) : DecidablePred n.Contract
  | .sendReq .. | .write .. => inferInstanceAs (Decidable (Spares ..))
  | .answer .. => inferInstanceAs (Decidable (_ ∧ _))
  | .land _ => inferInstanceAs (Decidable (∀ _ ∈ _, _))
  | .connect .. | .transmit _ | .take _ | .place .. | .arrive _ | .server _ | .client .. =>
    isTrue trivial

/-- The request on a send queue carries the ticket `t`, and its buffer the header. -/
structure Buffered (mem : Mem) (p : Sent) (t : Ticket) : Prop where
  rkey : p.wr.immData = t.rkey
  len : p.wr.sge.length = t.len
  header : headerSize ≤ t.len → mem.read p.wr.sge.addr headerSize = t.header.bytes

/-- The message on the wire of `q` carries the ticket `t`, and begins with its header. -/
structure Carried (T : Origin → Option Ticket) (q : QpNum) (m : Msg) (t : Ticket) : Prop where
  ticket : T m.origin = some t
  qp : q = m.origin.qp
  rkey : m.imm = t.rkey
  len : m.bytes.length = t.len
  header : headerSize ≤ t.len → m.bytes.take headerSize = t.header.bytes

/-- The request was answered, and the answer written where its ticket says. -/
def Delivered (n : Net) (o : Origin) (t : Ticket) : Prop :=
  ∃ a ∈ n.answers, a.origin = o ∧ ⟨o, o.qp, t.rkey, t.header.respAddr, a.bytes⟩ ∈ n.written

/-- Each request carries its own ticket, wherever it is. -/
structure Matched (cfg : ServerCfg) (n : Net) : Prop where
  sound : ∀ q c, n.clients q = some c → c.Sound
  unsent : ∀ q c, n.clients q = some c → ∀ p ∈ c.sends,
    ∃ t, c.ticket p.call = some t ∧ Buffered (n.mem (n.host q)) p t
  wire : ∀ q m, (q, m) ∈ n.wire → ∃ t, Carried n.ticket q m t
  serves : Server.Serves cfg n.ticket n.answers n.server
  delivered : ∀ q c, n.clients q = some c → ∀ k ∈ c.delivered,
    ∃ t, c.ticket k = some t ∧ n.Delivered ⟨q, k⟩ t

section
variable {cfg : ServerCfg} {n n' : Net} {e : Event} {o : Origin} {q : QpNum} {c c' : Client} {k : Nat}
  {t : Ticket}

theorem ticket_eq_some : c.ticket k = some t ↔ ∃ call, c.calls[k]? = some call ∧
    call.accepted = true ∧ t = ⟨Client.header c.mp call.args call.ele, call.args.resp.rkey,
      u32 (call.args.reqSz.toNat + headerSize)⟩ := by
  unfold Client.ticket
  cases c.calls[k]? with
  | none => simp
  | some call =>
      simp only [Option.some.injEq]
      constructor
      · intro h
        split at h
        · exact ⟨call, rfl, ‹_›, (Option.some.inj h).symm⟩
        · cases h
      · rintro ⟨call', rfl, ha, rfl⟩
        rw [if_pos ha]

/-- Tickets are never taken back. -/
theorem ticket_mono (hl : n.Linked) (h : step n e = .ok n') (ht : n.ticket o = some t) :
    n'.ticket o = some t := by
  cases e with
  | connect q host buf =>
      obtain ⟨server, hs, rfl⟩ := step_connect h
      obtain ⟨hq, -, -⟩ := Server.step_connectRequest hs
      -- the connection is new, and a ticket is of a connection that is there
      have hne : o.qp ≠ q := fun heq => hq <| (hl.known q).mp <| by
        cases hc : n.clients o.qp with
        | none => simp [ticket, hc] at ht
        | some c => rw [← heq, hc]; rfl
      rw [← ht]
      exact congrArg (fun c => Option.bind c fun c => c.ticket o.call) (clients_setClient_ne hne)
  | sendReq q a pick =>
      obtain ⟨c, ele, mp, hc, -, -, hget, rfl⟩ := step_sendReq h
      by_cases hq : o.qp = q
      · have hk : c.ticket o.call = some t := by
          rw [ticket, hq, hc] at ht
          exact ht
        -- the new call has the next number
        have hlt : o.call ≠ c.calls.length := fun heq => by
          rw [heq, ticket_length] at hk
          cases hk
        show ((n.setClient q _).clients o.qp).bind _ = some t
        rw [hq, clients_setClient, Option.bind_some, ticket_accept hget, if_neg hlt]
        exact hk
      · show ((n.setClient q _).clients o.qp).bind _ = some t
        rw [clients_setClient_ne hq]
        exact ht
  | transmit q =>
      obtain ⟨c, p, sends, hc, -, rfl⟩ := step_transmit h
      rw [← ht]
      exact ticket_setClient fun k => by rw [hc]; exact ticket_congr rfl rfl
  | take q => obtain ⟨-, -, server, -, rfl⟩ := step_take h; exact ht
  | place q len => obtain ⟨m, wire, tk, taken, server, -, -, -, rfl⟩ := step_place h; exact ht
  | arrive q => obtain ⟨m, wire, tk, taken, server, -, -, -, -, rfl⟩ := step_arrive h; exact ht
  | server e => obtain ⟨-, server, -, rfl⟩ := step_server h; exact ht
  | answer i resp respSz => obtain ⟨server, -, rfl⟩ := step_answer h; exact ht
  | land q =>
      obtain ⟨p, sends, c, server, -, hc, -, c', hd, rfl⟩ := step_land h
      obtain ⟨-, hc'⟩ := Client.react_deliver.mp hd
      rw [← ht]
      exact ticket_setClient fun k => by rw [hc, hc']; exact ticket_congr rfl rfl
  | client q e =>
      obtain ⟨he, c, c', hc, hr, rfl⟩ := step_client h
      obtain ⟨-, -, hcalls, hbuf, -⟩ := react_inside he hr
      rw [← ht]
      exact ticket_setClient fun k => by rw [hc]; exact ticket_congr hcalls hbuf
  | write host addr bytes => obtain rfl := step_write h; exact ht

theorem Carried.mono {T T' : Origin → Option Ticket} (hT : ∀ o t, T o = some t → T' o = some t)
    {m : Msg} (h : ∃ t, Carried T q m t) : ∃ t, Carried T' q m t := by
  obtain ⟨t, ht⟩ := h
  exact ⟨t, hT _ _ ht.ticket, ht.qp, ht.rkey, ht.len, ht.header⟩

/-- A message that has landed lies in its slot with its ticket. -/
theorem Matched.meets_arrive (hm : Matched cfg n) {m : Msg} {wire : List (QpNum × Msg)} {tk : Taken}
    {taken : List (QpNum × Taken)} (hw : Keyed.pop q n.wire = some (m, wire))
    (ht : Keyed.pop q n.server.taken = some (tk, taken)) (hl : Landing cfg n q tk m)
    (hlen : tk.placed = m.bytes.length) :
    Server.Meets cfg n.ticket n.server (.arrive q (some m.imm) m.origin) := by
  obtain ⟨t, hc⟩ := hm.wire q m (Keyed.mem_of_pop hw)
  refine ⟨t, hc.ticket, hc.qp, congrArg some hc.rkey, fun tk' hhead => ?_⟩
  rw [Keyed.queue_of_pop ht] at hhead
  obtain rfl : tk = tk' := Option.some.inj hhead
  refine ⟨hlen.trans hc.len, fun hhdr => ?_⟩
  have hbytes := hl.bytes
  rw [hlen, List.take_length] at hbytes
  rw [← hc.header hhdr, ← hbytes, Mem.take_read (by rw [hc.len]; exact hhdr)]

/-- A write that spares a buffer leaves the header in it. -/
theorem Buffered.write {mem : Mem} {p : Sent} {lo : Nat} {bytes : List UInt8}
    (hb : Buffered mem p t)
    (hd : lo + bytes.length ≤ p.wr.sge.addr ∨ p.wr.sge.addr + p.wr.sge.length ≤ lo) :
    Buffered (mem.write lo bytes) p t := by
  refine ⟨hb.rkey, hb.len, fun hl => ?_⟩
  rw [← hb.header hl]
  refine Mem.read_write_of_disjoint ?_
  have := hb.len
  omega

/-- The buffers of the requests to be sent, when the memory of one host is written. -/
theorem Matched.unsent_write (hm : Matched cfg n) (hl : n.Linked) {host lo : Nat}
    {bytes : List UInt8} (hs : n.Spares host lo bytes.length) (hc : n.clients q = some c) {p : Sent}
    (hp : p ∈ c.sends) :
    ∃ t, c.ticket p.call = some t ∧
      Buffered (Function.update n.mem host ((n.mem host).write lo bytes) (n.host q)) p t := by
  obtain ⟨t, ht, hb⟩ := hm.unsent q c hc p hp
  refine ⟨t, ht, ?_⟩
  by_cases hh : n.host q = host
  · rw [← hh, Function.update_self]
    refine hb.write (hs q ((hl.known q).mp (by rw [hc]; rfl)) hh p ?_)
    rw [sends, hc]
    exact hp
  · rw [Function.update_of_ne hh]
    exact hb

theorem Delivered.mono (h : n.Delivered o t) (hA : ∀ a ∈ n.answers, a ∈ n'.answers)
    (hW : ∀ w ∈ n.written, w ∈ n'.written) : n'.Delivered o t := by
  obtain ⟨a, ha, ho, hw⟩ := h
  exact ⟨a, hA a ha, ho, hW _ hw⟩

/-! ### One step -/

section
variable {mem₀ : Mem} {tr : List Server.Event}

theorem matched_connect (hm : Matched cfg n) (hl : n.Linked)
    (hr : run Server.step (.init cfg mem₀) tr = .ok n.server) (hreg : Server.regionSz cfg < 2 ^ 64)
    (hsm : n.server.Smooth) {host buf : Nat} (h : step n (.connect q host buf) = .ok n') :
    Matched cfg n' := by
  have hT := fun o t => ticket_mono (o := o) (t := t) hl h
  obtain ⟨server, hs, hn'⟩ := step_connect h
  have hserves := Server.serves_step hm.serves hr hreg hsm (by trivial) (by trivial) hs
  simp only [Server.answering, List.append_nil] at hserves
  have hclients : ∀ {q' c}, n'.clients q' = some c →
      q' = q ∧ c = .init q q buf ∨ q' ≠ q ∧ n.clients q' = some c := by
    intro q' c hc
    rw [hn'] at hc
    exact clients_setClient_eq_some hc
  refine ⟨fun q' c hc => ?_, fun q' c hc p hp => ?_, fun q' m hmem => Carried.mono hT (hm.wire q' m ?_), ?_,
    fun q' c hc k hk => ?_⟩
  · rcases hclients hc with ⟨rfl, rfl⟩ | ⟨-, hc⟩
    · exact Client.sound_init
    · exact hm.sound q' c hc
  · rcases hclients hc with ⟨rfl, rfl⟩ | ⟨hq, hc⟩
    · cases hp
    · have hhost : n'.mem (n'.host q') = n.mem (n.host q') := by
        rw [hn']
        exact congrArg n.mem (Function.update_of_ne hq _ _)
      rw [hhost]
      exact hm.unsent q' c hc p hp
  · rw [hn'] at hmem
    exact hmem
  · have : n'.server = server ∧ n'.answers = n.answers := by rw [hn']; exact ⟨rfl, rfl⟩
    rw [this.1, this.2]
    exact hserves.mono hT fun _ => id
  · rcases hclients hc with ⟨rfl, rfl⟩ | ⟨-, hc⟩
    · cases hk
    · obtain ⟨t, ht, hd⟩ := hm.delivered q' c hc k hk
      exact ⟨t, ht, hd.mono (by rw [hn']; exact fun _ => id) (by rw [hn']; exact fun _ => id)⟩

/-- A client changes, and nothing of what it has to do with the server. -/
theorem Matched.setClient (hm : Matched cfg n) (hc : n.clients q = some c) (hs : c'.Sound)
    (hsends : c'.sends = c.sends) (hdel : c'.delivered = c.delivered)
    (hticket : ∀ k, c'.ticket k = c.ticket k) : Matched cfg (n.setClient q c') := by
  have hT : (n.setClient q c').ticket = n.ticket := funext fun o =>
    ticket_setClient fun k => by rw [hc]; exact hticket k
  refine ⟨fun q' c₁ h => ?_, fun q' c₁ h p hp => ?_, ?_, ?_, fun q' c₁ h k hk => ?_⟩
  · rcases clients_setClient_eq_some h with ⟨rfl, rfl⟩ | ⟨-, h⟩
    · exact hs
    · exact hm.sound q' c₁ h
  · rcases clients_setClient_eq_some h with ⟨rfl, rfl⟩ | ⟨-, h⟩
    · rw [hticket]
      exact hm.unsent q' c hc p (hsends ▸ hp)
    · exact hm.unsent q' c₁ h p hp
  · rw [hT]
    exact hm.wire
  · rw [hT]
    exact hm.serves
  · rcases clients_setClient_eq_some h with ⟨rfl, rfl⟩ | ⟨-, h⟩
    · rw [hticket]
      exact hm.delivered q' c hc k (hdel ▸ hk)
    · exact hm.delivered q' c₁ h k hk

theorem matched_sendReq (hm : Matched cfg n) (hl : n.Linked) {a : SendReq} {pick : Nat}
    (hcon : n.Contract (.sendReq q a pick)) (h : step n (.sendReq q a pick) = .ok n') :
    Matched cfg n' := by
  have hT := fun o t => ticket_mono (o := o) (t := t) hl h
  obtain ⟨c, ele, mp, hc, hup, hsz, hget, hn'⟩ := step_sendReq h
  have hspares : n.Spares (n.host q) a.req.addr (Client.header mp a ele).bytes.length := by
    rw [ReqHeader.length_bytes]
    exact hcon
  have hclients : ∀ {q' c₁}, n'.clients q' = some c₁ →
      q' = q ∧ c₁ = (c.take a ele mp).accept a ele ∨ q' ≠ q ∧ n.clients q' = some c₁ := by
    intro q' c₁ h₁
    rw [hn'] at h₁
    exact clients_setClient_eq_some h₁
  have hmem : n'.mem = Function.update n.mem (n.host q)
      ((n.mem (n.host q)).write a.req.addr (Client.header mp a ele).bytes) := by rw [hn']; rfl
  have hhost : n'.host = n.host := by rw [hn']; rfl
  have hold : ∀ {k t}, c.ticket k = some t → ((c.take a ele mp).accept a ele).ticket k = some t := by
    intro k t ht
    rw [ticket_accept hget, if_neg]
    · exact ht
    · rintro rfl
      rw [ticket_length] at ht
      cases ht
  refine ⟨fun q' c₁ h₁ => ?_, fun q' c₁ h₁ p hp => ?_, fun q' m hmem => Carried.mono hT (hm.wire q' m ?_), ?_,
    fun q' c₁ h₁ k hk => ?_⟩
  · rcases hclients h₁ with ⟨rfl, rfl⟩ | ⟨-, h₁⟩
    · have hpost : Client.step (c, n.mem (n.host q')) (.sendReq a pick false false) = .ok _ :=
        Client.kvRdmaSendReq_posted false hup hget hsz
      have hsound : (c, n.mem (n.host q')).1.Sound := hm.sound q' c hc
      exact Client.sound_sendReq hsound hpost
    · exact hm.sound q' c₁ h₁
  · rw [hmem, hhost]
    rcases hclients h₁ with ⟨rfl, rfl⟩ | ⟨-, h₁⟩
    · rcases List.mem_append.mp hp with hp | hp
      · obtain ⟨t, ht, hb⟩ := hm.unsent_write hl hspares hc hp
        exact ⟨t, hold ht, hb⟩
      · -- the header of the new request is written last
        cases List.mem_singleton.mp hp
        refine ⟨_, (ticket_accept hget).trans (if_pos rfl), rfl, rfl, fun _ => ?_⟩
        rw [Function.update_self]
        show (Mem.write _ a.req.addr (Client.header mp a ele).bytes).read a.req.addr headerSize = _
        have := ReqHeader.length_bytes (Client.header mp a ele)
        rw [← this, Mem.read_write_self]
    · exact hm.unsent_write hl hspares h₁ hp
  · rw [hn'] at hmem
    exact hmem
  · have : n'.server = n.server ∧ n'.answers = n.answers := by rw [hn']; exact ⟨rfl, rfl⟩
    rw [this.1, this.2]
    exact hm.serves.mono hT fun _ => id
  · have hmono : ∀ {o t}, n.Delivered o t → n'.Delivered o t := fun hd =>
      hd.mono (by rw [hn']; exact fun _ => id) (by rw [hn']; exact fun _ => id)
    rcases hclients h₁ with ⟨rfl, rfl⟩ | ⟨-, h₁⟩
    · obtain ⟨t, ht, hd⟩ := hm.delivered q' c hc k hk
      exact ⟨t, hold ht, hmono hd⟩
    · obtain ⟨t, ht, hd⟩ := hm.delivered q' c₁ h₁ k hk
      exact ⟨t, ht, hmono hd⟩

theorem matched_transmit (hm : Matched cfg n) (h : step n (.transmit q) = .ok n') : Matched cfg n' := by
  obtain ⟨c, p, sends, hc, hsends, hn'⟩ := step_transmit h
  have hp : p ∈ c.sends := by rw [hsends]; exact List.mem_cons_self
  obtain ⟨t, ht, hb⟩ := hm.unsent q c hc p hp
  have hT : n'.ticket = n.ticket := funext fun o => by
    rw [hn']
    exact ticket_setClient fun k => by rw [hc]; exact ticket_congr rfl rfl
  have hclients : ∀ {q' c₁}, n'.clients q' = some c₁ →
      q' = q ∧ c₁ = { c with sends, sent := c.sent ++ [p] } ∨ q' ≠ q ∧ n.clients q' = some c₁ := by
    intro q' c₁ h₁
    rw [hn'] at h₁
    exact clients_setClient_eq_some h₁
  refine ⟨fun q' c₁ h₁ => ?_, fun q' c₁ h₁ p' hp' => ?_, fun q' m hmem => ?_, ?_, fun q' c₁ h₁ k hk => ?_⟩
  · rcases hclients h₁ with ⟨rfl, rfl⟩ | ⟨-, h₁⟩
    · exact (hm.sound q' c hc).frame rfl rfl rfl rfl rfl rfl rfl rfl rfl (.refl _) fun e he _ => he
    · exact hm.sound q' c₁ h₁
  · have hmem : n'.mem (n'.host q') = n.mem (n.host q') := by rw [hn']; rfl
    rw [hmem]
    rcases hclients h₁ with ⟨rfl, rfl⟩ | ⟨-, h₁⟩
    · exact hm.unsent q' c hc p' (by rw [hsends]; exact List.mem_cons_of_mem _ hp')
    · exact hm.unsent q' c₁ h₁ p' hp'
  · rw [hT]
    rw [hn'] at hmem
    rcases List.mem_append.mp hmem with hmem | hmem
    · exact hm.wire q' m hmem
    · -- the message is read from the buffer, and so begins with the header
      cases List.mem_singleton.mp hmem
      refine ⟨t, ?_, rfl, hb.rkey, ?_, fun hlen => ?_⟩
      · rw [ticket]
        show (n.clients q).bind _ = some t
        rw [hc]
        exact ht
      · exact Mem.length_read.trans hb.len
      · show ((n.mem (n.host q)).read p.wr.sge.addr p.wr.sge.length).take headerSize = t.header.bytes
        rw [Mem.take_read (by rw [hb.len]; exact hlen), hb.header hlen]
  · rw [hT]
    have : n'.server = n.server ∧ n'.answers = n.answers := by rw [hn']; exact ⟨rfl, rfl⟩
    rw [this.1, this.2]
    exact hm.serves
  · have hmono : ∀ {o t}, n.Delivered o t → n'.Delivered o t := fun hd =>
      hd.mono (by rw [hn']; exact fun _ => id) (by rw [hn']; exact fun _ => id)
    rcases hclients h₁ with ⟨rfl, rfl⟩ | ⟨-, h₁⟩
    · obtain ⟨t, ht, hd⟩ := hm.delivered q' c hc k hk
      exact ⟨t, ht, hmono hd⟩
    · obtain ⟨t, ht, hd⟩ := hm.delivered q' c₁ h₁ k hk
      exact ⟨t, ht, hmono hd⟩

/-- A step of the server alone. -/
theorem Matched.server (hm : Matched cfg n) (hr : run Server.step (.init cfg mem₀) tr = .ok n.server)
    (hreg : Server.regionSz cfg < 2 ^ 64) (hsm : n.server.Smooth) {e : Server.Event} {server : Server}
    (hg : e.Good) (hmeets : Server.Meets cfg n.ticket n.server e) (hs : Server.step n.server e = .ok server)
    {wire : List (QpNum × Msg)} (hwire : ∀ x ∈ wire, x ∈ n.wire) :
    Matched cfg { n with server, wire, answers := n.answers ++ n.server.answering e } where
  sound := hm.sound
  unsent := hm.unsent
  wire := fun q m hmem => hm.wire q m (hwire _ hmem)
  serves := Server.serves_step hm.serves hr hreg hsm hg hmeets hs
  delivered := fun q c hc k hk => by
    obtain ⟨t, ht, hd⟩ := hm.delivered q c hc k hk
    exact ⟨t, ht, hd.mono (fun a ha => List.mem_append_left _ ha) fun _ => id⟩

/-- A response still on the server's send queue has not been delivered. -/
theorem Matched.not_delivered (hm : Matched cfg n) (hl : n.Linked) (hc : n.clients q = some c)
    {p : Posted} (hp : (q, p) ∈ n.server.sends) : p.origin.call ∉ c.delivered := by
  intro hk
  obtain ⟨t, a, -, hw⟩ := hm.serves.sends q p hp
  have hqp : p.origin.qp = q := hw.qp
  obtain ⟨t', -, a', -, -, hwr⟩ := hm.delivered q c hc _ hk
  rw [← hqp] at hwr
  -- the request has one ticket, and so one copy: on its way, or its answer written
  have hlaw := hl.law p.origin
  rw [show n.ticket p.origin = some t from hw.ticket, Option.elim_some] at hlaw
  have h₁ : 0 < (n.written.map Written.origin).count p.origin :=
    List.count_pos_iff.mpr (List.mem_map.mpr ⟨_, hwr, rfl⟩)
  have h₂ : 0 < n.server.asked.count p.origin := by
    refine List.count_pos_iff.mpr (List.mem_append_right _ ?_)
    exact List.mem_map.mpr ⟨_, hp, rfl⟩
  simp only [copies] at hlaw
  omega

theorem matched_land (hm : Matched cfg n) (hl : n.Linked)
    (hr : run Server.step (.init cfg mem₀) tr = .ok n.server) (hreg : Server.regionSz cfg < 2 ^ 64)
    (hsm : n.server.Smooth) (hcon : n.Contract (.land q)) (h : step n (.land q) = .ok n') :
    Matched cfg n' := by
  have hT : n'.ticket = n.ticket := by
    obtain ⟨p, sends, c, server, -, hc, -, c', hd, rfl⟩ := step_land h
    obtain ⟨-, hc'⟩ := Client.react_deliver.mp hd
    exact funext fun o => ticket_setClient fun k => by rw [hc, hc']; exact ticket_congr rfl rfl
  obtain ⟨p, sends, c, server, hp, hc, hs, c', hd, hn'⟩ := step_land h
  obtain ⟨-, hc'⟩ := Client.react_deliver.mp hd
  have hserves := Server.serves_step hm.serves hr hreg hsm (by trivial) (by trivial) hs
  simp only [Server.answering, List.append_nil] at hserves
  obtain ⟨t, a, ha, hw⟩ := hm.serves.sends q p (Keyed.mem_of_pop hp)
  have hqp : p.origin.qp = q := hw.qp
  obtain rfl : q = p.origin.qp := hqp.symm
  have htick : c.ticket p.origin.call = some t := by
    have := hw.ticket
    rw [ticket, hc] at this
    exact this
  obtain ⟨call, hcall, hacc, htt⟩ := ticket_eq_some.mp htick
  have hnew := hm.not_delivered hl hc (Keyed.mem_of_pop hp)
  -- the immediate is the request id, which names the element of the call
  have hsound : c'.Sound := by
    refine Client.sound_deliver (hm.sound _ c hc) ⟨hnew, call, hcall, hacc, ?_⟩ hd
    rw [hw.reqId, htt]
    rfl
  have hclients : ∀ {q' c₁}, n'.clients q' = some c₁ →
      q' = p.origin.qp ∧ c₁ = c' ∨ q' ≠ p.origin.qp ∧ n.clients q' = some c₁ := by
    intro q' c₁ h₁
    rw [hn'] at h₁
    exact clients_setClient_eq_some h₁
  have hsends : c'.sends = c.sends := by rw [hc']
  have htk : ∀ k, c'.ticket k = c.ticket k := fun k => by rw [hc']; exact ticket_congr rfl rfl
  have hmono : ∀ {o t}, n.Delivered o t → n'.Delivered o t := fun hd =>
    hd.mono (by rw [hn']; exact fun _ => id) (by rw [hn']; exact fun _ hx => List.mem_append_left _ hx)
  refine ⟨fun q' c₁ h₁ => ?_, fun q' c₁ h₁ p' hp' => ?_, ?_, ?_, fun q' c₁ h₁ k hk => ?_⟩
  · rcases hclients h₁ with ⟨rfl, rfl⟩ | ⟨-, h₁⟩
    · exact hsound
    · exact hm.sound q' c₁ h₁
  · -- the target of the response is no buffer of a request still to be sent
    have hspares : n.Spares (n.host p.origin.qp) p.wr.remoteAddr.toNat
        (n.response p.origin.qp p).bytes.length := by
      have := hcon _ hp
      rwa [response, Mem.length_read]
    have hmem : n'.mem (n'.host q') = Function.update n.mem (n.host p.origin.qp)
        ((n.mem (n.host p.origin.qp)).write p.wr.remoteAddr.toNat (n.response p.origin.qp p).bytes)
          (n.host q') := by rw [hn']; rfl
    rw [hmem]
    rcases hclients h₁ with ⟨rfl, rfl⟩ | ⟨-, h₁⟩
    · rw [htk]
      exact hm.unsent_write hl hspares hc (hsends ▸ hp')
    · exact hm.unsent_write hl hspares h₁ hp'
  · rw [hT, hn']
    exact hm.wire
  · have : n'.server = server ∧ n'.answers = n.answers := by rw [hn']; exact ⟨rfl, rfl⟩
    rw [hT, this.1, this.2]
    exact hserves
  · rcases hclients h₁ with ⟨rfl, rfl⟩ | ⟨-, h₁⟩
    · rw [htk]
      rw [hc'] at hk
      rcases List.mem_append.mp hk with hk | hk
      · obtain ⟨t', ht', hd'⟩ := hm.delivered _ c hc k hk
        exact ⟨t', ht', hmono hd'⟩
      · cases List.mem_singleton.mp hk
        refine ⟨t, htick, a, ?_, hw.answer, ?_⟩
        · rw [hn']
          exact ha
        · rw [hn', ← hw.bytes, ← hw.rkey, ← hw.target]
          exact List.mem_append_right _ List.mem_cons_self
    · obtain ⟨t', ht', hd'⟩ := hm.delivered q' c₁ h₁ k hk
      exact ⟨t', ht', hmono hd'⟩

/-- **Each step keeps the requests matched.** -/
theorem matched_step (hm : Matched cfg n) (hl : n.Linked)
    (hr : run Server.step (.init cfg mem₀) tr = .ok n.server) (hreg : Server.regionSz cfg < 2 ^ 64)
    (hsm : n.server.Smooth) (hp : InProgress cfg n) (hcon : n.Contract e) (h : step n e = .ok n') :
    Matched cfg n' := by
  cases e with
  | connect q host buf => exact matched_connect hm hl hr hreg hsm h
  | sendReq q a pick => exact matched_sendReq hm hl hcon h
  | transmit q => exact matched_transmit hm h
  | take q =>
      obtain ⟨-, -, server, hs, rfl⟩ := step_take h
      have := hm.server hr hreg hsm (by trivial) (by trivial) hs fun _ => id
      simpa only [Server.answering, List.append_nil] using this
  | place q len =>
      obtain ⟨m, wire, tk, taken, server, hw, ht, hs, rfl⟩ := step_place h
      have := hm.server hr hreg hsm (by trivial) (hp.meets_place hw ht hs) hs fun _ => id
      simpa only [Server.answering, List.append_nil] using this
  | arrive q =>
      obtain ⟨m, wire, tk, taken, server, hw, ht, hlen, hs, rfl⟩ := step_arrive h
      have := hm.server hr hreg hsm (by exact rfl) (hm.meets_arrive hw ht (hp.landing hw ht) hlen) hs
        fun x hx => (Keyed.pop_sublist hw).subset hx
      simpa only [Server.answering, List.append_nil] using this
  | server e =>
      obtain ⟨he, server, hs, rfl⟩ := step_server h
      have := hm.server hr hreg hsm (good_of_inside he)
        (by cases e <;> trivial) hs fun _ => id
      have hnone : n.server.answering e = [] := by cases e <;> first | rfl | cases he
      simpa only [hnone, List.append_nil] using this
  | answer i resp respSz =>
      obtain ⟨server, hs, rfl⟩ := step_answer h
      obtain ⟨hd, held, -, -, -, hp, -⟩ := Server.step_answer hs
      -- the answer lies within the slot, so the other slots keep their bytes
      have hplace := Server.mem_places_held (List.mem_map_of_mem (Keyed.mem_of_pop hp))
      have hcon : (n.server.requests i).mr.addr ≤ resp ∧ resp + u32 respSz ≤
          (n.server.requests i).mr.addr + (n.server.requests i).mr.length := hcon
      rw [Server.mr_eq_slot hr hplace] at hcon
      exact hm.server (e := .answer i resp respSz) hr hreg hsm (by trivial) hcon hs fun _ => id
  | land q => exact matched_land hm hl hr hreg hsm hcon h
  | client q e =>
      obtain ⟨he, c, c', hc, hreact, rfl⟩ := step_client h
      obtain ⟨hsends, hdel, hcalls, hbuf, -⟩ := react_inside he hreact
      refine hm.setClient hc ?_ hsends hdel fun k => ticket_congr hcalls hbuf
      have hstep : Client.step (c, n.mem (n.host q)) e = .ok (c', n.mem (n.host q)) := by
        cases e <;> first | (simp only [Client.step, hreact]; rfl) | cases he
      have hproper : (c, n.mem (n.host q)).1.Proper e := by cases e <;> trivial
      have hsound : (c, n.mem (n.host q)).1.Sound := hm.sound q c hc
      exact Client.sound_step hsound hproper hstep
  | write host addr bytes =>
      obtain rfl := step_write h
      exact ⟨hm.sound, fun q' c hc p hp => hm.unsent_write hl hcon hc hp, hm.wire, hm.serves, hm.delivered⟩

end

/-! ### Runs -/

variable {mem : Mem} {hosts : Nat → Mem} {tr : List Event}

theorem matched_init : Matched cfg (init cfg mem hosts) where
  sound := fun _ _ h => nomatch h
  unsent := fun _ _ h => nomatch h
  wire := fun _ _ h => nomatch h
  serves := Server.serves_init
  delivered := fun _ _ h => nomatch h

theorem matched_run (hreg : Server.regionSz cfg < 2 ^ 64)
    (hcon : Along step (fun n e => n.Contract e ∧ n.Fitting e) (init cfg mem hosts) tr)
    (hr : run step (init cfg mem hosts) tr = .ok n) : Matched cfg n := by
  have hinv : (Matched cfg n ∧ InProgress cfg n) ∧ ∃ tr, run step (init cfg mem hosts) tr = .ok n := by
    refine run_invariant_along (P := fun n => (Matched cfg n ∧ InProgress cfg n) ∧
      ∃ tr, run step (init cfg mem hosts) tr = .ok n) ?_
      ⟨⟨matched_init, inProgress_init⟩, [], rfl⟩ hcon hr
    rintro n₁ e n₂ ⟨⟨hm, hp⟩, tr₁, hr₁⟩ ⟨hcon, hfit⟩ h
    obtain ⟨tr', hserver, -⟩ := server_run hr₁
    exact ⟨⟨matched_step hm (linked_run hr₁) hserver hreg (smooth_run hr₁) hp hcon h,
      inProgress_step hp hr₁ hreg hfit h⟩, tr₁ ++ [e], run_snoc_eq_ok.mpr ⟨n₁, hr₁, h⟩⟩
  exact hinv.1.1

/-- Only the handling of a completion calls a callback. -/
theorem called_step (hl : n.Linked) (h : step n e = .ok n') (hc : n.clients q = some c)
    (hc' : n'.clients q = some c') :
    c'.called = c.called ∨ ∃ t, Client.react c (.handle t) = .ok c' := by
  rcases client_step h hc' with hc₁ | ⟨host, buf, rfl, rfl⟩ | ⟨c₁, e', mem', hc₁, he, hs⟩
  · rw [hc, Option.some.injEq] at hc₁
    exact .inl (by rw [hc₁])
  · obtain ⟨server, hs, -⟩ := step_connect h
    obtain ⟨hq, -, -⟩ := Server.step_connectRequest hs
    exact absurd ((hl.known q).mp (by rw [hc]; rfl)) hq
  · rw [hc, Option.some.injEq] at hc₁
    subst hc₁
    rcases Client.step_cases hs with ⟨a, pick, rr, rs, rfl, hs⟩ | ⟨hr, -⟩
    · obtain ⟨-, -, ele, mp, -, -, hcase⟩ := Client.kvRdmaSendReq_eq_ok hs
      -- here no post is refused, so the branch `fail` is not taken
      have hrefuse : rr = false ∧ rs = false := by
        cases e <;> simp only [clientEvent, Option.ite_none_right_eq_some, Option.map_eq_some_iff,
          Option.some.injEq, Client.Event.sendReq.injEq, reduceCtorEq, and_false, exists_false] at he
        · exact ⟨he.2.2.2.1.symm, he.2.2.2.2.symm⟩
        · rw [he.2] at he
          exact absurd he.1.2 (by simp [Client.Event.inside])
      rcases hcase with ⟨h, -⟩ | ⟨-, h, -⟩ | ⟨-, -, rfl⟩
      · rw [hrefuse.1] at h; cases h
      · rw [hrefuse.2] at h; cases h
      · exact .inl rfl
    · have hr : Client.react c e' = .ok c' := hr
      cases e' with
      | handle t => exact .inr ⟨t, hr⟩
      | sendReq a pick rr rs => cases hr
      | transmit => obtain ⟨p, sends, -, heq⟩ := Client.react_transmit hr; exact .inl (by rw [heq])
      | sendDone en => obtain ⟨p, sent, -, heq⟩ := Client.react_sendDone hr; exact .inl (by rw [heq])
      | sendFail code f => obtain ⟨p, sends, -, heq⟩ := Client.react_sendFail hr; exact .inl (by rw [heq])
      | deliver k imm len => obtain ⟨-, heq⟩ := Client.react_deliver.mp hr; exact .inl (by rw [heq])
      | recvFail code f => obtain ⟨-, heq⟩ := Client.react_recvFail hr; exact .inl (by rw [heq])
      | poll t k => exact .inl (by rw [Client.react_poll hr])
      | put t => obtain ⟨ele, ret, -, -, heq⟩ := Client.react_put hr; exact .inl (by rw [heq])
      | disconnected => obtain ⟨-, heq⟩ := Client.react_disconnected hr; exact .inl (by rw [heq])
      | destroyQp drop => obtain ⟨-, heq⟩ := Client.react_destroyQp hr; exact .inl (by rw [heq])
      | freeConn => obtain ⟨-, heq⟩ := Client.react_freeConn hr; exact .inl (by rw [heq])

/-- The step calls no callback of the connection `q`, or that of a request outstanding on it, which
the handler has answered, and whose answer was written on this connection at the request's target,
under the key of its `resp`; and no request's callback has been called twice. -/
def Correlated (n : Net) (q : QpNum) (c c' : Client) : Prop :=
  (c'.called.map Callback.call).Nodup ∧
    (c'.called = c.called ∨ ∃ r call cb, c'.called = c.called ++ [r] ∧
      c.Waiting r.call call ∧ call.args.cb = some cb ∧ r = Client.callbackOf c.conn call cb r.call ∧
      ∃ a ∈ n.answers, a.origin = ⟨q, r.call⟩ ∧
        ⟨⟨q, r.call⟩, q, call.args.resp.rkey, BitVec.ofNat 64 call.args.target, a.bytes⟩ ∈
          n.written)

/-- **Correlation.**  In runs within the contract whose messages keep to their slots, every callback
called is correlated.  The slots fit in the address space, as they do when there are at most
`MAX_Q_NUM` (`Server.regionSz_lt`). -/
theorem callback_correlated (hreg : Server.regionSz cfg < 2 ^ 64)
    (hcon : Along step (fun n e => n.Contract e ∧ n.Fitting e) (init cfg mem hosts) tr)
    (hr : run step (init cfg mem hosts) tr = .ok n) (h : step n e = .ok n')
    (hc : n.clients q = some c) (hc' : n'.clients q = some c') : n.Correlated q c c' := by
  have hm := matched_run hreg hcon hr
  have hs := hm.sound q c hc
  have hsame : c'.called = c.called → (c'.called.map Callback.call).Nodup := fun heq => by
    rw [heq]
    exact hs.called_nodup
  rcases called_step (linked_run hr) h hc hc' with heq | ⟨t, hreact⟩
  · exact ⟨hsame heq, .inl heq⟩
  · rcases hs.called_handle hreact with heq | ⟨k, call, cb, hw, hdel, hcb, heq⟩
    · exact ⟨hsame heq, .inl heq⟩
    · -- what has been delivered has been answered and written
      obtain ⟨t, ht, a, ha, ho, hwr⟩ := hm.delivered q c hc k hdel
      obtain ⟨call', hcall', -, rfl⟩ := ticket_eq_some.mp ht
      rw [hw.recorded, Option.some.injEq] at hcall'
      subst hcall'
      refine ⟨?_, .inr ⟨_, call, cb, heq, hw, hcb, rfl, a, ha, ho, hwr⟩⟩
      rw [heq, List.map_append, List.nodup_append]
      refine ⟨hs.called_nodup, List.nodup_singleton _, fun x hx y hy => ?_⟩
      rw [List.mem_singleton.mp hy]
      rintro rfl
      exact hw.uncalled hx

/-! ### Two connections -/

/-- A request of four bytes on each connection: the second message takes its receive and lands while
the first is landing, and is answered first. -/
def twoRequests : List Event :=
  [.sendReq 7 Client.smallReq 0, .sendReq 8 Client.smallReq 0, .transmit 7, .transmit 8, .take 7,
    .place 7 8, .take 8, .place 8 16, .arrive 8, .place 7 8, .arrive 7, .server (.poll 0 2),
    .server (.handle 0), .server (.dispatch 0), .server (.handle 0), .server (.dispatch 0),
    .answer 1 4124 4, .answer 0 4108 4, .land 8, .land 7, .client 8 (.poll 0 1),
    .client 7 (.poll 0 1)]

/-- The client's next completion calls its first callback. -/
def CallsBack (n : Net) (q : QpNum) : Prop :=
  Outcome.Ends (fun n' : Net => (n.clients q).any (·.called = []) ∧
    (n'.clients q).any (·.called.length = 1)) (step n (.client q (.handle 0)))

instance (n : Net) (q : QpNum) : Decidable (n.CallsBack q) := inferInstanceAs (Decidable (Outcome.Ends ..))

theorem callsBack_iff : n.CallsBack q ↔ ∃ n' c c', step n (.client q (.handle 0)) = .ok n' ∧
    n.clients q = some c ∧ n'.clients q = some c' ∧ c.called = [] ∧ c'.called.length = 1 := by
  simp only [CallsBack, Outcome.ends_iff, Option.any_eq_true, decide_eq_true_eq]
  constructor
  · rintro ⟨n', hn', ⟨c, hc, hnone⟩, c', hc', hone⟩
    exact ⟨n', c, c', hn', hc, hc', hnone, hone⟩
  · rintro ⟨n', c, c', hn', hc, hc', hnone, hone⟩
    exact ⟨n', hn', ⟨c, hc, hnone⟩, c', hc', hone⟩

/-- Both callbacks are correlated. -/
theorem callback_correlated_twoClients :
    ∃ n, run step (init Server.twoContexts (fun _ => 0) fun _ _ => 0)
        ([.connect 7 0 8192, .connect 8 1 8192] ++ twoRequests) = .ok n ∧
      ∀ q ∈ [7, 8], ∃ n' c c', step n (.client q (.handle 0)) = .ok n' ∧ n.clients q = some c ∧
        n'.clients q = some c' ∧ c'.called.length = 1 ∧ n.Correlated q c c' := by
  have hend : Outcome.Ends (fun n : Net => ∀ q ∈ [7, 8], n.CallsBack q)
      (run step twoClients twoRequests) := by decide +kernel
  have hcon : Along step (fun n e => n.Contract e ∧ n.Fitting e) twoClients twoRequests := by
    decide +kernel
  obtain ⟨n, hn, hback⟩ := Outcome.ends_iff.mp hend
  have hrun := run_append_eq_ok.mpr ⟨_, run_connects, hn⟩
  refine ⟨n, hrun, fun q hq => ?_⟩
  obtain ⟨n', c, c', hn', hc, hc', -, hone⟩ := callsBack_iff.mp (hback q hq)
  exact ⟨n', c, c', hn', hc, hc', hone, callback_correlated (by decide)
    (along_connects (fun _ _ _ _ => ⟨trivial, trivial⟩) hcon) hrun hn' hc hc'⟩

/-- A request of sixteen bytes, twelve more than the server's messages. -/
def overlongReq : SendReq := ⟨⟨64, 28, 0, 0⟩, 16, ⟨128, 4, 0, 5⟩, none, some 1, 0⟩

/-- A request of four bytes, with eight for its response. -/
def plainReq : SendReq := ⟨⟨64, 16, 0, 0⟩, 4, ⟨128, 8, 0, 5⟩, none, some 1, 0⟩

/-- The last twelve bytes of a long message land in the next slot, on the header of a message that has
arrived there. -/
def overlongMessage : List Event :=
  [.write 0 80 (ReqHeader.bytes ⟨132, 0⟩), .sendReq 7 overlongReq 0, .sendReq 8 plainReq 0,
    .transmit 7, .transmit 8, .take 7, .place 7 16, .take 8, .place 8 16, .arrive 8,
    .server (.poll 0 1), .place 7 12, .server (.handle 0), .server (.dispatch 0), .answer 1 4124 4,
    .land 8, .client 8 (.poll 0 1)]

/-- **The callback is called for a response that was written elsewhere**, four bytes past the
request's target. -/
theorem callback_astray :
    ∃ n n' c c', run step (init Server.twoContexts (fun _ => 0) fun _ _ => 0)
        ([.connect 7 0 8192, .connect 8 1 8192] ++ overlongMessage) = .ok n ∧
      Along step Contract (init Server.twoContexts (fun _ => 0) fun _ _ => 0)
        ([.connect 7 0 8192, .connect 8 1 8192] ++ overlongMessage) ∧
      step n (.client 8 (.handle 0)) = .ok n' ∧ n.clients 8 = some c ∧ n'.clients 8 = some c' ∧
      c.called = [] ∧ c'.called.length = 1 ∧ n.written.map Written.addr = [132] ∧
      c.calls.map (·.args.target) = [128] ∧ ¬ n.Correlated 8 c c' := by
  have hend : Outcome.Ends (fun n : Net => n.CallsBack 8 ∧ n.written.map Written.addr = [132] ∧
      (n.clients 8).any fun c => c.calls.map (·.args.target) = [128])
      (run step twoClients overlongMessage) := by decide +kernel
  have hcon : Along step Contract twoClients overlongMessage := by decide +kernel
  obtain ⟨n, hn, hback, hwritten, htarget⟩ := Outcome.ends_iff.mp hend
  obtain ⟨n', c, c', hn', hc, hc', hnone, hone⟩ := callsBack_iff.mp hback
  rw [hc, Option.any_some, decide_eq_true_eq] at htarget
  refine ⟨n, n', c, c', run_append_eq_ok.mpr ⟨_, run_connects, hn⟩,
    along_connects (fun _ _ _ _ => trivial) hcon, hn', hc, hc', hnone, hone, hwritten, htarget, ?_⟩
  rintro ⟨-, hsame | ⟨r, call, cb, -, hw, -, -, a, -, -, hwr⟩⟩
  · rw [hsame, hnone] at hone
    cases hone
  · -- the one response was written at 132, and the one request has its target at 128
    have h₁ : (BitVec.ofNat 64 call.args.target : BitVec 64) ∈ n.written.map Written.addr :=
      List.mem_map_of_mem hwr
    have h₂ : call.args.target ∈ c.calls.map (·.args.target) :=
      List.mem_map.mpr ⟨call, List.mem_of_getElem? hw.recorded, rfl⟩
    rw [htarget, List.mem_singleton] at h₂
    rw [hwritten, h₂] at h₁
    exact absurd h₁ (by decide)

end

end Net

end RdmaRpc
