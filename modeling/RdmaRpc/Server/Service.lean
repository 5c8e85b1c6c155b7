import RdmaRpc.Server.Exchange

/-!
# Server — Service

What the server knows of a request, from the message to the response write.  A `Ticket` is what a
request asks for; `T` says which ticket each request has, and `A` which answers the handler has
given.  `Serves T A s` says that the server serves the tickets: the slot of a message holds the
header of its request until `on_recv_req` has copied it, the context the handler holds carries
the header and the key of its request and leads to its connection, and a response write takes
the bytes of the request's answer where the ticket says.

`serves_step` keeps this along good runs in which a message stays in its slot and carries, when it
has arrived, the ticket of its request (`Meets`).  A step then writes in the slot of one context only
(`mem_step`), and this context is in no other hand.
-/

namespace RdmaRpc
open Lib

/-- What a request asks of the server: the header its message carries, the key its response is to
be written under, and the length of its message. -/
structure Ticket where
  header : ReqHeader
  rkey : BitVec 32
  len : Nat

/-- A call of `kv_rdma_make_resp`: the request it answers, and the bytes passed. -/
structure Answer where
  origin : Origin
  bytes : List UInt8

namespace Server

/-- The completion is that of a message with the ticket `t`, which lies in its slot. -/
structure Carries (cfg : ServerCfg) (T : Origin → Option Ticket) (mem : Mem) (e : Cqe Nat)
    (t : Ticket) : Prop where
  ticket : T e.origin = some t
  qp : e.wc.qpNum = e.origin.qp
  rkey : e.wc.immData = t.rkey
  len : e.wc.byteLen = t.len
  header : headerSize ≤ t.len → mem.read (slot cfg e.wc.wrId).addr headerSize = t.header.bytes

/-- The context leads to the queue pair `q` if anywhere. -/
def LeadsTo (s : Server) (i : Nat) (q : QpNum) : Prop :=
  ∀ c, (s.requests i).conn = some c → (q, c) ∈ s.connections

/-- The handler holds context `i` for a request with the ticket `t`. -/
structure Holds (T : Origin → Option Ticket) (s : Server) (i : Nat) (hd : Held) (t : Ticket) :
    Prop where
  ticket : T hd.origin = some t
  conn : s.LeadsTo i hd.origin.qp
  rkey : (s.requests i).respRkey = t.rkey
  header : (s.requests i).header = t.header
  reqSz : hd.call.reqSz = u32 (t.len - headerSize)

/-- The response write on `q` takes the bytes of the answer `a` where the ticket `t` says. -/
structure Writes (cfg : ServerCfg) (T : Origin → Option Ticket) (mem : Mem) (q : QpNum) (p : Posted)
    (t : Ticket) (a : Answer) : Prop where
  ticket : T p.origin = some t
  qp : p.origin.qp = q
  reqId : p.wr.immData = t.header.reqId
  target : p.wr.remoteAddr = t.header.respAddr
  rkey : p.wr.rkey = t.rkey
  answer : a.origin = p.origin
  within : (slot cfg p.wr.wrId).addr ≤ p.wr.sge.addr ∧ p.wr.sge.addr + p.wr.sge.length ≤
    (slot cfg p.wr.wrId).addr + (slot cfg p.wr.wrId).length
  bytes : mem.read p.wr.sge.addr p.wr.sge.length = a.bytes

/-- The server serves the tickets `T`, and has been given the answers `A`. -/
structure Serves (cfg : ServerCfg) (T : Origin → Option Ticket) (A : List Answer) (s : Server) :
    Prop where
  arrived : ∀ e ∈ s.cq.all, e.kind = .serverRecv → ∃ t, Carries cfg T s.mem e t
  looked : ∀ p ∈ s.looked, (∃ t, Carries cfg T s.mem p.2 t) ∧ s.LeadsTo p.2.wc.wrId p.2.wc.qpNum
  held : ∀ p ∈ s.held, ∃ t, Holds T s p.1 p.2 t
  sends : ∀ q p, (q, p) ∈ s.sends → ∃ t, ∃ a ∈ A, Writes cfg T s.mem q p t a

/-- What lands stays in the slot of its context; what has arrived carries the ticket of its request;
and the handler answers from the slot of the request. -/
def Meets (cfg : ServerCfg) (T : Origin → Option Ticket) (s : Server) : Event → Prop
  | .place q bytes => ∀ tk ∈ (Keyed.queue q s.taken).head?, tk.placed + bytes.length ≤ slotSz cfg
  | .arrive q imm o => ∃ t, T o = some t ∧ q = o.qp ∧ imm = some t.rkey ∧
      ∀ tk ∈ (Keyed.queue q s.taken).head?, tk.placed = t.len ∧
        (headerSize ≤ t.len → s.mem.read tk.sge.addr headerSize = t.header.bytes)
  | .answer i resp respSz => (slot cfg i).addr ≤ resp ∧
      resp + u32 respSz ≤ (slot cfg i).addr + (slot cfg i).length
  | _ => True

/-- The context in whose slot a step writes. -/
def writesIn (s : Server) : Event → Option Nat
  | .place q _ => (Keyed.queue q s.taken).head?.map Taken.wrId
  | .handlerWrite i _ _ => some i
  | _ => none

/-- The answers a step gives. -/
def answering (s : Server) : Event → List Answer
  | .answer i resp respSz =>
      ((Keyed.pop i s.held).map fun h => ⟨h.1.origin, s.mem.read resp (u32 respSz)⟩).toList
  | _ => []

section
variable {cfg : ServerCfg} {T T' : Origin → Option Ticket} {A A' : List Answer} {s s' : Server}
  {e : Event} {mem mem' : Mem} {i : Nat} {q : QpNum}

/-- More tickets and more answers do no harm. -/
theorem Serves.mono (hs : Serves cfg T A s) (hT : ∀ o t, T o = some t → T' o = some t)
    (hA : ∀ a ∈ A, a ∈ A') : Serves cfg T' A' s := by
  have hc : ∀ {e t}, Carries cfg T s.mem e t → Carries cfg T' s.mem e t := fun h =>
    ⟨hT _ _ h.ticket, h.qp, h.rkey, h.len, h.header⟩
  refine ⟨fun e he hk => ?_, fun p hp => ?_, fun p hp => ?_, fun q p hp => ?_⟩
  · obtain ⟨t, ht⟩ := hs.arrived e he hk
    exact ⟨t, hc ht⟩
  · obtain ⟨⟨t, ht⟩, hl⟩ := hs.looked p hp
    exact ⟨⟨t, hc ht⟩, hl⟩
  · obtain ⟨t, ht⟩ := hs.held p hp
    exact ⟨t, hT _ _ ht.ticket, ht.conn, ht.rkey, ht.header, ht.reqSz⟩
  · obtain ⟨t, a, ha, hw⟩ := hs.sends q p hp
    exact ⟨t, a, hA a ha, hT _ _ hw.ticket, hw.qp, hw.reqId, hw.target, hw.rkey, hw.answer, hw.within,
      hw.bytes⟩

/-! ### The slots in use -/

theorem mem_recvPending {ce : Cqe Nat} (hc : ce ∈ s.pending) (hk : ce.kind = .serverRecv) :
    ce.wc.wrId ∈ s.recvPending :=
  List.mem_map_of_mem (List.mem_filter.mpr ⟨hc, decide_eq_true hk⟩)

theorem mem_writesOut {p : Posted} (hp : (q, p) ∈ s.sends) : p.wr.wrId ∈ s.writesOut :=
  List.mem_append_left _ (List.mem_map_of_mem hp)

/-- A receive taken is for the start of its context's slot, and no longer than the posts make it. -/
theorem FromQueue.sge {tk : Taken} (h : FromQueue cfg tk) :
    tk.sge.addr = (slot cfg tk.wrId).addr ∧
      (tk.sge.length = u32 (slots cfg).mr.length ∨ tk.sge.length = u32 (slot cfg tk.wrId).length) := by
  have hwr := h.wr
  obtain ⟨wrId, sge, placed, nth⟩ := tk
  simp only [Taken.wr] at hwr
  split at hwr
  · cases hwr
    exact ⟨rfl, .inl rfl⟩
  · cases hwr
    exact ⟨rfl, .inr rfl⟩

/-- An address is in one slot. -/
theorem InSlot.unique {j x : Nat} (hreg : regionSz cfg < 2 ^ 64) (hi : i < cfg.conReqNum)
    (hj : j < cfg.conReqNum) (hx : InSlot cfg i x) (hx' : InSlot cfg j x) : i = j := by
  obtain ⟨h₁, h₂⟩ := hx
  obtain ⟨h₁', h₂'⟩ := hx'
  rcases Nat.lt_trichotomy i j with hij | rfl | hji
  · have := slot_end_le hreg hj hij
    omega
  · rfl
  · have := slot_end_le hreg hi hji
    omega

section
variable {mem₀ : Mem} {tr : List Event}

/-- The slots, wherever a context is named. -/
theorem mr_eq_slot (hr : run step (init cfg mem₀) tr = .ok s) (hi : i ∈ s.places) :
    (s.requests i).mr = slot cfg i := by
  have hinv := slotInv_run hr
  rw [hinv.mr (hinv.started.hasRequests_of_mem hi), cfg_run hr]
  rfl

theorem fromQueue_run (hr : run step (init cfg mem₀) tr = .ok s) {p : QpNum × Taken}
    (hp : p ∈ s.taken) : FromQueue cfg p.2 := by
  have := (slotInv_run hr).taken p hp
  rwa [cfg_run hr] at this

/-- A step of a good run writes in the slot of one context only. -/
theorem mem_step (hr : run step (init cfg mem₀) tr = .ok s) (hreg : regionSz cfg < 2 ^ 64)
    (hg : e.Good) (hm : Meets cfg T s e) (h : step s e = .ok s') (hi : i < cfg.conReqNum)
    (hne : s.writesIn e ≠ some i) {x : Nat} (hx : InSlot cfg i x) : s'.mem x = s.mem x := by
  cases e with
  | connectRequest q =>
      obtain ⟨-, -, rfl⟩ := step_connectRequest h
      obtain ⟨-, -, -, -, -, -, -, -, -, -, -, -, -, -, hmem⟩ := withRequests_frame s
      exact congrFun hmem x
  | established c => obtain rfl := step_established h; rfl
  | disconnected c => exact hg.elim
  | destroyQp drop => exact hg.elim
  | freeConn => exact hg.elim
  | take q => obtain ⟨-, -, j, sge, srq, -, rfl⟩ := step_take.mp h; rfl
  | place q bytes =>
      obtain ⟨tk, taken, hp, -, rfl⟩ := step_place.mp h
      have hmem := Keyed.mem_of_pop hp
      have hhead : (Keyed.queue q s.taken).head? = some tk := by rw [Keyed.queue_of_pop hp]; rfl
      have hlt := lt_of_mem_places hr (mem_places_taken hmem)
      refine Mem.write_of_outside ?_
      by_contra hin
      -- the bytes that land are in the slot of the receive taken
      refine hne ?_
      rw [writesIn, hhead, Option.map_some]
      have haddr : tk.sge.addr = (slot cfg tk.wrId).addr := (fromQueue_run hr hmem).sge.1
      have hend := hm tk hhead
      refine congrArg some (InSlot.unique hreg hlt hi ⟨?_, ?_⟩ hx)
      · show (slot cfg tk.wrId).addr ≤ x
        omega
      · show x < (slot cfg tk.wrId).addr + (slot cfg tk.wrId).length
        rw [slot_length hlt]
        omega
  | arrive q imm origin => obtain ⟨tk, taken, -, rfl⟩ := step_arrive.mp h; rfl
  | arriveFail q code fields junk origin => exact hg.elim
  | poll t k => obtain rfl := step_poll h; rfl
  | handle t =>
      obtain ⟨-, ce, cq, -, h⟩ := step_handle h
      rcases onCompletion_eq_ok h with ⟨-, -, rfl⟩ | ⟨-, -, -, -, rfl⟩ | ⟨-, rfl⟩ <;> rfl
  | dispatch t => obtain ⟨ce, looked, c, conn, -, -, -, -, rfl⟩ := step_dispatch h; rfl
  | handlerWrite j addr bytes =>
      obtain ⟨hj, hlo, hhi, rfl⟩ := step_handlerWrite h
      have hpj : j ∈ s.places := mem_places_held hj
      rw [mr_eq_slot hr hpj] at hlo hhi
      refine Mem.write_of_outside ?_
      by_contra hin
      refine hne (congrArg some (InSlot.unique hreg (lt_of_mem_places hr hpj) hi ⟨?_, ?_⟩ hx))
      · omega
      · omega
  | answer j resp respSz =>
      obtain ⟨hd, held, c, conn, q, -, -, -, -, -, rfl⟩ := step_answer h; rfl
  | land q => obtain ⟨p, sends, -, rfl⟩ := step_land h; rfl
  | writeDone q en => obtain ⟨p, landed, -, rfl⟩ := step_writeDone h; rfl
  | flush q code fields => exact hg.elim

/-- The context a step writes in is receiving a message, or held by the handler. -/
theorem mem_of_writesIn (h : step s e = .ok s') (hw : s.writesIn e = some i) :
    i ∈ s.receiving ∨ i ∈ s.heldCtxs := by
  cases e with
  | place q bytes =>
      obtain ⟨tk, taken, hp, -, -⟩ := step_place.mp h
      rw [writesIn, Keyed.queue_of_pop hp] at hw
      cases hw
      exact .inl (List.mem_map_of_mem (Keyed.mem_of_pop hp))
  | handlerWrite j addr bytes =>
      cases hw
      exact .inr (step_handlerWrite h).1
  | _ => cases hw

/-- No step writes in a slot with a message that has arrived, or with a response to be written. -/
theorem mem_step_of_owned (hr : run step (init cfg mem₀) tr = .ok s) (hreg : regionSz cfg < 2 ^ 64)
    (hg : e.Good) (hm : Meets cfg T s e) (h : step s e = .ok s') (hi : i ∈ s.recvPending ++ s.writesOut)
    {x : Nat} (hx : InSlot cfg i x) : s'.mem x = s.mem x := by
  have hown : i ∈ s.owned := by
    simp only [owned, List.mem_append] at hi ⊢
    tauto
  have hlt := lt_of_mem_places hr (owners_subperm.subset (List.mem_append_right _ hown))
  refine mem_step hr hreg hg hm h hlt (fun hw => ?_) hx
  -- the context would be in two hands
  have hcount := List.nodup_iff_count_le_one.mp (List.nodup_append.mp (owners_nodup hr)).2.1 i
  simp only [owned, List.count_append] at hcount
  have h₁ : 0 < s.receiving.count i + s.heldCtxs.count i := by
    rcases mem_of_writesIn h hw with hj | hj <;> have := List.count_pos_iff.mpr hj <;> omega
  have h₂ : 0 < s.recvPending.count i + s.writesOut.count i := by
    rw [← List.count_append]
    exact List.count_pos_iff.mpr hi
  omega

/-- In the slot of a message in progress only its own packets are written. -/
theorem mem_step_of_taken (hr : run step (init cfg mem₀) tr = .ok s) (hreg : regionSz cfg < 2 ^ 64)
    (hg : e.Good) (hm : Meets cfg T s e) (h : step s e = .ok s') {tk : Taken}
    (htk : (q, tk) ∈ s.taken) (hne : ∀ bytes, e ≠ .place q bytes) {x : Nat}
    (hx : InSlot cfg tk.wrId x) : s'.mem x = s.mem x := by
  refine mem_step hr hreg hg hm h (lt_of_mem_places hr (mem_places_taken htk)) (fun hw => ?_) hx
  have hnd := (List.nodup_append.mp (owners_nodup hr)).2.1
  have hmem : tk.wrId ∈ s.receiving := List.mem_map_of_mem htk
  cases e with
  | place q' bytes =>
      obtain ⟨tk', hhead, heq⟩ := Option.map_eq_some_iff.mp hw
      have htk' : (q', tk') ∈ s.taken := Keyed.mem_queue.mp (List.mem_of_mem_head? hhead)
      -- a context is in progress for one message
      have hrec : s.receiving.Nodup := by
        simp only [owned, List.append_assoc] at hnd
        exact (List.nodup_append.mp hnd).1
      obtain ⟨rfl, -⟩ := Prod.mk.inj (List.inj_on_of_nodup_map hrec htk' htk heq)
      exact hne bytes rfl
  | handlerWrite j addr bytes =>
      obtain rfl : j = tk.wrId := Option.some.inj hw
      have hheld : tk.wrId ∈ s.heldCtxs := (step_handlerWrite h).1
      have hcount := List.nodup_iff_count_le_one.mp hnd tk.wrId
      simp only [owned, List.count_append] at hcount
      have h₁ := List.count_pos_iff.mpr hmem
      have h₂ := List.count_pos_iff.mpr hheld
      omega
  | _ => cases hw

/-- A message stays in its slot. -/
theorem Carries.keep (hr : run step (init cfg mem₀) tr = .ok s) (hreg : regionSz cfg < 2 ^ 64)
    (hg : e.Good) (hm : Meets cfg T' s e) (h : step s e = .ok s') {ce : Cqe Nat} {t : Ticket}
    (hc : ce ∈ s.pending) (hk : ce.kind = .serverRecv) (hcar : Carries cfg T s.mem ce t) :
    Carries cfg T s'.mem ce t := by
  have hi := mem_recvPending hc hk
  refine ⟨hcar.ticket, hcar.qp, hcar.rkey, hcar.len, fun hlen => ?_⟩
  rw [← hcar.header hlen]
  refine Mem.read_congr fun x hlo hhi =>
    mem_step_of_owned hr hreg hg hm h (List.mem_append_left _ hi) ⟨hlo, ?_⟩
  have hp : ce.wc.wrId ∈ s.places := owners_subperm.subset <| List.mem_append_right _ <| by
    simp only [owned, List.mem_append]
    exact .inl (.inl (.inl (.inr hi)))
  have hlt := lt_of_mem_places hr hp
  rw [slot_length hlt, slotSz_eq]
  omega

/-- So do the bytes of a response. -/
theorem Writes.keep (hr : run step (init cfg mem₀) tr = .ok s) (hreg : regionSz cfg < 2 ^ 64)
    (hg : e.Good) (hm : Meets cfg T' s e) (h : step s e = .ok s') {p : Posted} {t : Ticket}
    {a : Answer} (hp : (q, p) ∈ s.sends) (hw : Writes cfg T s.mem q p t a) :
    Writes cfg T s'.mem q p t a := by
  refine ⟨hw.ticket, hw.qp, hw.reqId, hw.target, hw.rkey, hw.answer, hw.within, ?_⟩
  rw [← hw.bytes]
  obtain ⟨hlo, hhi⟩ := hw.within
  exact Mem.read_congr fun x h₁ h₂ => mem_step_of_owned hr hreg hg hm h
    (List.mem_append_right _ (mem_writesOut hp)) ⟨by omega, by omega⟩

/-! ### One step -/

/-- What a step keeps is served as before; what it adds has to be. -/
theorem Serves.extend (hs : Serves cfg T A s) (hr : run step (init cfg mem₀) tr = .ok s)
    (hreg : regionSz cfg < 2 ^ 64) (hsm : s.Smooth) (h : step s e = .ok s') (hg : e.Good)
    (hm : Meets cfg T s e) (htab : ∀ x ∈ s.connections, x ∈ s'.connections) (hA : ∀ a ∈ A, a ∈ A')
    (hcq : ∀ ce ∈ s'.cq.all, ce.kind = .serverRecv →
      ce ∈ s.cq.all ∨ ∃ t, Carries cfg T s'.mem ce t)
    (hlook : ∀ p ∈ s'.looked,
      p ∈ s.looked ∧ (s'.requests p.2.wc.wrId).conn = (s.requests p.2.wc.wrId).conn ∨
        (∃ t, Carries cfg T s'.mem p.2 t) ∧ s'.LeadsTo p.2.wc.wrId p.2.wc.qpNum)
    (hheld : ∀ p ∈ s'.held,
      p ∈ s.held ∧ s'.requests p.1 = s.requests p.1 ∨ ∃ t, Holds T s' p.1 p.2 t)
    (hsends : ∀ q p, (q, p) ∈ s'.sends →
      (q, p) ∈ s.sends ∨ ∃ t, ∃ a ∈ A', Writes cfg T s'.mem q p t a) : Serves cfg T A' s' := by
  refine ⟨fun ce hce hk => ?_, fun p hp => ?_, fun p hp => ?_, fun q p hp => ?_⟩
  · refine (hcq ce hce hk).elim (fun hce => ?_) id
    obtain ⟨t, ht⟩ := hs.arrived ce hce hk
    exact ⟨t, ht.keep hr hreg hg hm h (List.mem_append_left _ hce) hk⟩
  · refine (hlook p hp).elim (fun ⟨hp, hconn⟩ => ?_) id
    obtain ⟨⟨t, ht⟩, hl⟩ := hs.looked p hp
    have hpend : p.2 ∈ s.pending := List.mem_append_right _ (List.mem_map_of_mem hp)
    exact ⟨⟨t, ht.keep hr hreg hg hm h hpend (hsm.looked p hp).1⟩, fun c hc => htab _ (hl c (hconn ▸ hc))⟩
  · refine (hheld p hp).elim (fun ⟨hp, hreq⟩ => ?_) id
    obtain ⟨t, ht⟩ := hs.held p hp
    refine ⟨t, ht.ticket, fun c hc => htab _ (ht.conn c (hreq ▸ hc)), ?_, ?_, ht.reqSz⟩
    · rw [hreq]
      exact ht.rkey
    · rw [hreq]
      exact ht.header
  · refine (hsends q p hp).elim (fun hp => ?_) id
    obtain ⟨t, a, ha, hw⟩ := hs.sends q p hp
    exact ⟨t, a, hA a ha, hw.keep hr hreg hg hm h hp⟩

/-- A step that adds nothing. -/
theorem Serves.keep (hs : Serves cfg T A s) (hr : run step (init cfg mem₀) tr = .ok s)
    (hreg : regionSz cfg < 2 ^ 64) (hsm : s.Smooth) (h : step s e = .ok s') (hg : e.Good)
    (hm : Meets cfg T s e) (htab : s'.connections = s.connections) (hreq : s'.requests = s.requests)
    (hlook : s'.looked = s.looked) (hheld : s'.held = s.held)
    (hcq : ∀ ce ∈ s'.cq.all, ce.kind = .serverRecv → ce ∈ s.cq.all)
    (hsends : ∀ x ∈ s'.sends, x ∈ s.sends) : Serves cfg T A s' :=
  hs.extend hr hreg hsm h hg hm (fun _ hx => htab ▸ hx) (fun _ => id) (fun ce hce hk => .inl (hcq ce hce hk))
    (fun _ hp => .inl ⟨hlook ▸ hp, by rw [hreq]⟩) (fun _ hp => .inl ⟨hheld ▸ hp, by rw [hreq]⟩)
    (fun _ _ hp => .inl (hsends _ hp))

/-- The contexts are written at the start-up, when none is in use. -/
theorem serves_connectRequest (hs : Serves cfg T A s) (hr : run step (init cfg mem₀) tr = .ok s)
    (hreg : regionSz cfg < 2 ^ 64) (hsm : s.Smooth) (h : step s (.connectRequest q) = .ok s') :
    Serves cfg T A s' := by
  obtain ⟨-, -, hs'⟩ := step_connectRequest h
  obtain ⟨-, -, -, -, -, -, -, -, -, h₁, -, h₂, h₃, h₄, -⟩ := withRequests_frame s
  have hreq : ∀ j ∈ s.places, s'.requests j = s.requests j := fun j hj => by
    simp [hs', withRequests, (slotInv_run hr).started.hasRequests_of_mem hj]
  have hcq : s'.cq = s.cq := by rw [hs', ← h₂]
  have hlook : s'.looked = s.looked := by rw [hs', ← h₃]
  have hheld : s'.held = s.held := by rw [hs', ← h₄]
  have hsends : s'.sends = s.sends := by rw [hs', ← h₁]
  refine hs.extend hr hreg hsm h trivial trivial (fun x hx => by rw [hs']; exact List.mem_cons_of_mem _ hx)
    (fun _ => id) (fun ce hce _ => .inl (hcq ▸ hce)) (fun p hp => ?_) (fun p hp => ?_)
    (fun q p hp => .inl (hsends ▸ hp))
  · rw [hlook] at hp
    exact .inl ⟨hp, by rw [hreq _ (mem_places_looked hp)]⟩
  · rw [hheld] at hp
    exact .inl ⟨hp, hreq _ (mem_places_held (List.mem_map_of_mem hp))⟩

/-- A message has arrived with its ticket. -/
theorem serves_arrive (hs : Serves cfg T A s) (hr : run step (init cfg mem₀) tr = .ok s)
    (hreg : regionSz cfg < 2 ^ 64) (hsm : s.Smooth) {imm : Option (BitVec 32)} {o : Origin}
    (hm : Meets cfg T s (.arrive q imm o)) (h : step s (.arrive q imm o) = .ok s') :
    Serves cfg T A s' := by
  obtain ⟨t, ht, hq, himm, hland⟩ := hm
  have hg : (Event.arrive q imm o).Good := by simp [Event.Good, himm]
  obtain ⟨tk, taken, hp, hs'⟩ := step_arrive.mp h
  obtain ⟨hlen, hbytes⟩ := hland tk (by rw [Keyed.queue_of_pop hp]; rfl)
  have haddr := (fromQueue_run hr (Keyed.mem_of_pop hp)).sge.1
  refine hs.extend hr hreg hsm h hg ⟨t, ht, hq, himm, hland⟩ (by rw [hs']; exact fun _ => id)
    (fun _ => id) (fun ce hce _ => ?_) (by rw [hs']; exact fun p hp => .inl ⟨hp, rfl⟩)
    (by rw [hs']; exact fun p hp => .inl ⟨hp, rfl⟩) (by rw [hs']; exact fun q p hp => .inl hp)
  have hce : ce ∈ (s.cq.push ⟨⟨tk.wrId, .success, .recv, tk.placed, imm.getD 0, imm.isSome, q⟩,
      .serverRecv, o⟩).all := by rw [hs'] at hce; exact hce
  rcases Completions.mem_all_push.mp hce with rfl | hce
  · refine .inr ⟨t, ht, hq, by simp [himm], hlen, fun hl => ?_⟩
    rw [hs', ← hbytes hl, haddr]
  · exact .inl hce

/-- The connection of a message is looked up. -/
theorem serves_handle (hs : Serves cfg T A s) (hr : run step (init cfg mem₀) tr = .ok s)
    (hreg : regionSz cfg < 2 ^ 64) (hsm : s.Smooth) {t : Thread}
    (h : step s (.handle t) = .ok s') : Serves cfg T A s' := by
  obtain ⟨-, ce, cq, hn, hc⟩ := step_handle h
  have hmem := Completions.mem_of_next hn
  have hsub : ∀ ce' ∈ cq.all, ce' ∈ s.cq.all := fun ce' he' => Completions.mem_of_mem_next hn he'
  rcases onCompletion_eq_ok hc with ⟨-, -, hs'⟩ | ⟨hop, -, -, -, hs'⟩ | ⟨-, hs'⟩
  · exact hs.keep hr hreg hsm h trivial trivial (by rw [hs']) (by rw [hs']) (by rw [hs']) (by rw [hs'])
      (by rw [hs']; exact fun ce' he' _ => hsub ce' he') (by rw [hs']; exact fun _ => id)
  · -- the context of a completion is named nowhere else
    have hnd := places_nodup hr
    have happly := List.nodup_iff_count_le_one.mp hnd ce.wc.wrId
    rw [count_places] at happly
    have hcq : 0 < (ctxsDone s.cq.all).count ce.wc.wrId :=
      List.count_pos_iff.mpr (List.mem_map_of_mem hmem)
    have hlook : ∀ p ∈ s.looked, p.2.wc.wrId ≠ ce.wc.wrId := fun p hp heq => by
      have : 0 < (ctxsDone (s.looked.map Prod.snd)).count ce.wc.wrId :=
        List.count_pos_iff.mpr (heq ▸ List.mem_map_of_mem (List.mem_map_of_mem hp))
      omega
    have hheld : ∀ p ∈ s.held, p.1 ≠ ce.wc.wrId := fun p hp heq => by
      have : 0 < (s.held.map Prod.fst).count ce.wc.wrId :=
        List.count_pos_iff.mpr (heq ▸ List.mem_map_of_mem hp)
      omega
    have hkind : ce.kind = .serverRecv := by
      rcases (hsm.cq ce hmem).2 with ⟨hk, -⟩ | ⟨-, hop'⟩
      · exact hk
      · rw [hop] at hop'; cases hop'
    have hmem' : s'.mem = s.mem := by rw [hs']
    refine hs.extend hr hreg hsm h trivial trivial (by rw [hs']; exact fun _ => id) (fun _ => id)
      (by rw [hs']; exact fun ce' he' _ => .inl (hsub ce' he')) (fun p hp => ?_) (fun p hp => ?_)
      (by rw [hs']; exact fun q p hp => .inl hp)
    · have hp' : p ∈ s.looked ++ [(t, ce)] := by rw [hs'] at hp; exact hp
      rcases List.mem_append.mp hp' with hp | hp
      · exact .inl ⟨hp, by rw [hs']; exact congrArg _ (Function.update_of_ne (hlook p hp) _ _)⟩
      · cases List.mem_singleton.mp hp
        rw [hmem']
        refine .inr ⟨hs.arrived ce hmem hkind, fun c hc => ?_⟩
        -- the table gives the connection of the queue pair
        have hlu : s.connections.lookup ce.wc.qpNum = some c := by
          rw [hs'] at hc
          simpa using hc
        rw [hs']
        exact (wired_run hr).lookup_eq_some.mp hlu
    · have hp' : p ∈ s.held := by rw [hs'] at hp; exact hp
      exact .inl ⟨hp', by rw [hs']; exact Function.update_of_ne (hheld p hp') _ _⟩
  · exact hs.keep hr hreg hsm h trivial trivial (by rw [hs']) (by rw [hs']) (by rw [hs']) (by rw [hs'])
      (by rw [hs']; exact fun ce' he' _ => hsub ce' he') (by rw [hs']; exact fun _ => id)

/-- The header and the key go from the message into the context. -/
theorem serves_dispatch (hs : Serves cfg T A s) (hr : run step (init cfg mem₀) tr = .ok s)
    (hreg : regionSz cfg < 2 ^ 64) (hsm : s.Smooth) {t : Thread}
    (h : step s (.dispatch t) = .ok s') : Serves cfg T A s' := by
  obtain ⟨ce, looked, c, conn, hp, hc, -, -, hs'⟩ := step_dispatch h
  have hin := Keyed.mem_of_pop hp
  have hplace : ce.wc.wrId ∈ s.places := mem_places_looked hin
  -- nor does the handler hold the context already
  have hheld : ∀ p ∈ s.held, p.1 ≠ ce.wc.wrId := fun p hp heq => by
    have happly := List.nodup_iff_count_le_one.mp (places_nodup hr) ce.wc.wrId
    rw [count_places] at happly
    have h₁ : 0 < (s.held.map Prod.fst).count ce.wc.wrId :=
      List.count_pos_iff.mpr (heq ▸ List.mem_map_of_mem hp)
    have h₂ : 0 < (ctxsDone (s.looked.map Prod.snd)).count ce.wc.wrId :=
      List.count_pos_iff.mpr (List.mem_map_of_mem (List.mem_map_of_mem hin))
    omega
  have hreq : s'.requests = Function.update s.requests ce.wc.wrId
      { s.requests ce.wc.wrId with
        respRkey := ce.wc.immData
        header := .ofBytes (s.mem.read (s.requests ce.wc.wrId).mr.addr headerSize) } := by rw [hs']
  have hhold : s'.held = s.held ++ [(ce.wc.wrId, ⟨⟨conn.handler, ce.wc.wrId,
      (s.requests ce.wc.wrId).mr, u32 (ce.wc.byteLen - headerSize), conn.arg⟩, ce.origin⟩)] := by
    rw [hs']
  have htab : s'.connections = s.connections := by rw [hs']
  have hconn : ∀ j, (s'.requests j).conn = (s.requests j).conn := fun j => by
    rw [hreq]
    by_cases hj : j = ce.wc.wrId
    · subst hj
      rw [Function.update_self]
    · rw [Function.update_of_ne hj]
  obtain ⟨⟨tk, htk⟩, hl⟩ := hs.looked _ hin
  have hlen : headerSize < tk.len := by
    have := (hsm.looked _ hin).2.2
    rwa [htk.len] at this
  refine hs.extend hr hreg hsm h trivial trivial (fun _ hx => htab ▸ hx) (fun _ => id)
    (by rw [hs']; exact fun ce' he' _ => .inl he') (fun p hp' => .inl ⟨?_, hconn _⟩) (fun p hp' => ?_)
    (by rw [hs']; exact fun q p hp => .inl hp)
  · rw [hs'] at hp'
    exact (Keyed.pop_sublist hp).subset hp'
  · rw [hhold, List.mem_append] at hp'
    rcases hp' with hp' | hp'
    · exact .inl ⟨hp', by rw [hreq]; exact Function.update_of_ne (hheld p hp') _ _⟩
    · cases List.mem_singleton.mp hp'
      refine .inr ⟨tk, htk.ticket, fun c hc => ?_, ?_, ?_, congrArg (fun n => u32 (n - headerSize)) htk.len⟩
      · rw [hconn] at hc
        rw [htab]
        exact htk.qp ▸ hl c hc
      · rw [hreq, Function.update_self]
        exact htk.rkey
      · rw [hreq, Function.update_self]
        show ReqHeader.ofBytes (s.mem.read (s.requests ce.wc.wrId).mr.addr headerSize) = tk.header
        -- the header is read at the start of the slot, where the message begins
        rw [mr_eq_slot hr hplace, htk.header (Nat.le_of_lt hlen), ReqHeader.ofBytes_bytes]

/-- The response goes where the context says, over the connection it leads to. -/
theorem serves_answer (hs : Serves cfg T A s) (hr : run step (init cfg mem₀) tr = .ok s)
    (hreg : regionSz cfg < 2 ^ 64) (hsm : s.Smooth) {resp respSz : Nat}
    (hm : Meets cfg T s (.answer i resp respSz)) (h : step s (.answer i resp respSz) = .ok s') :
    Serves cfg T (A ++ answering s (.answer i resp respSz)) s' := by
  obtain ⟨hd, held, c, conn, q, hp, hc, hconn, hq, -, hs'⟩ := step_answer h
  obtain ⟨tk, htk⟩ := hs.held _ (Keyed.mem_of_pop hp)
  have hans : answering s (.answer i resp respSz) = [⟨hd.origin, s.mem.read resp (u32 respSz)⟩] := by
    simp only [answering, hp, Option.map_some, Option.toList_some]
  rw [hans]
  refine hs.extend hr hreg hsm h trivial hm (by rw [hs']; exact fun _ => id)
    (fun a ha => List.mem_append_left _ ha) (by rw [hs']; exact fun ce' he' _ => .inl he')
    (by rw [hs']; exact fun p hp => .inl ⟨hp, rfl⟩) (fun p hp' => .inl ⟨?_, by rw [hs']⟩)
    (fun q' p hp' => ?_)
  · rw [hs'] at hp'
    exact (Keyed.pop_sublist hp).subset hp'
  · rw [hs', List.mem_append] at hp'
    rcases hp' with hp' | hp'
    · exact .inl hp'
    · cases List.mem_singleton.mp hp'
      -- the record the context points to is that of the queue pair the message came on
      have hqp : hd.origin.qp = q := by
        exact ((wired_run hr).entry _ _).mp (htk.conn c hc) |>.1.unique ⟨conn, hconn, hq⟩
      refine .inr ⟨tk, _, List.mem_append_right _ List.mem_cons_self, htk.ticket, hqp, ?_, ?_, ?_, rfl,
        hm, by rw [hs']⟩
      · exact congrArg ReqHeader.reqId htk.header
      · exact congrArg ReqHeader.respAddr htk.header
      · exact htk.rkey

/-- **The server serves its tickets.** -/
theorem serves_step (hs : Serves cfg T A s) (hr : run step (init cfg mem₀) tr = .ok s)
    (hreg : regionSz cfg < 2 ^ 64) (hsm : s.Smooth) (hg : e.Good) (hm : Meets cfg T s e)
    (h : step s e = .ok s') : Serves cfg T (A ++ answering s e) s' := by
  cases e with
  | connectRequest q =>
      simp only [answering, List.append_nil]
      exact serves_connectRequest hs hr hreg hsm h
  | arrive q imm o =>
      simp only [answering, List.append_nil]
      exact serves_arrive hs hr hreg hsm hm h
  | handle t =>
      simp only [answering, List.append_nil]
      exact serves_handle hs hr hreg hsm h
  | dispatch t =>
      simp only [answering, List.append_nil]
      exact serves_dispatch hs hr hreg hsm h
  | answer i resp respSz => exact serves_answer hs hr hreg hsm hm h
  | disconnected c => exact hg.elim
  | destroyQp drop => exact hg.elim
  | freeConn => exact hg.elim
  | arriveFail q code fields junk origin => exact hg.elim
  | flush q code fields => exact hg.elim
  | take q =>
      obtain ⟨-, -, j, sge, srq, -, hs'⟩ := step_take.mp h
      simp only [answering, List.append_nil]
      exact hs.keep hr hreg hsm h trivial trivial (by rw [hs']) (by rw [hs']) (by rw [hs']) (by rw [hs'])
        (by rw [hs']; exact fun ce' he' _ => he') (by rw [hs']; exact fun _ => id)
  | place q bytes =>
      obtain ⟨tk, taken, -, -, hs'⟩ := step_place.mp h
      simp only [answering, List.append_nil]
      exact hs.keep hr hreg hsm h trivial hm (by rw [hs']) (by rw [hs']) (by rw [hs']) (by rw [hs'])
        (by rw [hs']; exact fun ce' he' _ => he') (by rw [hs']; exact fun _ => id)
  | established c =>
      simp only [answering, List.append_nil]
      exact step_established h ▸ hs
  | poll t k =>
      have hs' := step_poll h
      simp only [answering, List.append_nil]
      exact hs.keep hr hreg hsm h trivial trivial (by rw [hs']) (by rw [hs']) (by rw [hs']) (by rw [hs'])
        (by rw [hs']; exact fun ce' he' _ => Completions.mem_all_poll.mp he')
        (by rw [hs']; exact fun _ => id)
  | handlerWrite i addr bytes =>
      obtain ⟨-, -, -, hs'⟩ := step_handlerWrite h
      simp only [answering, List.append_nil]
      exact hs.keep hr hreg hsm h trivial trivial (by rw [hs']) (by rw [hs']) (by rw [hs']) (by rw [hs'])
        (by rw [hs']; exact fun ce' he' _ => he') (by rw [hs']; exact fun _ => id)
  | land q =>
      obtain ⟨p, sends, hp, hs'⟩ := step_land h
      simp only [answering, List.append_nil]
      exact hs.keep hr hreg hsm h trivial trivial (by rw [hs']) (by rw [hs']) (by rw [hs']) (by rw [hs'])
        (by rw [hs']; exact fun ce' he' _ => he')
        (by rw [hs']; exact fun _ hx => (Keyed.pop_sublist hp).subset hx)
  | writeDone q en =>
      obtain ⟨p, landed, hp, hs'⟩ := step_writeDone h
      simp only [answering, List.append_nil]
      refine hs.keep hr hreg hsm h hg trivial (by rw [hs']) (by rw [hs']) (by rw [hs']) (by rw [hs'])
        (fun ce' he' hk => ?_) (by rw [hs']; exact fun _ => id)
      rw [hs'] at he'
      rcases Completions.mem_all_push.mp he' with rfl | he'
      · cases hk
      · exact he'

/-- A message takes a receive, if there is one. -/
theorem take_ok (hr : run step (init cfg mem₀) tr = .ok s) (hq : q ∈ s.qps)
    (hidle : Keyed.queue q s.taken = []) (hne : s.srq ≠ []) : ∃ s', step s (.take q) = .ok s' := by
  have hinv := slotInv_run hr
  obtain ⟨⟨i, sge⟩, srq, hs⟩ := List.exists_cons_of_ne_nil hne
  have hmem : (⟨i, sge⟩ : RecvWr Nat) ∈ s.srq := by rw [hs]; exact List.mem_cons_self
  have hwr := (hinv.oldest (hinv.started.hasRequests_of_mem (mem_places_srq hmem)) hs).1
  have hsge : ∃ sge', sge = some sge' := by
    have hsge := congrArg RecvWr.sge hwr
    split at hsge <;> exact ⟨_, hsge⟩
  obtain ⟨sge', rfl⟩ := hsge
  exact ⟨_, step_take.mpr ⟨hq, hidle, i, sge', srq, hs, rfl⟩⟩

/-- What is no longer than the posted receives are lands. -/
theorem place_ok (hr : run step (init cfg mem₀) tr = .ok s) (hreg : regionSz cfg < 2 ^ 64)
    {tk : Taken} {taken : List (QpNum × Taken)} {bytes : List UInt8}
    (hp : Keyed.pop q s.taken = some (tk, taken))
    (hslot : tk.placed + bytes.length ≤ u32 (slotSz cfg))
    (hregion : tk.placed + bytes.length ≤ u32 (regionSz cfg)) :
    ∃ s', step s (.place q bytes) = .ok s' := by
  have hinv := slotInv_run hr
  have hmem := Keyed.mem_of_pop hp
  have hplace := mem_places_taken hmem
  have hlt := lt_of_mem_places hr hplace
  obtain ⟨haddr, hlen⟩ := (fromQueue_run hr hmem).sge
  obtain ⟨hlo, hhi⟩ := slot_in_region hreg hlt
  have hmrs : s.mrs = slots cfg := by
    rw [hinv.mrs (hinv.started.hasRequests_of_mem hplace), cfg_run hr]
    rfl
  have hle := u32_le (slotSz cfg)
  rw [slot_length hlt] at hlen hhi
  refine ⟨_, step_place.mpr ⟨tk, taken, hp, ⟨?_, ?_, ?_⟩, rfl⟩⟩
  · -- a start-up receive is as long as the region, a reposted one as the slot
    rcases hlen with hlen | hlen
    · rwa [hlen, region_length hreg]
    · rwa [hlen]
  · rw [hmrs, haddr]
    exact hlo
  · rw [regionEnd, hmrs, haddr]
    exact Nat.le_trans (Nat.add_le_add_left (hslot.trans hle) _) hhi

theorem serves_init : Serves cfg T [] (init cfg mem₀) :=
  ⟨by simp [init], by simp [init], by simp [init], by simp [init]⟩

end

end

end Server

end RdmaRpc
