import RdmaRpc.Bulk
import RdmaRpc.Server.Places

/-!
# Server — Slots

The slots of the contexts, and the receives posted for them.  The slots are tiles of the registered
region, and a context keeps its slot for ever (`SlotInv`).

A receive is posted for a context by `server_data_init`, whose scatter entry runs on for the
length of the whole region, or by `on_write_resp_done`, whose scatter entry is the slot.  The
shared queue is first in, first out, so after `k` messages have taken a receive the start-up receives
of the first `k` contexts are off it and the others are still in front (`SlotInv.srq`).  A receive
off the queue is used as it was posted until its message has landed (`SlotInv.taken`).
-/

namespace RdmaRpc
open Lib

namespace Server

/-! ### The geometry of the slots -/

/-- The size of a slot. -/
def slotSz (cfg : ServerCfg) : Nat := slotSize .server cfg.maxMsgSz

/-- The slot of context `i`. -/
def slot (cfg : ServerCfg) (i : Nat) : IbvMr := kvRdmaMrsGet (slots cfg) i

/-- The size of the bulk region, as an integer. -/
def regionSz (cfg : ServerCfg) : Nat := slotSz cfg * cfg.conReqNum

section
variable {cfg : ServerCfg} {i j : Nat}

theorem slotSz_eq : slotSz cfg = cfg.maxMsgSz + headerSize := by
  have hlt : slotBytes .server cfg.maxMsgSz < 2 ^ 64 := by
    have := cfg.maxMsgSz_lt
    show cfg.maxMsgSz + headerSize < 2 ^ 64
    rw [headerSize]
    omega
  exact slotSize_eq hlt

theorem slotSz_pos : 0 < slotSz cfg := by simp [slotSz_eq, headerSize]

theorem slot_length (hi : i < cfg.conReqNum) : (slot cfg i).length = slotSz cfg := by
  simp [slot, slots, kvRdmaMrsGet_allocBulk hi, slotSz]

theorem slot_addr (hr : regionSz cfg < 2 ^ 64) (hi : i < cfg.conReqNum) :
    (slot cfg i).addr = cfg.buf + i * slotSz cfg := by
  have hbytes : slotSz cfg = slotBytes .server cfg.maxMsgSz := slotSz_eq
  rw [slot, slots, mrsGet_eq (hbytes ▸ hr) hi, hbytes]

theorem region_length (hr : regionSz cfg < 2 ^ 64) : (slots cfg).mr.length = regionSz cfg := by
  simp only [slots, kvRdmaAllocBulk_mr]
  exact sizeT_of_lt hr

/-- The slots come one after the other. -/
theorem slot_end_le (hr : regionSz cfg < 2 ^ 64) (hj : j < cfg.conReqNum) (hij : i < j) :
    (slot cfg i).addr + (slot cfg i).length ≤ (slot cfg j).addr := by
  have hi := Nat.lt_trans hij hj
  rw [slot_addr hr hi, slot_addr hr hj, slot_length hi]
  exact tile_end_le hij

/-- A slot lies in the region. -/
theorem slot_in_region (hr : regionSz cfg < 2 ^ 64) (hi : i < cfg.conReqNum) :
    (slots cfg).mr.addr ≤ (slot cfg i).addr ∧
      (slot cfg i).addr + (slot cfg i).length ≤ (slots cfg).mr.addr + (slots cfg).mr.length := by
  rw [slot_addr hr hi, slot_length hi, region_length hr, regionSz, Nat.mul_comm (slotSz cfg)]
  exact ⟨Nat.le_add_right _ _, tile_end_le hi⟩

end

/-! ### The receives of a run -/

/-- The receive was the `nth` on the queue, and no more has been placed than it has room for. -/
structure FromQueue (cfg : ServerCfg) (t : Taken) : Prop where
  wr : t.wr = if t.nth < cfg.conReqNum then startupWr cfg t.nth else repostWr t.wrId (slot cfg t.wrId)
  placed : t.placed ≤ t.sge.length

/-- The region and the slots are those of the start-up; the shared queue holds the start-up receives
not yet taken, in order, and behind them reposted ones; and those taken come from there. -/
structure SlotInv (s : Server) : Prop where
  started : s.Started
  idle : s.hasRequests = false → s.takes = 0
  mrs : s.hasRequests = true → s.mrs = slots s.cfg
  mr : s.hasRequests = true → ∀ i, (s.requests i).mr = slot s.cfg i
  srq : s.hasRequests = true → ∃ l : List Nat,
    s.srq = ((List.range s.cfg.conReqNum).drop s.takes).map (startupWr s.cfg) ++
      l.map fun i => repostWr i (slot s.cfg i)
  taken : ∀ p ∈ s.taken, FromQueue s.cfg p.2

section
variable {cfg : ServerCfg} {s s' : Server} {e : Event}

/-- What a step does to the slots and the receives. -/
theorem step_srq (h : step s e = .ok s') (hr : s.hasRequests = true) :
    s'.mrs = s.mrs ∧ (∀ i, (s'.requests i).mr = (s.requests i).mr) ∧
      (s'.takes = s.takes + 1 ∧ (∃ wr, s.srq = wr :: s'.srq) ∨
        s'.takes = s.takes ∧ (s'.srq = s.srq ∨
          ∃ i, s'.srq = s.srq ++ [repostWr i (s.requests i).mr])) := by
  have hupd : ∀ (i : Nat) (ctx : ServerReqCtx), ctx.mr = (s.requests i).mr →
      ∀ j, (Function.update s.requests i ctx j).mr = (s.requests j).mr := by
    intro i ctx hm j
    by_cases hj : j = i
    · subst hj; rw [Function.update_self, hm]
    · rw [Function.update_of_ne hj]
  have quiet : ∀ {s₁ : Server}, s₁.mrs = s.mrs → s₁.requests = s.requests → s₁.srq = s.srq →
      s₁.takes = s.takes → s₁.mrs = s.mrs ∧ (∀ i, (s₁.requests i).mr = (s.requests i).mr) ∧
        (s₁.takes = s.takes + 1 ∧ (∃ wr, s.srq = wr :: s₁.srq) ∨ s₁.takes = s.takes ∧
          (s₁.srq = s.srq ∨ ∃ i, s₁.srq = s.srq ++ [repostWr i (s.requests i).mr])) :=
    fun h₁ h₂ h₃ h₄ => ⟨h₁, fun i => by rw [h₂], .inr ⟨h₄, .inl h₃⟩⟩
  cases e with
  | connectRequest q =>
      obtain ⟨-, -, rfl⟩ := step_connectRequest h
      have hw : s.withRequests = s := by simp [withRequests, hr]
      rw [hw]
      exact quiet rfl rfl rfl rfl
  | established c => obtain rfl := step_established h; exact quiet rfl rfl rfl rfl
  | disconnected c =>
      obtain ⟨-, conn, -, rfl⟩ := step_disconnected h
      exact quiet rfl rfl rfl rfl
  | destroyQp drop => obtain ⟨c, q, -, rfl⟩ := step_destroying h; exact quiet rfl rfl rfl rfl
  | freeConn => obtain ⟨c, -, rfl⟩ := step_freeConn h; exact quiet rfl rfl rfl rfl
  | take q =>
      obtain ⟨-, -, i, sge, srq, hsrq, rfl⟩ := step_take.mp h
      exact ⟨rfl, fun _ => rfl, .inl ⟨rfl, _, hsrq⟩⟩
  | place q bytes =>
      obtain ⟨t, taken, -, -, rfl⟩ := step_place.mp h
      exact quiet rfl rfl rfl rfl
  | arrive q imm origin =>
      obtain ⟨t, taken, -, rfl⟩ := step_arrive.mp h
      exact quiet rfl rfl rfl rfl
  | arriveFail q code fields junk origin =>
      obtain ⟨t, taken, -, rfl⟩ := step_arriveFail h
      exact quiet rfl rfl rfl rfl
  | poll t k => obtain rfl := step_poll h; exact quiet rfl rfl rfl rfl
  | handle t =>
      obtain ⟨-, e, cq, -, h⟩ := step_handle h
      rcases onCompletion_eq_ok h with ⟨-, -, rfl⟩ | ⟨-, -, -, -, rfl⟩ | ⟨-, rfl⟩
      · -- `on_write_resp_done` posts the slot again
        exact ⟨rfl, fun _ => rfl, .inr ⟨rfl, .inr ⟨_, rfl⟩⟩⟩
      · exact ⟨rfl, hupd _ _ rfl, .inr ⟨rfl, .inl rfl⟩⟩
      · exact quiet rfl rfl rfl rfl
  | dispatch t =>
      obtain ⟨e, looked, c, conn, -, -, -, -, rfl⟩ := step_dispatch h
      exact ⟨rfl, hupd _ _ rfl, .inr ⟨rfl, .inl rfl⟩⟩
  | handlerWrite i addr bytes =>
      obtain ⟨-, -, -, rfl⟩ := step_handlerWrite h
      exact quiet rfl rfl rfl rfl
  | answer i resp respSz =>
      obtain ⟨hd, held, c, conn, q, -, -, -, -, -, rfl⟩ := step_answer h
      exact quiet rfl rfl rfl rfl
  | land q => obtain ⟨p, sends, -, rfl⟩ := step_land h; exact quiet rfl rfl rfl rfl
  | writeDone q en => obtain ⟨p, landed, -, rfl⟩ := step_writeDone h; exact quiet rfl rfl rfl rfl
  | flush q code fields => obtain ⟨p, sends, -, rfl⟩ := step_flush h; exact quiet rfl rfl rfl rfl

/-- What a step does to the receives taken: it takes one, or places in one, or leaves them. -/
theorem step_taken (h : step s e = .ok s') {p : QpNum × Taken} (hp : p ∈ s'.taken) :
    p ∈ s.taken ∨
      (p.2.nth = s.takes ∧ p.2.placed = 0 ∧ p.1 ∈ s.qps ∧ Keyed.queue p.1 s.taken = [] ∧
        s.srq = p.2.wr :: s'.srq) ∨
      ∃ t n, (p.1, t) ∈ s.taken ∧ p.2 = { t with placed := n } ∧ n ≤ t.sge.length := by
  cases e with
  | connectRequest q =>
      obtain ⟨-, -, rfl⟩ := step_connectRequest h
      obtain ⟨-, -, -, -, -, -, ht, -⟩ := withRequests_frame s
      exact .inl (ht ▸ hp)
  | established c => obtain rfl := step_established h; exact .inl hp
  | disconnected c => obtain ⟨-, conn, -, rfl⟩ := step_disconnected h; exact .inl hp
  | destroyQp drop =>
      obtain ⟨c, q, -, rfl⟩ := step_destroying h
      exact .inl (List.mem_filter.mp hp).1
  | freeConn => obtain ⟨c, -, rfl⟩ := step_freeConn h; exact .inl hp
  | take q =>
      obtain ⟨hq, hnone, i, sge, srq, hsrq, rfl⟩ := step_take.mp h
      rcases List.mem_append.mp hp with hp | hp
      · exact .inl hp
      · cases List.mem_singleton.mp hp
        exact .inr (.inl ⟨rfl, rfl, hq, hnone, hsrq⟩)
  | place q bytes =>
      obtain ⟨t, taken, hpop, hfit, rfl⟩ := step_place.mp h
      rcases List.mem_append.mp hp with hp | hp
      · exact .inl ((Keyed.pop_sublist hpop).subset hp)
      · cases List.mem_singleton.mp hp
        exact .inr (.inr ⟨t, _, Keyed.mem_of_pop hpop, rfl, hfit.1⟩)
  | arrive q imm origin =>
      obtain ⟨t, taken, hpop, rfl⟩ := step_arrive.mp h
      exact .inl ((Keyed.pop_sublist hpop).subset hp)
  | arriveFail q code fields junk origin =>
      obtain ⟨t, taken, hpop, rfl⟩ := step_arriveFail h
      exact .inl ((Keyed.pop_sublist hpop).subset hp)
  | poll t k => obtain rfl := step_poll h; exact .inl hp
  | handle t =>
      obtain ⟨-, e, cq, -, h⟩ := step_handle h
      rcases onCompletion_eq_ok h with ⟨-, -, rfl⟩ | ⟨-, -, -, -, rfl⟩ | ⟨-, rfl⟩ <;> exact .inl hp
  | dispatch t =>
      obtain ⟨e, looked, c, conn, -, -, -, -, rfl⟩ := step_dispatch h
      exact .inl hp
  | handlerWrite i addr bytes => obtain ⟨-, -, -, rfl⟩ := step_handlerWrite h; exact .inl hp
  | answer i resp respSz =>
      obtain ⟨hd, held, c, conn, q, -, -, -, -, -, rfl⟩ := step_answer h
      exact .inl hp
  | land q => obtain ⟨p, sends, -, rfl⟩ := step_land h; exact .inl hp
  | writeDone q en => obtain ⟨p, landed, -, rfl⟩ := step_writeDone h; exact .inl hp
  | flush q code fields => obtain ⟨p, sends, -, rfl⟩ := step_flush h; exact .inl hp

/-- Before the start-up only a connection request can do anything. -/
theorem step_idle (hs : s.Started) (hr : s.hasRequests = false) (h : step s e = .ok s') :
    (∃ q, e = .connectRequest q) ∨ s'.hasRequests = false ∧ s'.takes = s.takes := by
  have hp := hs hr
  simp only [places, ctxsDone, ctxsOf, ctxsTaken, List.append_eq_nil_iff, List.map_eq_nil_iff] at hp
  obtain ⟨⟨⟨⟨⟨⟨hsrq, htaken⟩, hcq⟩, hlook⟩, hheld⟩, hsends⟩, hlanded⟩ := hp
  cases e with
  | connectRequest q => exact .inl ⟨q, rfl⟩
  | established c => obtain rfl := step_established h; exact .inr ⟨hr, rfl⟩
  | disconnected c => obtain ⟨-, conn, -, rfl⟩ := step_disconnected h; exact .inr ⟨hr, rfl⟩
  | destroyQp drop => obtain ⟨c, q, -, rfl⟩ := step_destroying h; exact .inr ⟨hr, rfl⟩
  | freeConn => obtain ⟨c, -, rfl⟩ := step_freeConn h; exact .inr ⟨hr, rfl⟩
  | take q =>
      obtain ⟨-, -, i, sge, srq, h₁, -⟩ := step_take.mp h
      rw [hsrq] at h₁; cases h₁
  | place q bytes =>
      obtain ⟨t, taken, hpop, -⟩ := step_place.mp h
      rw [htaken] at hpop; cases hpop
  | arrive q imm origin =>
      obtain ⟨t, taken, hpop, -⟩ := step_arrive.mp h
      rw [htaken] at hpop; cases hpop
  | arriveFail q code fields junk origin =>
      obtain ⟨t, taken, hpop, -⟩ := step_arriveFail h
      rw [htaken] at hpop; cases hpop
  | poll t k => obtain rfl := step_poll h; exact .inr ⟨hr, rfl⟩
  | handle t =>
      obtain ⟨-, e, cq, he, -⟩ := step_handle h
      have hp := (Completions.all_next he).length_eq
      simp [hcq] at hp
  | dispatch t =>
      obtain ⟨e, looked, c, conn, hpop, -, -, -, -⟩ := step_dispatch h
      rw [hlook] at hpop; cases hpop
  | handlerWrite i addr bytes => obtain ⟨-, -, -, rfl⟩ := step_handlerWrite h; exact .inr ⟨hr, rfl⟩
  | answer i resp respSz =>
      obtain ⟨hd, held, c, conn, q, hpop, -, -, -, -, -⟩ := step_answer h
      rw [hheld] at hpop; cases hpop
  | land q =>
      obtain ⟨p, sends, hpop, rfl⟩ := step_land h
      rw [hsends] at hpop; cases hpop
  | writeDone q en =>
      obtain ⟨p, landed, hpop, rfl⟩ := step_writeDone h
      rw [hlanded] at hpop; cases hpop
  | flush q code fields =>
      obtain ⟨p, sends, hpop, rfl⟩ := step_flush h
      rw [hsends] at hpop; cases hpop

/-- The oldest receive on the queue is a start-up one as long as there are any. -/
theorem SlotInv.oldest (hi : SlotInv s) {wr : RecvWr Nat} {srq : List (RecvWr Nat)}
    (hr : s.hasRequests = true) (hsrq : s.srq = wr :: srq) :
    (wr = if s.takes < s.cfg.conReqNum then startupWr s.cfg s.takes
      else repostWr wr.wrId (slot s.cfg wr.wrId)) ∧
      ∃ l : List Nat, srq = ((List.range s.cfg.conReqNum).drop (s.takes + 1)).map (startupWr s.cfg) ++
        l.map fun i => repostWr i (slot s.cfg i) := by
  obtain ⟨l, hl⟩ := hi.srq hr
  rw [hl] at hsrq
  rcases Nat.lt_or_ge s.takes s.cfg.conReqNum with hk | hk
  · rw [List.drop_eq_getElem_cons (by simpa using hk), List.map_cons, List.cons_append,
      List.cons.injEq, List.getElem_range] at hsrq
    rw [if_pos hk]
    exact ⟨hsrq.1.symm, l, hsrq.2.symm⟩
  · rw [List.drop_eq_nil_of_le (by simpa using hk), List.map_nil, List.nil_append] at hsrq
    rw [if_neg (Nat.not_lt.mpr hk), List.drop_eq_nil_of_le (by simp; omega)]
    cases l with
    | nil => cases hsrq
    | cons i l =>
        obtain ⟨rfl, rfl⟩ := List.cons.inj hsrq
        exact ⟨rfl, l, rfl⟩

theorem slotInv_init {mem : Mem} : SlotInv (init cfg mem) where
  started := started_init
  idle := fun _ => rfl
  mrs := fun h => by cases h
  mr := fun h => by cases h
  srq := fun h => by cases h
  taken := fun _ h => by cases h

/-- The start-up posts one receive for each context, in order. -/
theorem slotInv_startup (hi : SlotInv s) (hr : s.hasRequests = false)
    (h : step s e = .ok s') {q : QpNum} (he : e = .connectRequest q) : SlotInv s' := by
  subst he
  have hst := started_step hi.started h
  obtain ⟨-, -, rfl⟩ := step_connectRequest h
  have htakes := hi.idle hr
  have hw : s.withRequests = serverDataInit s := by simp [withRequests, hr]
  rw [hw] at hst ⊢
  exact ⟨hst, fun _ => htakes, fun _ => rfl, fun _ _ => rfl,
    fun _ => ⟨[], by simp [serverDataInit, htakes]⟩, hi.taken⟩

theorem slotInv_step (hi : SlotInv s) (h : step s e = .ok s') : SlotInv s' := by
  obtain ⟨hcfg, hmono⟩ := step_frame h
  cases hr : s.hasRequests with
  | false =>
      rcases step_idle hi.started hr h with ⟨q, rfl⟩ | ⟨hr', ht⟩
      · exact slotInv_startup hi hr h rfl
      · have hst := started_step hi.started h
        refine ⟨hst, fun _ => ht.trans (hi.idle hr), ?_, ?_, ?_, fun p hp => ?_⟩
        · exact fun ht => by rw [hr'] at ht; cases ht
        · exact fun ht => by rw [hr'] at ht; cases ht
        · exact fun ht => by rw [hr'] at ht; cases ht
        · rw [hst.hasRequests_of_mem (mem_places_taken hp)] at hr'
          cases hr'
  | true =>
      obtain ⟨hmrs, hmr, hsrq⟩ := step_srq h hr
      refine ⟨started_step hi.started h, fun hf => ?_, fun _ => ?_, fun _ i => ?_, fun _ => ?_,
        fun p hp => ?_⟩
      · rw [hmono hr] at hf; cases hf
      · rw [hmrs, hi.mrs hr, hcfg]
      · rw [hmr, hi.mr hr, hcfg]
      · rw [hcfg]
        rcases hsrq with ⟨ht, wr, hwr⟩ | ⟨ht, hq | ⟨i, hq⟩⟩
        · rw [ht]
          exact (hi.oldest hr hwr).2
        · rw [ht, hq]
          exact hi.srq hr
        · obtain ⟨l, hl⟩ := hi.srq hr
          refine ⟨l ++ [i], ?_⟩
          rw [hq, hl, ht, hi.mr hr, List.map_append, List.append_assoc]
          rfl
      · rw [hcfg]
        rcases step_taken h hp with hp | ⟨hn, hz, -, -, hwr⟩ | ⟨t, n, hp, heq, hle⟩
        · exact hi.taken p hp
        · exact ⟨by rw [hn]; exact (hi.oldest hr hwr).1, by omega⟩
        · have := hi.taken _ hp
          rw [heq]
          exact ⟨this.wr, hle⟩

theorem slotInv_run {mem : Mem} {tr : List Event} (h : run step (init cfg mem) tr = .ok s) :
    SlotInv s :=
  run_invariant (P := SlotInv) (fun _ _ _ hi hs => slotInv_step hi hs) slotInv_init h

end

/-! ### Isolation -/

/-- The receive describes exactly the slot of its context. -/
def DescribesSlot (cfg : ServerCfg) (wr : RecvWr Nat) : Prop :=
  ∃ sge, wr.sge = some sge ∧ sge.addr = (slot cfg wr.wrId).addr ∧
    sge.length = (slot cfg wr.wrId).length

/-- `x` is an address in the slot of context `i`. -/
def InSlot (cfg : ServerCfg) (i x : Nat) : Prop :=
  (slot cfg i).addr ≤ x ∧ x < (slot cfg i).addr + (slot cfg i).length

/-- The receives that messages take or have taken. -/
def receives (s : Server) : List (RecvWr Nat) := s.srq ++ s.taken.map fun p => p.2.wr

/-- The queue pair whose message changes the memory. -/
def Event.lands : Event → Option QpNum
  | .place q _ | .arriveFail q .. => some q
  | _ => none

/-- The slots are isolated: every receive, posted or taken, describes the slot of its context; what
lands changes no byte of another context's slot; and a message longer than the slot it lands in does
not complete well. -/
structure SlotIsolated (s : Server) : Prop where
  describes : ∀ wr ∈ s.receives, DescribesSlot s.cfg wr
  frame : ∀ e q s', e.lands = some q → step s e = .ok s' → ∀ t ∈ (Keyed.queue q s.taken).head?,
    ∀ j < s.cfg.conReqNum, j ≠ t.wrId → ∀ x, InSlot s.cfg j x → s'.mem x = s.mem x
  long : ∀ q imm origin s', step s (.arrive q imm origin) = .ok s' →
    ∀ t ∈ (Keyed.queue q s.taken).head?, t.placed ≤ (slot s.cfg t.wrId).length

section
variable {cfg : ServerCfg} {s : Server}

theorem slotSz_lt (hn : 1 ≤ cfg.conReqNum) (hreg : regionSz cfg < 2 ^ 32) : slotSz cfg < 2 ^ 32 :=
  Nat.lt_of_le_of_lt (Nat.le_mul_of_pos_right _ hn) hreg

theorem describesSlot_repost {i : Nat} (hreg : regionSz cfg < 2 ^ 32) (hi : i < cfg.conReqNum) :
    DescribesSlot cfg (repostWr i (slot cfg i)) := by
  refine ⟨_, rfl, rfl, ?_⟩
  show u32 (slot cfg i).length = (slot cfg i).length
  rw [slot_length hi]
  exact u32_of_lt (slotSz_lt (by omega) hreg)

/-- A start-up receive is right only when there is one context. -/
theorem describesSlot_startup {i : Nat} (hreg : regionSz cfg < 2 ^ 32) (hi : i < cfg.conReqNum) :
    DescribesSlot cfg (startupWr cfg i) ↔ cfg.conReqNum = 1 := by
  have hlen : u32 (slots cfg).mr.length = slotSz cfg * cfg.conReqNum := by
    rw [region_length (by omega), u32_of_lt hreg, regionSz]
  simp only [DescribesSlot, startupWr, Option.some.injEq, exists_eq_left', slot_length hi, hlen]
  constructor
  · rintro ⟨-, h⟩
    exact Nat.eq_of_mul_eq_mul_left slotSz_pos (by rw [h, Nat.mul_one])
  · intro h
    exact ⟨rfl, by rw [h, Nat.mul_one]⟩

/-- What lies outside a receive that describes its slot is another context's slot. -/
theorem DescribesSlot.apart (hreg : regionSz cfg < 2 ^ 32) {t : Taken}
    (h : DescribesSlot cfg t.wr) (hi : t.wrId < cfg.conReqNum) {j : Nat} (hj : j < cfg.conReqNum)
    (hne : j ≠ t.wrId) {x : Nat} (hx : InSlot cfg j x) :
    x < t.sge.addr ∨ t.sge.addr + t.sge.length ≤ x := by
  obtain ⟨sge, hsge, ha, hl⟩ := h
  cases hsge
  have ha : t.sge.addr = (slot cfg t.wrId).addr := ha
  have hl : t.sge.length = (slot cfg t.wrId).length := hl
  rw [ha, hl]
  rcases Nat.lt_or_gt_of_ne hne with hji | hij
  · exact .inl (Nat.lt_of_lt_of_le hx.2 (slot_end_le (by omega) hi hji))
  · exact .inr (Nat.le_trans (slot_end_le (by omega) hj hij) hx.1)

/-- Receives that describe their slots isolate the slots. -/
theorem slotIsolated_of_describes (hreg : regionSz s.cfg < 2 ^ 32) (hinv : SlotInv s)
    (hlt : ∀ wr ∈ s.receives, wr.wrId < s.cfg.conReqNum)
    (h : ∀ wr ∈ s.receives, DescribesSlot s.cfg wr) : SlotIsolated s := by
  have hmem : ∀ {q t taken}, Keyed.pop q s.taken = some (t, taken) → t.wr ∈ s.receives :=
    fun hp => List.mem_append_right _ (List.mem_map_of_mem (Keyed.mem_of_pop hp))
  have hhead : ∀ {q t t' taken}, Keyed.pop q s.taken = some (t, taken) →
      t' ∈ (Keyed.queue q s.taken).head? → t' = t := by
    intro q t t' taken hp ht
    rw [Keyed.queue_of_pop hp] at ht
    exact (Option.some.inj ht).symm
  refine ⟨h, fun e q s' he hs t' ht j hj hne x hx => ?_, fun q imm origin s' hs t' ht => ?_⟩
  · cases e with
    | place q bytes =>
        cases he
        obtain ⟨t, taken, hp, hfit, rfl⟩ := step_place.mp hs
        obtain rfl := hhead hp ht
        -- bytes that land well are within the scatter entry
        refine Mem.write_of_outside ?_
        have := (h _ (hmem hp)).apart hreg (hlt _ (hmem hp)) hj hne hx
        have := hfit.1
        omega
    | arriveFail q code fields junk origin =>
        cases he
        obtain ⟨t, taken, hp, rfl⟩ := step_arriveFail hs
        obtain rfl := hhead hp ht
        refine Mem.scramble_of_outside ?_
        have := (h _ (hmem hp)).apart hreg (hlt _ (hmem hp)) hj hne hx
        omega
    | _ => cases he
  · obtain ⟨t, taken, hp, -⟩ := step_arrive.mp hs
    obtain rfl := hhead hp ht
    obtain ⟨sge, hsge, -, hl⟩ := h _ (hmem hp)
    cases hsge
    exact hl ▸ (hinv.taken _ (Keyed.mem_of_pop hp)).placed

/-- **Slot isolation.**  After any run the slots are isolated exactly when the queue has not been
set up, or there is one context, or every start-up receive has been taken and none is in use any
more. -/
theorem slotIsolated_iff {mem : Mem} {tr : List Event} (hn : 1 ≤ cfg.conReqNum)
    (hreg : regionSz cfg < 2 ^ 32) (h : run step (init cfg mem) tr = .ok s) :
    SlotIsolated s ↔ s.hasRequests = false ∨ cfg.conReqNum = 1 ∨
      cfg.conReqNum ≤ s.takes ∧ ∀ p ∈ s.taken, cfg.conReqNum ≤ p.2.nth := by
  have hinv := slotInv_run h
  have hcfg : s.cfg = cfg := cfg_run h
  have hplaced : ∀ wr ∈ s.receives, wr.wrId ∈ s.places := by
    intro wr hwr
    rcases List.mem_append.mp hwr with hwr | hwr
    · exact mem_places_srq hwr
    · obtain ⟨p, hp, rfl⟩ := List.mem_map.mp hwr
      exact mem_places_taken hp
  have hlt : ∀ wr ∈ s.receives, wr.wrId < s.cfg.conReqNum := by
    intro wr hwr
    rw [hcfg]
    exact lt_of_mem_places h (hplaced wr hwr)
  subst hcfg
  constructor
  · intro hiso
    by_contra hcon
    simp only [not_or, Bool.not_eq_false] at hcon
    obtain ⟨hr, hne, hused⟩ := hcon
    -- a start-up receive is too long, on the queue or off it
    rcases Nat.lt_or_ge s.takes s.cfg.conReqNum with hk | hk
    · obtain ⟨l, hl⟩ := hinv.srq hr
      have hmem : startupWr s.cfg s.takes ∈ s.receives := by
        rw [receives, hl, List.drop_eq_getElem_cons (by simpa using hk)]
        simp
      exact hne ((describesSlot_startup hreg hk).mp (hiso.describes _ hmem))
    · refine hused ⟨hk, fun p hp => ?_⟩
      by_contra hlt
      have hwr := (hinv.taken p hp).wr
      rw [if_pos (Nat.not_le.mp hlt)] at hwr
      have hmem : startupWr s.cfg p.2.nth ∈ s.receives := by
        rw [← hwr]
        exact List.mem_append_right _ (List.mem_map_of_mem hp)
      exact hne ((describesSlot_startup hreg (Nat.not_le.mp hlt)).mp (hiso.describes _ hmem))
  · intro hcond
    refine slotIsolated_of_describes hreg hinv hlt fun wr hwr => ?_
    have hr := hinv.started.hasRequests_of_mem (hplaced wr hwr)
    have hwrId := hlt wr hwr
    rcases List.mem_append.mp hwr with hwr | hwr
    · obtain ⟨l, hl⟩ := hinv.srq hr
      rw [hl, List.mem_append, List.mem_map, List.mem_map] at hwr
      rcases hwr with ⟨i, hi, rfl⟩ | ⟨i, -, rfl⟩
      · refine (describesSlot_startup hreg hwrId).mpr ?_
        rcases hcond with hf | h1 | ⟨hk, -⟩
        · rw [hr] at hf; cases hf
        · exact h1
        · rw [List.drop_eq_nil_of_le (by simpa using hk)] at hi; cases hi
      · exact describesSlot_repost hreg hwrId
    · obtain ⟨p, hp, rfl⟩ := List.mem_map.mp hwr
      have hwr := (hinv.taken p hp).wr
      rw [hwr]
      split
      · rename_i hlt
        refine (describesSlot_startup hreg hlt).mpr ?_
        rcases hcond with hf | h1 | ⟨-, hused⟩
        · rw [hr] at hf; cases hf
        · exact h1
        · exact absurd (hused p hp) (Nat.not_le.mpr hlt)
      · exact describesSlot_repost hreg hwrId

end

/-! ### An overrun -/

/-- A request of four bytes over `q`, up to the call of the handler. -/
def upToCall (q : QpNum) : List Event :=
  [.take q, .place q (List.replicate 16 0), .arrive q (some 0) ⟨q, 0⟩, .poll 0 1, .handle 0, .dispatch 0]

/-- Its answer from context `i`, up to the completion of the response write. -/
def upToDone (q : QpNum) (i : Nat) : List Event :=
  upToCall q ++ [.answer i (4096 + 16 * i + 12) 4, .land q, .writeDone q .good]

/-- And up to the post of the context's receive. -/
def oneRound (q : QpNum) (i : Nat) : List Event := upToDone q i ++ [.poll 0 1, .handle 0]

/-- With two contexts the slots are isolated after two rounds, while a third message is in
progress. -/
theorem slotIsolated_twoContexts :
    ∃ tr s, run step (init twoContexts fun _ => 0) tr = .ok s ∧ s.takes = 3 ∧ s.taken ≠ [] ∧
      s.srq ≠ [] ∧ SlotIsolated s := by
  have h : run step (init twoContexts fun _ => 0)
      ([.connectRequest 7] ++ oneRound 7 0 ++ oneRound 7 1 ++ [.take 7]) = .ok _ := rfl
  refine ⟨_, _, h, rfl, by decide, by decide, ?_⟩
  refine (slotIsolated_iff (by decide) (by decide) h).mpr (.inr (.inr ⟨by decide, ?_⟩))
  decide

/-- The first message may have twenty bytes, four more than its slot: they land in the slot of
context 1, and it completes well. -/
theorem slot_overrun :
    ∃ s s' s'', run step (init twoContexts fun _ => 0) [.connectRequest 7, .take 7] = .ok s ∧
      step s (.place 7 (List.replicate 20 1)) = .ok s' ∧
      step s' (.arrive 7 (some 0) ⟨7, 0⟩) = .ok s'' ∧ InSlot twoContexts 1 4112 ∧
      s.mem 4112 = 0 ∧ s'.mem 4112 = 1 ∧ ¬ SlotIsolated s := by
  refine ⟨_, _, _, rfl, rfl, rfl, ⟨by decide, by decide⟩, rfl, rfl, fun h => ?_⟩
  have hframe := h.frame (.place 7 (List.replicate 20 1)) 7 _ rfl rfl _ rfl 1 (by decide)
    (by decide) 4112 ⟨by decide, by decide⟩
  exact absurd hframe (by decide)

end Server

end RdmaRpc
