import RdmaRpc.Net.Requests

/-!
# Net — Landing

Messages in progress.  A message has its receive to itself until its last packet has landed, and what
has landed of it is the beginning of its bytes, whatever lands of other messages meanwhile
(`inProgress_step`).

This needs that no message takes a receive with which it could leave its slot (`Fitting`).  A receive
posted again is as long as its slot, and holds every message to it; the receives of the start-up are
as long as the whole region, and hold the first messages of a server to nothing.
-/

namespace RdmaRpc
open Lib

namespace Net

/-- A message that takes a receive is no longer than its slot, or the receive is not. -/
def Fitting (n : Net) : Event → Prop
  | .take q => ∀ m ∈ (Keyed.queue q n.wire).head?, ∀ wr ∈ n.server.srq.head?, ∀ sge ∈ wr.sge,
      m.bytes.length ≤ (n.server.requests wr.wrId).mr.length ∨
        sge.length ≤ (n.server.requests wr.wrId).mr.length
  | _ => True

instance (n : Net) : DecidablePred n.Fitting
  | .take _ => inferInstanceAs (Decidable (∀ _ ∈ _, ∀ _ ∈ _, ∀ _ ∈ _, _ ∨ _))
  | .connect .. | .sendReq .. | .transmit _ | .place .. | .arrive _ | .server _ | .answer .. | .land _
  | .client .. | .write .. => isTrue trivial

/-- The message `m` of `q` lands in the receive `tk`. -/
structure Landing (cfg : ServerCfg) (n : Net) (q : QpNum) (tk : Taken) (m : Msg) : Prop where
  oldest : (Keyed.queue q n.wire).head? = some m
  placed : tk.placed ≤ m.bytes.length
  inSlot : tk.placed ≤ Server.slotSz cfg
  bytes : n.server.mem.read tk.sge.addr tk.placed = m.bytes.take tk.placed
  fits : m.bytes.length ≤ Server.slotSz cfg ∨ tk.sge.length ≤ Server.slotSz cfg

/-- Each receive taken has the message that lands in it. -/
def InProgress (cfg : ServerCfg) (n : Net) : Prop :=
  ∀ q tk, (q, tk) ∈ n.server.taken → ∃ m, Landing cfg n q tk m

section
variable {cfg : ServerCfg} {n n' : Net} {e : Event} {q : QpNum} {tk : Taken} {m : Msg}
  {wire : List (QpNum × Msg)} {taken : List (QpNum × Taken)} {len : Nat}
  {T : Origin → Option Ticket}

theorem Msg.take_next {placed : Nat} :
    m.bytes.take placed ++ m.next placed len =
      m.bytes.take (placed + (m.next placed len).length) := by
  rw [List.take_add, Msg.next]
  refine congrArg _ ?_
  simp [List.take_eq_take_iff]

theorem Msg.length_next_le {placed : Nat} (h : placed ≤ m.bytes.length) :
    placed + (m.next placed len).length ≤ m.bytes.length := by
  simp only [Msg.next, List.length_take, List.length_drop]
  omega

/-- The message that lands is the oldest. -/
theorem InProgress.landing (hp : InProgress cfg n) (hw : Keyed.pop q n.wire = some (m, wire))
    (ht : Keyed.pop q n.server.taken = some (tk, taken)) : Landing cfg n q tk m := by
  obtain ⟨m', hl⟩ := hp q tk (Keyed.mem_of_pop ht)
  have hold := hl.oldest
  rw [Keyed.queue_of_pop hw] at hold
  obtain rfl : m = m' := Option.some.inj hold
  exact hl

/-- What lands next lands in the slot. -/
theorem InProgress.meets_place (hp : InProgress cfg n) (hw : Keyed.pop q n.wire = some (m, wire))
    (ht : Keyed.pop q n.server.taken = some (tk, taken)) {server : Server}
    (hs : Server.step n.server (.place q (m.next tk.placed len)) = .ok server) :
    Server.Meets cfg T n.server (.place q (m.next tk.placed len)) := by
  have hl := hp.landing hw ht
  intro tk' hhead
  rw [Keyed.queue_of_pop ht] at hhead
  obtain rfl : tk = tk' := Option.some.inj hhead
  obtain ⟨tk', taken', ht', hfit, -⟩ := Server.step_place.mp hs
  rw [ht, Option.some.injEq, Prod.mk.injEq] at ht'
  obtain ⟨rfl, -⟩ := ht'
  rcases hl.fits with hfits | hfits
  · exact (Msg.length_next_le hl.placed).trans hfits
  · exact hfit.1.trans hfits

/-- A message in progress of which nothing lands. -/
theorem Landing.keep (hl : Landing cfg n q tk m)
    (hwire : Keyed.queue q n.wire ≠ [] → (Keyed.queue q n'.wire).head? = (Keyed.queue q n.wire).head?)
    (hmem : ∀ x, tk.sge.addr ≤ x → x < tk.sge.addr + Server.slotSz cfg →
      n'.server.mem x = n.server.mem x) : Landing cfg n' q tk m := by
  have hold := hl.oldest
  have hne : Keyed.queue q n.wire ≠ [] := fun hnil => by rw [hnil] at hold; cases hold
  refine ⟨(hwire hne).trans hold, hl.placed, hl.inSlot, ?_, hl.fits⟩
  rw [← hl.bytes]
  exact Mem.read_congr fun x hlo hhi => hmem x hlo (hhi.trans_le (Nat.add_le_add_left hl.inSlot _))

section
variable {mem : Mem} {hosts : Nat → Mem} {tr : List Event}

/-- The slot of a receive taken. -/
theorem inSlot_of_taken (hr : run step (init cfg mem hosts) tr = .ok n)
    (htk : (q, tk) ∈ n.server.taken) {x : Nat} (hlo : tk.sge.addr ≤ x)
    (hhi : x < tk.sge.addr + Server.slotSz cfg) : Server.InSlot cfg tk.wrId x := by
  obtain ⟨tr', hrun, -⟩ := server_run hr
  have haddr := (Server.fromQueue_run hrun htk).sge.1
  have hlt := Server.lt_of_mem_places hrun (Server.mem_places_taken htk)
  rw [Server.InSlot, Server.slot_length hlt, ← haddr]
  exact ⟨hlo, hhi⟩

/-- A step of the server, other than the packets of messages. -/
theorem InProgress.server (hp : InProgress cfg n) (hr : run step (init cfg mem hosts) tr = .ok n)
    (hreg : Server.regionSz cfg < 2 ^ 64) {e : Server.Event} {server : Server} (hg : e.Good)
    (he : e.onWire = false) (hm : Server.Meets cfg T n.server e)
    (hs : Server.step n.server e = .ok server) (hserver : n'.server = server)
    (hwire : n'.wire = n.wire) : InProgress cfg n' := by
  intro q tk htk
  rw [hserver, taken_step hg he hs] at htk
  obtain ⟨m, hl⟩ := hp q tk htk
  obtain ⟨tr', hrun, -⟩ := server_run hr
  refine ⟨m, hl.keep (fun _ => by rw [hwire]) fun x hlo hhi => ?_⟩
  rw [hserver]
  exact Server.mem_step_of_taken hrun hreg hg hm hs htk (fun bytes heq => by rw [heq] at he; cases he)
    (inSlot_of_taken hr htk hlo hhi)

/-- A message takes the oldest receive. -/
theorem inProgress_take (hp : InProgress cfg n) (hr : run step (init cfg mem hosts) tr = .ok n)
    (hfit : n.Fitting (.take q)) (h : step n (.take q) = .ok n') : InProgress cfg n' := by
  obtain ⟨hw, -, server, hs, rfl⟩ := step_take h
  obtain ⟨-, -, i, sge, srq, hsrq, hs'⟩ := Server.step_take.mp hs
  have hmem : server.mem = n.server.mem := by rw [hs']
  intro q' tk htk
  have htk : (q', tk) ∈ server.taken := htk
  rw [hs'] at htk
  rcases List.mem_append.mp htk with htk | htk
  · obtain ⟨m, hl⟩ := hp q' tk htk
    exact ⟨m, hl.keep (fun _ => rfl) fun x _ _ => congrFun hmem x⟩
  · cases List.mem_singleton.mp htk
    obtain ⟨m, rest, hq⟩ := List.exists_cons_of_ne_nil hw
    obtain ⟨tr', hrun, -⟩ := server_run hr
    have hwr : (⟨i, some sge⟩ : RecvWr Nat) ∈ n.server.srq := by rw [hsrq]; exact List.mem_cons_self
    have hplace : i ∈ n.server.places := Server.mem_places_srq hwr
    have hlt := Server.lt_of_mem_places hrun hplace
    refine ⟨m, by simp [hq], Nat.zero_le _, Nat.zero_le _, by simp [Mem.read], ?_⟩
    have := hfit m (by simp [hq]) ⟨i, some sge⟩ (by simp [hsrq]) sge rfl
    rwa [Server.mr_eq_slot hrun hplace, Server.slot_length hlt] at this

/-- The next packet of a message lands behind those that have. -/
theorem inProgress_place (hp : InProgress cfg n) (hr : run step (init cfg mem hosts) tr = .ok n)
    (hreg : Server.regionSz cfg < 2 ^ 64) (h : step n (.place q len) = .ok n') : InProgress cfg n' := by
  obtain ⟨m, wire, tk, taken, server, hw, ht, hs, rfl⟩ := step_place h
  obtain ⟨tr', hrun, -⟩ := server_run hr
  have hmeets : Server.Meets cfg (fun _ => none) n.server (.place q (m.next tk.placed len)) :=
    hp.meets_place hw ht hs
  have hl := hp.landing hw ht
  obtain ⟨tk', taken', ht', -, hs'⟩ := Server.step_place.mp hs
  rw [ht, Option.some.injEq, Prod.mk.injEq] at ht'
  obtain ⟨rfl, rfl⟩ := ht'
  intro q' tk' htk
  have htk : (q', tk') ∈ server.taken := htk
  rw [hs'] at htk
  rcases List.mem_append.mp htk with hrest | htk
  · -- of another message nothing lands, for its queue pair is another
    have hold : (q', tk') ∈ n.server.taken := (Keyed.pop_sublist ht).subset hrest
    have hne : q' ≠ q := (workLive_run hr).ne_of_popped ht hrest
    obtain ⟨m', hl'⟩ := hp q' tk' hold
    refine ⟨m', hl'.keep (fun _ => rfl) fun x hlo hhi => ?_⟩
    refine Server.mem_step_of_taken hrun hreg (by trivial) hmeets hs hold (fun bytes heq => ?_)
      (inSlot_of_taken hr hold hlo hhi)
    cases heq
    exact hne rfl
  · cases List.mem_singleton.mp htk
    have hin := hmeets tk (by rw [Keyed.queue_of_pop ht]; rfl)
    refine ⟨m, hl.oldest, Msg.length_next_le hl.placed, hin, ?_, hl.fits⟩
    show server.mem.read tk.sge.addr (tk.placed + (m.next tk.placed len).length) = _
    rw [hs', ← Msg.take_next, ← hl.bytes, ← Mem.read_append, Mem.read_write_self,
      Mem.read_write_of_disjoint (.inl (Nat.le_refl _))]

theorem inProgress_arrive (hp : InProgress cfg n) (hr : run step (init cfg mem hosts) tr = .ok n)
    (h : step n (.arrive q) = .ok n') : InProgress cfg n' := by
  obtain ⟨m, wire, tk, taken, server, hw, ht, -, hs, rfl⟩ := step_arrive h
  obtain ⟨tk', taken', ht', hs'⟩ := Server.step_arrive.mp hs
  have hmem : server.mem = n.server.mem := by rw [hs']
  intro q' tk' htk
  have htk : (q', tk') ∈ server.taken := htk
  rw [hs'] at htk
  have hne : q' ≠ q := (workLive_run hr).ne_of_popped ht' htk
  obtain ⟨m', hl⟩ := hp q' tk' ((Keyed.pop_sublist ht').subset htk)
  exact ⟨m', hl.keep (fun _ => congrArg List.head? (Keyed.queue_of_pop_ne hw hne))
    fun x _ _ => congrFun hmem x⟩

/-- **Each step keeps the messages in progress whole.** -/
theorem inProgress_step (hp : InProgress cfg n) (hr : run step (init cfg mem hosts) tr = .ok n)
    (hreg : Server.regionSz cfg < 2 ^ 64) (hfit : n.Fitting e) (h : step n e = .ok n') :
    InProgress cfg n' := by
  have hsame : n'.server = n.server → n'.wire = n.wire → InProgress cfg n' := fun hs hw q tk htk => by
    obtain ⟨m, hl⟩ := hp q tk (hs ▸ htk)
    exact ⟨m, hl.keep (fun _ => by rw [hw]) fun x _ _ => by rw [hs]⟩
  cases e with
  | connect q host buf =>
      obtain ⟨server, hs, rfl⟩ := step_connect h
      exact hp.server (T := fun _ => none) hr hreg (by trivial) rfl (by trivial) hs rfl rfl
  | sendReq q a pick => obtain ⟨c, ele, mp, -, -, -, -, rfl⟩ := step_sendReq h; exact hsame rfl rfl
  | transmit q =>
      obtain ⟨c, p, sends, -, -, rfl⟩ := step_transmit h
      intro q' tk htk
      obtain ⟨m, hl⟩ := hp q' tk htk
      refine ⟨m, hl.keep (fun hne => ?_) fun x _ _ => rfl⟩
      rw [Keyed.queue_append]
      exact List.head?_append_of_ne_nil _ hne
  | take q => exact inProgress_take hp hr hfit h
  | place q len => exact inProgress_place hp hr hreg h
  | arrive q => exact inProgress_arrive hp hr h
  | server e =>
      obtain ⟨he, server, hs, rfl⟩ := step_server h
      have hwire : e.onWire = false := by cases e <;> first | rfl | cases he
      exact hp.server (T := fun _ => none) hr hreg (good_of_inside he) hwire
        (by cases e <;> trivial) hs rfl rfl
  | answer i resp respSz =>
      obtain ⟨server, hs, rfl⟩ := step_answer h
      obtain ⟨hd, held, c, conn, q, -, -, -, -, -, hs'⟩ := Server.step_answer hs
      intro q' tk htk
      obtain ⟨m, hl⟩ := hp q' tk (by rw [hs'] at htk; exact htk)
      exact ⟨m, hl.keep (fun _ => rfl) fun x _ _ => by rw [hs']⟩
  | land q =>
      obtain ⟨p, sends, c, server, -, -, hs, c', -, rfl⟩ := step_land h
      exact hp.server (T := fun _ => none) hr hreg (by trivial) rfl (by trivial) hs rfl rfl
  | client q e => obtain ⟨-, c, c', -, -, rfl⟩ := step_client h; exact hsame rfl rfl
  | write host addr bytes => obtain rfl := step_write h; exact hsame rfl rfl

theorem inProgress_init : InProgress cfg (init cfg mem hosts) := fun q tk htk => by
  simp [init, Server.init] at htk

end

end

end Net

end RdmaRpc
