import RdmaRpc.App.Machine
import Mathlib.Data.List.Nodup

/-!
# App — Fifo

The messages of one thread to another are started in the order they were sent, each once and as it
was sent, and no event element is lost.

The invariant is an equation for each pair of threads (`Intact.fifo`): what was sent is what has been
started, then what waits, in the batch, in the queue and in the call under way.  It reads the tasks
that wait from the memory of their elements, which is right as long as nobody else has the element
(`Intact.elements`).
-/

namespace RdmaRpc
open Lib

namespace KvApp

/-! ### What waits -/

/-- The elements of the batch of thread `d` whose task has not been started. -/
def unstarted (s : KvApp) (d : Nat) : List (Nat × KvAppMsg) :=
  (Keyed.queue d s.msgBuf).drop (if s.running d then 1 else 0)

/-- The messages from `src` to `dst` that have not been started, oldest first. -/
def waiting (s : KvApp) (src dst : Nat) : List KvAppMsg :=
  Keyed.queue src (s.unstarted dst) ++ Keyed.queue (src, dst) s.cq ++
    Keyed.queue dst (Keyed.queue src s.sending)

/-- The call and the task of a message, as its element holds it. -/
def content (s : KvApp) (m : KvAppMsg) : Nat × KvAppTask := (m.serial, s.mem m.ele)

/-- The elements on a queue. -/
def queued (s : KvApp) : List Nat := s.cq.map fun p => p.2.ele

/-- The elements in a batch. -/
def batched (s : KvApp) : List Nat := s.msgBuf.map fun p => p.2.2.ele

/-- The elements of the calls of `kv_app_send` under way. -/
def written (s : KvApp) : List Nat := s.sending.map fun p => p.2.2.ele

structure Intact (count : Nat) (s : KvApp) : Prop where
  elements : (s.pool ++ s.queued ++ s.batched ++ s.written).Perm (List.range count)
  serials : s.sent.map (fun p => p.2.1) = List.range s.sent.length
  running : ∀ d, s.running d = true → Keyed.queue d s.msgBuf ≠ []
  fifo : ∀ src dst, Keyed.queue (src, dst) s.sent =
    Keyed.queue (src, dst) s.started ++ (s.waiting src dst).map s.content

section
variable {count : Nat} {s s' : KvApp} {t d dst src pick ele : Nat} {task : KvAppTask} {m : KvAppMsg}

/-- A message that waits has its element. -/
theorem mem_of_waiting (h : m ∈ s.waiting src dst) :
    m.ele ∈ s.queued ++ s.batched ++ s.written := by
  simp only [waiting, List.mem_append, Keyed.mem_queue, unstarted] at h
  simp only [queued, batched, written, List.mem_append, List.mem_map]
  rcases h with (h | h) | h
  · exact .inl (.inr ⟨_, Keyed.mem_queue.mp (List.mem_of_mem_drop h), rfl⟩)
  · exact .inl (.inl ⟨_, h, rfl⟩)
  · exact .inr ⟨_, h, rfl⟩

/-- A free element is no message's. -/
theorem Intact.ne_of_waiting (hs : Intact count s) (hele : ele ∈ s.pool)
    (h : m ∈ s.waiting src dst) : m.ele ≠ ele := by
  rintro rfl
  have hnd := hs.elements.nodup_iff.mpr List.nodup_range
  rw [List.append_assoc, List.append_assoc] at hnd
  have hmem := mem_of_waiting h
  rw [List.append_assoc] at hmem
  exact (List.nodup_append.mp hnd).2.2 _ hele _ hmem rfl

theorem intact_send (hs : Intact count s) (h : kvAppSend s t dst task pick = .ok s') :
    Intact count s' := by
  obtain ⟨ele, hele, rfl⟩ := kvAppSend_eq_ok h
  have hmem : ele ∈ s.pool := List.mem_of_getElem? hele
  refine ⟨?_, ?_, hs.running, fun src dst' => ?_⟩
  · refine List.perm_iff_count.mpr fun x => ?_
    have hcount := List.perm_iff_count.mp hs.elements x
    have hpick := (Keyed.perm_pick hele).count_eq x
    simp only [queued, batched, written, List.map_append, List.map_cons, List.map_nil,
      List.count_append, List.count_cons, List.count_nil] at hcount hpick ⊢
    omega
  · simp [hs.serials, List.range_succ]
  · -- the new message is the last of its pair
    have hold : ∀ m ∈ s.waiting src dst', (m.serial, Function.update s.mem ele task m.ele) =
        s.content m := fun m hm => by
      rw [Function.update_of_ne (hs.ne_of_waiting hmem hm), content]
    have hwait : s.waiting src dst' ++ Keyed.queue (src, dst') [((t, dst), ⟨ele, s.sent.length⟩)] =
        waiting { s with sending := s.sending ++ [(t, (dst, ⟨ele, s.sent.length⟩))] } src dst' := by
      simp only [waiting, unstarted, Keyed.queue_append, Keyed.queue_queue_singleton,
        List.append_assoc]
    show Keyed.queue (src, dst') (s.sent ++ _) = _ ++ List.map _ (waiting _ src dst')
    rw [Keyed.queue_append, hs.fifo src dst', List.append_assoc]
    congr 1
    refine Eq.trans ?_ (congrArg _ hwait)
    rw [List.map_append]
    congr 1
    · exact (List.map_congr_left hold).symm
    · by_cases hp : (t, dst) = (src, dst') <;> simp [Keyed.queue_cons, hp, content]

theorem intact_enqueue (hs : Intact count s) (h : enqueueWithToken s t = .ok s') :
    Intact count s' := by
  obtain ⟨dst, m, sending, hp, rfl⟩ := enqueueWithToken_eq_ok h
  refine ⟨?_, hs.serials, hs.running, fun src dst' => ?_⟩
  · refine List.perm_iff_count.mpr fun x => ?_
    have hcount := List.perm_iff_count.mp hs.elements x
    have hpop := ((Keyed.pop_perm hp).map fun p => p.2.2.ele).count_eq x
    simp only [queued, batched, written, List.map_append, List.map_cons, List.map_nil,
      List.count_append, List.count_cons, List.count_nil] at hcount hpop ⊢
    omega
  · rw [hs.fifo src dst']
    suffices hwait : s.waiting src dst' = waiting _ src dst' by rw [hwait]; rfl
    simp only [waiting, unstarted, Keyed.queue_append, List.append_assoc]
    congr 2
    by_cases ht : src = t
    · subst ht
      rw [Keyed.queue_of_pop hp]
      by_cases hd : dst' = dst
      · subst hd
        simp [Keyed.queue_cons]
      · simp [Keyed.queue_cons, Ne.symm hd]
    · rw [Keyed.queue_of_pop_ne hp ht, Keyed.queue_singleton_ne (by simp [Ne.symm ht])]
      rfl

theorem intact_dequeue (hs : Intact count s) (h : dequeue d s src = .ok s') : Intact count s' := by
  obtain ⟨m, cq, hp, rfl⟩ := dequeue_eq_ok h
  refine ⟨?_, hs.serials, fun d' hd' => ?_, fun src' dst' => ?_⟩
  · refine List.perm_iff_count.mpr fun x => ?_
    have hcount := List.perm_iff_count.mp hs.elements x
    have hpop := ((Keyed.pop_perm hp).map fun p => p.2.ele).count_eq x
    simp only [queued, batched, written, List.map_append, List.map_cons, List.map_nil,
      List.count_append, List.count_cons, List.count_nil] at hcount hpop ⊢
    omega
  · simp [hs.running d' hd']
  · rw [hs.fifo src' dst']
    suffices hwait : s.waiting src' dst' = waiting _ src' dst' by rw [hwait]; rfl
    -- the task at hand, if it is running, is not the new element
    have hunstarted : unstarted { s with msgBuf := s.msgBuf ++ [(d, (src, m))] } dst' =
        s.unstarted dst' ++ Keyed.queue dst' [(d, (src, m))] := by
      simp only [unstarted, Keyed.queue_append]
      split
      · next hrun => rw [List.drop_append_of_le_length (List.length_pos_of_ne_nil (hs.running _ hrun))]
      · rfl
    show _ = Keyed.queue src' (unstarted { s with msgBuf := _ } dst') ++ _ ++ _
    rw [hunstarted, Keyed.queue_append, Keyed.queue_queue_singleton, waiting]
    congr 1
    rw [List.append_assoc]
    congr 1
    by_cases hd : (src', dst') = (src, d)
    · obtain ⟨rfl, rfl⟩ := Prod.mk.inj hd
      rw [Keyed.queue_of_pop hp]
      simp [Keyed.queue_cons]
    · rw [Keyed.queue_of_pop_ne hp hd, Keyed.queue_singleton_ne fun h => hd (by grind)]
      rfl

theorem intact_start (hs : Intact count s) (hd : s.running d = false)
    (h : startTask s d = .ok s') : Intact count s' := by
  obtain ⟨src, m, rest, hq, rfl⟩ := startTask_eq_ok h
  refine ⟨hs.elements, hs.serials, fun d' hd' => ?_, fun src' dst' => ?_⟩
  · by_cases hdd : d' = d
    · subst hdd
      simp [hq]
    · exact hs.running d' (by simpa [hdd] using hd')
  · rw [hs.fifo src' dst', Keyed.queue_append, List.append_assoc]
    congr 1
    suffices hwait : s.waiting src' dst' = Keyed.queue (src', dst') [((src, d), m)] ++
        waiting { s with running := Function.update s.running d true } src' dst' by
      rw [hwait, List.map_append]
      congr 1
      by_cases hp : (src, d) = (src', dst') <;> simp [Keyed.queue_cons, hp, content]
    simp only [waiting, unstarted, ← List.append_assoc]
    congr 2
    by_cases hdd : dst' = d
    · subst hdd
      by_cases hsrc : src = src' <;> simp [hd, hq, Keyed.queue_cons, hsrc]
    · simp [Keyed.queue_cons, hdd, Ne.symm hdd]

theorem intact_put (hs : Intact count s) (hd : s.running d = true) (h : putTask s d = .ok s') :
    Intact count s' := by
  obtain ⟨src, m, msgBuf, hp, rfl⟩ := putTask_eq_ok h
  refine ⟨?_, hs.serials, fun d' hd' => ?_, fun src' dst' => ?_⟩
  · refine List.perm_iff_count.mpr fun x => ?_
    have hcount := List.perm_iff_count.mp hs.elements x
    have hpop := ((Keyed.pop_perm hp).map fun p => p.2.2.ele).count_eq x
    simp only [queued, batched, written, List.map_cons, List.count_append, List.count_cons,
      List.count_nil] at hcount hpop ⊢
    omega
  · by_cases hdd : d' = d
    · subst hdd
      simp at hd'
    · rw [Keyed.queue_of_pop_ne hp hdd]
      exact hs.running d' (by simpa [hdd] using hd')
  · rw [hs.fifo src' dst']
    suffices hwait : s.waiting src' dst' = waiting _ src' dst' by rw [hwait]; rfl
    simp only [waiting, unstarted]
    congr 3
    by_cases hdd : dst' = d
    · subst hdd
      simp [hd, Keyed.queue_of_pop hp]
    · simp [hdd, Keyed.queue_of_pop_ne hp hdd]

/-! ### Runs -/

theorem intact_init : Intact count (init count) where
  elements := by simp [init, queued, batched, written]
  serials := rfl
  running := by simp [init]
  fifo := by simp [init, waiting, unstarted]

theorem intact_step (s : KvApp) (e : Event) (s' : KvApp) (hs : Intact count s)
    (h : step s e = .ok s') : Intact count s' := by
  cases e with
  | send t dst task pick =>
      obtain ⟨_, -, h⟩ := Outcome.bind_eq_ok.mp h
      exact intact_send hs h
  | enqueue t => exact intact_enqueue hs h
  | poll d srcs =>
      obtain ⟨_, -, h⟩ := Outcome.bind_eq_ok.mp h
      exact run_invariant (fun _ _ _ => intact_dequeue) hs h
  | start d =>
      obtain ⟨_, hreq, h⟩ := Outcome.bind_eq_ok.mp h
      exact intact_start hs (Outcome.require_eq_ok.mp hreq).2 h
  | put d =>
      obtain ⟨_, hreq, h⟩ := Outcome.bind_eq_ok.mp h
      exact intact_put hs (Outcome.require_eq_ok.mp hreq).2 h

/-- The tasks started are some of those sent, each as often. -/
theorem Intact.started_subperm (hs : Intact count s) : s.started.Subperm s.sent :=
  Keyed.subperm_of_queue fun ⟨src, dst⟩ => by
    rw [hs.fifo src dst]
    exact (List.sublist_append_left _ _).subperm

theorem Intact.nodup_started (hs : Intact count s) : (s.started.map fun p => p.2.1).Nodup := by
  obtain ⟨l, hperm, hsub⟩ := hs.started_subperm
  refine (hperm.map _).nodup_iff.mp ((hsub.map _).nodup ?_)
  rw [hs.serials]
  exact List.nodup_range

variable {tr : List Event}

/-- **First in, first out.**  In every run, of any number of threads: the tasks of one thread that
another has started are the first of those it sent, in order, with the function and the argument
sent; no call of `kv_app_send` has its task started twice; and each event element is in one place,
free, on the queue of one thread, in the batch of one thread, or, until it enqueues it, with one call
of `kv_app_send`. -/
theorem messages_fifo (h : run step (init count) tr = .ok s) :
    (∀ src dst, Keyed.queue (src, dst) s.started <+: Keyed.queue (src, dst) s.sent) ∧
      (s.started.map fun p => p.2.1).Nodup ∧
      (s.pool ++ s.queued ++ s.batched ++ s.written).Perm (List.range count) ∧
      (s.sending = [] → (s.pool ++ s.queued ++ s.batched).Perm (List.range count)) := by
  have hs : Intact count s := run_invariant intact_step intact_init h
  refine ⟨fun src dst => ⟨_, (hs.fifo src dst).symm⟩, hs.nodup_started, hs.elements, fun hsend => ?_⟩
  simpa [written, hsend] using hs.elements

end

/-- Thread `0` sends to thread `1`, whose task sends to its own thread. -/
def sendBack : List Event :=
  [.send 0 1 ⟨some 7, 8⟩ 0, .enqueue 0, .poll 1 [0], .start 1, .send 1 1 ⟨none, 9⟩ 0, .enqueue 1,
    .put 1, .poll 1 [1], .start 1]

theorem messages_fifo_sendBack :
    ∃ s, run step (init 2) sendBack = .ok s ∧
      s.started = [((0, 1), (0, ⟨some 7, 8⟩)), ((1, 1), (1, ⟨none, 9⟩))] ∧
      Keyed.queue (1, 1) s.started <+: Keyed.queue (1, 1) s.sent ∧
      (s.started.map fun p => p.2.1).Nodup ∧ (s.pool ++ s.queued ++ s.batched).Perm [0, 1] :=
  have h := messages_fifo (show run step (init 2) sendBack = .ok _ from rfl)
  ⟨_, rfl, rfl, h.1 1 1, h.2.1, h.2.2.2 rfl⟩

end KvApp

end RdmaRpc
