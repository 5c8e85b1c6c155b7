import RdmaRpc.Lib.Mask
import RdmaRpc.Lib.Outcome
import Mathlib.Data.List.TakeWhile

/-!
# App — Stop

`kv_app_start` and `kv_app_stop`.  The mask `running_thread` is the set of the threads that have not
stopped, and zero says that the application has been stopped; an error of one thread clears it while
the others run.  What the application is stopped with is a function of the calls so far
(`stopCode`), and `spdk_app_stop` is called as often as that function has a value (`kvAppStop_once`).

A call of `kv_app_stop` is one step: the part that uses `g_app` holds `g_lock`, and the poller it
unregisters before is the caller's own.  The threads are those of the reactors after
`spdk_for_each_thread` has run `thread_init` on each.
-/

namespace RdmaRpc
open Lib

/-- `MAX_TASKS_NUM` -/
def maxTasksNum : Nat := 63

/-- What aborts the process. -/
inductive StopFault where
  /-- `assert(task_num >= 1 && task_num < MAX_TASKS_NUM)` -/
  | assertTaskNum
  /-- `assert(app_thread)` -/
  | assertAppThread
deriving DecidableEq, Repr

/-- `struct kv_app_t` -/
structure KvAppT where
  taskNum : Nat
  runningThread : BitVec 64
deriving DecidableEq, Repr

/-- `struct thread_data`: whether the poller is registered, and whether the thread has exited. -/
structure ThreadData where
  index : Nat
  poller : Bool
  exited : Bool
deriving DecidableEq, Repr

/-- `g_app`, `g_threads`, and the arguments of the calls of `spdk_app_stop`. -/
structure AppRun where
  gApp : KvAppT
  gThreads : List ThreadData
  stops : List Int
deriving DecidableEq, Repr

namespace AppRun

/-! ### The functions -/

def threadInit (index : Nat) : ThreadData := ⟨index, true, false⟩

/-- `kv_app_start`, to the reactors running -/
def kvAppStart (taskNum : Nat) : Outcome StopFault AppRun := do
  Outcome.check (1 ≤ taskNum ∧ taskNum < maxTasksNum) .assertTaskNum
  return {
    gApp := ⟨taskNum, (1#64 <<< taskNum) - 1#64⟩
    gThreads := (List.range taskNum).map threadInit
    stops := [] }

/-- `kv_app_get_thread_index` on thread `t` -/
def kvAppGetThreadIndex (s : AppRun) (t : Nat) : Outcome StopFault Nat := do
  let appThread ← Outcome.deref .assertAppThread s.gThreads[t]?
  return appThread.index

def spdkAppStop (s : AppRun) (rc : Int) : AppRun := { s with stops := s.stops ++ [rc] }

def spdkPollerUnregister (s : AppRun) (index : Nat) : AppRun :=
  { s with gThreads := s.gThreads.modify index fun d => { d with poller := false } }

def spdkThreadExit (s : AppRun) (index : Nat) : AppRun :=
  { s with gThreads := s.gThreads.modify index fun d => { d with exited := true } }

def setRunningThread (s : AppRun) (m : BitVec 64) : AppRun :=
  { s with gApp := { s.gApp with runningThread := m } }

/-- `kv_app_stop` on thread `t` -/
def kvAppStop (s : AppRun) (t : Nat) (rc : Int) : Outcome StopFault AppRun := do
  let index ← kvAppGetThreadIndex s t
  let s := s.spdkPollerUnregister index
  if s.gApp.runningThread ≠ 0 then
    if rc ≠ 0 then
      return (s.spdkAppStop rc).setRunningThread 0
    else
      let s := s.setRunningThread (s.gApp.runningThread &&& ~~~(1#64 <<< index))
      let s := s.spdkThreadExit index
      if s.gApp.runningThread = 0 then
        return s.spdkAppStop rc
      else
        return s
  else
    return s

/-- A call: the thread and `rc`. -/
def step (s : AppRun) (c : Nat × Int) : Outcome StopFault AppRun := kvAppStop s c.1 c.2

/-! ### What the calls say -/

/-- What the application is stopped with: `0` when the threads have all stopped before an error, else
the error; nothing when there is neither. -/
def stopCode (n : Nat) (calls : List (Nat × Int)) : Option Int :=
  if ∀ i < n, (i, 0) ∈ calls.takeWhile (·.2 = 0) then some 0
  else (calls.find? (·.2 ≠ 0)).map Prod.snd

/-- The application has been stopped once at most, as the calls say. -/
structure StopsOnce (n : Nat) (calls : List (Nat × Int)) (s : AppRun) : Prop where
  mask : s.stops = [] →
    ∀ i, i ∈ bits s.gApp.runningThread ↔ i < n ∧ ∀ rc, (i, rc) ∉ calls
  once : s.stops.length ≤ 1
  stopped : s.stops ≠ [] ↔ (∃ c ∈ calls, c.2 ≠ 0) ∨ ∀ i < n, (i, 0) ∈ calls
  code : s.stops = (stopCode n calls).toList
  after : s.stops ≠ [] → ∀ more s', run step s more = .ok s' →
    s'.gApp = s.gApp ∧ s'.stops = s.stops

section
variable {n : Nat} {calls : List (Nat × Int)} {c : Nat × Int}

theorem takeWhile_of_forall (h : ∀ c ∈ calls, c.2 = 0) : calls.takeWhile (·.2 = 0) = calls :=
  List.takeWhile_eq_self_iff.mpr fun c hc => decide_eq_true (h c hc)

theorem stopCode_eq_none :
    stopCode n calls = none ↔ (∀ c ∈ calls, c.2 = 0) ∧ ¬ ∀ i < n, (i, 0) ∈ calls := by
  have hfind : (calls.find? (·.2 ≠ 0)).map Prod.snd = none ↔ ∀ c ∈ calls, c.2 = 0 := by
    rw [Option.map_eq_none_iff, List.find?_eq_none]
    simp
  unfold stopCode
  constructor
  · intro h
    split at h
    · cases h
    · next hall =>
        have hz := hfind.mp h
        rw [takeWhile_of_forall hz] at hall
        exact ⟨hz, hall⟩
  · rintro ⟨hz, hall⟩
    rw [takeWhile_of_forall hz, if_neg hall]
    exact hfind.mpr hz

/-- What the application is stopped with does not change. -/
theorem stopCode_snoc_of_some {rc : Int} (h : stopCode n calls = some rc) :
    stopCode n (calls ++ [c]) = some rc := by
  unfold stopCode at h ⊢
  split at h
  · next hall =>
      rw [if_pos fun i hi => ?_]
      · exact h
      · have hmem := hall i hi
        rw [List.takeWhile_append]
        split
        · exact List.mem_append_left _ (List.takeWhile_subset _ hmem)
        · exact hmem
  · next hall =>
      obtain ⟨e, he, rfl⟩ := Option.map_eq_some_iff.mp h
      -- the error is in the way of the calls after it
      have hlen : (calls.takeWhile (·.2 = 0)).length ≠ calls.length := by
        intro hlen
        have hself := (List.takeWhile_prefix fun c : Nat × Int => c.2 = 0).eq_of_length hlen
        have hz := List.takeWhile_eq_self_iff.mp hself e (List.mem_of_find?_eq_some he)
        have hne := List.find?_some (p := fun c : Nat × Int => c.2 ≠ 0) he
        exact of_decide_eq_true hne (of_decide_eq_true hz)
      rw [List.takeWhile_append, if_neg hlen, if_neg hall, List.find?_append, he]
      rfl

/-- The first call that stops the application says with what. -/
theorem stopCode_snoc_of_none (h : stopCode n calls = none) :
    stopCode n (calls ++ [c]) =
      if c.2 ≠ 0 then some c.2 else if ∀ i < n, (i, 0) ∈ calls ++ [c] then some 0 else none := by
  obtain ⟨hz, hall⟩ := stopCode_eq_none.mp h
  have hfind : calls.find? (·.2 ≠ 0) = none := by
    rw [List.find?_eq_none]
    intro c hc
    simp [hz c hc]
  unfold stopCode
  rw [List.takeWhile_append_of_pos fun c hc => decide_eq_true (hz c hc), List.find?_append, hfind]
  by_cases hc : c.2 = 0
  · simp [hc]
  · simp [hc, hall]

/-! ### Runs -/

/-- The mask is the threads that have not stopped, and zero once the application has been. -/
structure Counts (n : Nat) (calls : List (Nat × Int)) (s : AppRun) : Prop where
  index : s.gThreads.map ThreadData.index = List.range n
  code : s.stops = (stopCode n calls).toList
  mask : stopCode n calls = none →
    ∀ i, i ∈ bits s.gApp.runningThread ↔ i < n ∧ (i, 0) ∉ calls
  zero : stopCode n calls ≠ none → s.gApp.runningThread = 0

variable {s s' s₀ : AppRun} {t : Nat}

theorem counts_init (h : kvAppStart n = .ok s₀) : Counts n [] s₀ := by
  simp only [kvAppStart, Outcome.bind_eq_ok, Outcome.check_eq_ok, Outcome.pure_eq,
    Outcome.ok.injEq] at h
  obtain ⟨-, ⟨hpos, hmax⟩, rfl⟩ := h
  have hnone : stopCode n [] = none :=
    stopCode_eq_none.mpr ⟨fun c hc => (by cases hc), fun hall => (by cases hall 0 hpos)⟩
  refine ⟨?_, by rw [hnone]; rfl, fun _ i => ?_, fun h => absurd hnone h⟩
  · rw [List.map_map]
    exact List.map_id _
  · have hlt : n < 64 := Nat.lt_succ_of_lt hmax
    rw [bits_low hlt]
    simp

/-- The mask is zero just when the application has been stopped. -/
theorem Counts.eq_zero_iff (hs : Counts n calls s) :
    s.gApp.runningThread = 0 ↔ stopCode n calls ≠ none := by
  refine ⟨fun hz hnone => ?_, hs.zero⟩
  refine (stopCode_eq_none.mp hnone).2 fun i hi => ?_
  by_contra hmem
  have hbit := (hs.mask hnone i).mpr ⟨hi, hmem⟩
  rw [hz] at hbit
  exact Set.eq_empty_iff_forall_notMem.mp (bits_eq_empty.mpr rfl) i hbit

theorem map_index_modify {l : List ThreadData} {f : ThreadData → ThreadData} {i : Nat}
    (hf : ∀ d, (f d).index = d.index) :
    (l.modify i f).map ThreadData.index = l.map ThreadData.index := by
  refine List.ext_getElem (by simp) fun j h₁ h₂ => ?_
  simp only [List.getElem_map, List.getElem_modify]
  split
  · exact hf _
  · rfl

theorem Counts.getIndex (hs : Counts n calls s) (ht : t < n) : s.kvAppGetThreadIndex t = .ok t := by
  have hmap : (s.gThreads.map ThreadData.index)[t]? = some t := by
    rw [hs.index, List.getElem?_range ht]
  rw [List.getElem?_map] at hmap
  obtain ⟨d, hd, hi⟩ := Option.map_eq_some_iff.mp hmap
  simp [kvAppGetThreadIndex, hd, hi, Outcome.deref]

/-- What a call does to the mask, and whether it stops the application. -/
theorem kvAppStop_cases (rc : Int) (h : s.kvAppGetThreadIndex t = .ok t) :
    ∃ s', kvAppStop s t rc = .ok s' ∧
      s'.gThreads.map ThreadData.index = s.gThreads.map ThreadData.index ∧
      (s.gApp.runningThread = 0 ∧ s'.gApp = s.gApp ∧ s'.stops = s.stops ∨
        s.gApp.runningThread ≠ 0 ∧ rc ≠ 0 ∧ s'.gApp.runningThread = 0 ∧ s'.stops = s.stops ++ [rc] ∨
        s.gApp.runningThread ≠ 0 ∧ rc = 0 ∧
          s'.gApp.runningThread = s.gApp.runningThread &&& ~~~(1#64 <<< t) ∧
          s'.stops = if s'.gApp.runningThread = 0 then s.stops ++ [0] else s.stops) := by
  have hpoller : (s.spdkPollerUnregister t).gThreads.map ThreadData.index =
      s.gThreads.map ThreadData.index := map_index_modify fun _ => rfl
  have hexit : ∀ s : AppRun, (s.spdkThreadExit t).gThreads.map ThreadData.index =
      s.gThreads.map ThreadData.index := fun _ => map_index_modify fun _ => rfl
  simp only [kvAppStop, h, Outcome.ok_bind]
  by_cases hz : s.gApp.runningThread = 0
  · exact ⟨_, if_neg (not_not_intro hz), hpoller, .inl ⟨hz, rfl, rfl⟩⟩
  · rw [if_pos (show (s.spdkPollerUnregister t).gApp.runningThread ≠ 0 from hz)]
    by_cases hrc : rc = 0
    · rw [if_neg (not_not_intro hrc)]
      split
      · next hz' =>
          refine ⟨_, rfl, (hexit _).trans hpoller, .inr (.inr ⟨hz, hrc, rfl, ?_⟩)⟩
          rw [← hrc]
          exact (if_pos hz').symm
      · next hz' =>
          exact ⟨_, rfl, (hexit _).trans hpoller, .inr (.inr ⟨hz, hrc, rfl, (if_neg hz').symm⟩)⟩
    · rw [if_pos hrc]
      exact ⟨_, rfl, hpoller, .inr (.inl ⟨hz, hrc, rfl, rfl⟩)⟩

theorem Counts.code_none (hs : Counts n calls s) (hz : s.gApp.runningThread ≠ 0) :
    stopCode n calls = none := by
  by_contra hne
  exact hz (hs.eq_zero_iff.mpr hne)

/-- A call after the application has been stopped. -/
theorem Counts.stopped (hs : Counts n calls s) (hindex : s'.gThreads.map ThreadData.index = List.range n)
    (hz : s.gApp.runningThread = 0) (hgApp : s'.gApp = s.gApp) (hstops : s'.stops = s.stops) :
    Counts n (calls ++ [c]) s' := by
  obtain ⟨rc, hcode⟩ := Option.ne_none_iff_exists'.mp (hs.eq_zero_iff.mp hz)
  have hcode' := stopCode_snoc_of_some (c := c) hcode
  refine ⟨hindex, ?_, fun hnone => ?_, fun _ => hgApp ▸ hz⟩
  · rw [hstops, hs.code, hcode, hcode']
  · rw [hcode'] at hnone
    cases hnone

/-- The first error. -/
theorem Counts.error (hs : Counts n calls s) (hindex : s'.gThreads.map ThreadData.index = List.range n)
    (hz : s.gApp.runningThread ≠ 0) (hrc : c.2 ≠ 0) (hz' : s'.gApp.runningThread = 0)
    (hstops : s'.stops = s.stops ++ [c.2]) : Counts n (calls ++ [c]) s' := by
  have hnone := hs.code_none hz
  have hcode' : stopCode n (calls ++ [c]) = some c.2 := by
    rw [stopCode_snoc_of_none hnone, if_pos hrc]
  refine ⟨hindex, ?_, fun hnone' => ?_, fun _ => hz'⟩
  · rw [hstops, hs.code, hnone, hcode']
    rfl
  · rw [hcode'] at hnone'
    cases hnone'

/-- A thread stops, and with the last of them the application. -/
theorem Counts.leave (hs : Counts n calls s) (hindex : s'.gThreads.map ThreadData.index = List.range n)
    (hz : s.gApp.runningThread ≠ 0) (hrc : c.2 = 0)
    (hm : s'.gApp.runningThread = s.gApp.runningThread &&& ~~~(1#64 <<< c.1))
    (hstops : s'.stops = if s'.gApp.runningThread = 0 then s.stops ++ [0] else s.stops) :
    Counts n (calls ++ [c]) s' := by
  have hnone := hs.code_none hz
  have hmask : ∀ i, i ∈ bits s'.gApp.runningThread ↔ i < n ∧ (i, 0) ∉ calls ++ [c] := by
    intro i
    have hc : (i, 0) = c ↔ i = c.1 := by rw [Prod.ext_iff, hrc]; simp
    rw [hm, bits_clear, Set.mem_sdiff, hs.mask hnone, Set.mem_singleton_iff, List.mem_append,
      List.mem_singleton, hc, not_or, and_assoc]
  have hall : s'.gApp.runningThread = 0 ↔ ∀ i < n, (i, 0) ∈ calls ++ [c] := by
    refine bits_eq_empty.symm.trans ?_
    simp only [Set.eq_empty_iff_forall_notMem, hmask, not_and, not_not]
  have hcode' : stopCode n (calls ++ [c]) = if s'.gApp.runningThread = 0 then some 0 else none := by
    rw [stopCode_snoc_of_none hnone, if_neg (not_not_intro hrc)]
    simp only [hall]
  refine ⟨hindex, ?_, fun _ => hmask, fun hne => ?_⟩
  · rw [hstops, hs.code, hnone, hcode']
    split <;> rfl
  · by_contra hz'
    rw [hcode', if_neg hz'] at hne
    exact hne rfl

/-- **A call** of a thread of the application. -/
theorem counts_step (hs : Counts n calls s) (ht : c.1 < n) :
    ∃ s', step s c = .ok s' ∧ Counts n (calls ++ [c]) s' := by
  obtain ⟨s', h, hindex, hcase⟩ := kvAppStop_cases c.2 (hs.getIndex ht)
  rw [hs.index] at hindex
  refine ⟨s', h, ?_⟩
  rcases hcase with ⟨hz, hgApp, hstops⟩ | ⟨hz, hrc, hz', hstops⟩ | ⟨hz, hrc, hm, hstops⟩
  · exact hs.stopped hindex hz hgApp hstops
  · exact hs.error hindex hz hrc hz' hstops
  · exact hs.leave hindex hz hrc hm hstops

/-- Every run of calls of the threads of the application. -/
theorem counts_run {more : List (Nat × Int)} (hs : Counts n calls s) (ht : ∀ c ∈ more, c.1 < n) :
    ∃ s', run step s more = .ok s' ∧ Counts n (calls ++ more) s' := by
  induction more generalizing calls s with
  | nil => exact ⟨s, rfl, by rwa [List.append_nil]⟩
  | cons c more ih =>
      obtain ⟨s₁, h₁, hs₁⟩ := counts_step hs (ht c List.mem_cons_self)
      obtain ⟨s', h, hs'⟩ := ih hs₁ fun c hc => ht c (List.mem_cons_of_mem _ hc)
      refine ⟨s', ?_, ?_⟩
      · rw [run_cons, h₁]
        exact h
      · rwa [List.append_assoc] at hs'

/-- Once the mask is zero, a call changes nothing of `g_app`. -/
theorem frozen_step (hz : s.gApp.runningThread = 0) (h : step s c = .ok s') :
    s'.gApp = s.gApp ∧ s'.stops = s.stops := by
  obtain ⟨i, -, h⟩ := Outcome.bind_eq_ok.mp h
  rw [if_neg (not_not_intro (show (s.spdkPollerUnregister i).gApp.runningThread = 0 from hz))] at h
  cases h
  exact ⟨rfl, rfl⟩

/-- **Stopping.**  The application is stopped once, when the calls say, and with what they say. -/
theorem kvAppStop_once (h₀ : kvAppStart n = .ok s₀) (ht : ∀ c ∈ calls, c.1 < n) :
    ∃ s, run step s₀ calls = .ok s ∧ StopsOnce n calls s := by
  obtain ⟨s, h, hs⟩ := counts_run (counts_init h₀) ht
  rw [List.nil_append] at hs
  have hstopped : s.stops ≠ [] ↔ stopCode n calls ≠ none := by
    rw [hs.code]
    cases stopCode n calls <;> simp
  refine ⟨s, h, fun hnil i => ?_, ?_, ?_, hs.code, fun hne more s' hr => ?_⟩
  · have hnone : stopCode n calls = none := by
      by_contra hne
      exact hstopped.mpr hne hnil
    have hz := (stopCode_eq_none.mp hnone).1
    rw [hs.mask hnone]
    refine and_congr_right fun _ => ⟨fun hmem rc hrc => hmem ?_, fun hmem => hmem 0⟩
    rwa [← hz _ hrc]
  · rw [hs.code]
    cases stopCode n calls <;> simp
  · rw [hstopped, Ne, stopCode_eq_none, not_and_or, not_not]
    simp
  · have hz := hs.zero (hstopped.mp hne)
    refine run_invariant (P := fun s' => s'.gApp = s.gApp ∧ s'.stops = s.stops)
      (fun s₁ c s₂ h₁ h₂ => ?_) ⟨rfl, rfl⟩ hr
    obtain ⟨hgApp, hstops⟩ := frozen_step (by rw [h₁.1, hz]) h₂
    exact ⟨hgApp.trans h₁.1, hstops.trans h₁.2⟩

/-- One thread stops, the other fails, and stops then. -/
theorem kvAppStop_once_error : ∃ s₀ s, kvAppStart 2 = .ok s₀ ∧
    run step s₀ [(1, 0), (0, 5), (0, 0)] = .ok s ∧ StopsOnce 2 [(1, 0), (0, 5), (0, 0)] s ∧
      s.stops = [5] := by
  have h₀ : kvAppStart 2 = .ok _ := rfl
  have ht : ∀ c ∈ [(1, 0), (0, 5), ((0 : Nat), (0 : Int))], c.1 < 2 := by decide
  obtain ⟨s, h, hs⟩ := kvAppStop_once h₀ ht
  exact ⟨_, s, h₀, h, hs, hs.code⟩

end

end AppRun

end RdmaRpc
