import RdmaRpc.Mempool
import RdmaRpc.Lib.Tiles

/-!
# Mempool — Conservation

A pool and the threads that use it.  The queue is a bag, from which a `kv_mempool_get` takes an element
unless there is none, so the calls of the threads are taken in any order, each whole.  A thread puts
back an element that was obtained and has not been put back, by it or by another thread.

Free and held elements are together the elements of the pool (`Shared`).  The elements are tiles of its
buffer, so the ranges of those held are disjoint.
-/

namespace RdmaRpc
open Lib

/-- A pool, and the elements obtained and not put back. -/
structure MempoolRun where
  mp : KvMempool
  held : List Nat
deriving DecidableEq, Repr

namespace MempoolRun

def init (buf count eleSize : Nat) : MempoolRun := ⟨kvMempoolCreate buf count eleSize, []⟩

/-- The calls of thread `t`; its tokens decide which free element is taken, which is `pick`. -/
inductive Event where
  | get (t : Thread) (pick : Nat)
  | put (t : Thread) (ele : Nat)
deriving DecidableEq, Repr

def step (s : MempoolRun) : Event → Outcome Empty MempoolRun
  | .get _ pick =>
    match kvMempoolGet s.mp pick with
    | some (ele, mp) => .ok ⟨mp, s.held ++ [ele]⟩
    | none => .ok s
  | .put _ ele => do
    Outcome.require (ele ∈ s.held)
    return ⟨kvMempoolPut s.mp ele, s.held.erase ele⟩

/-- The bytes of an element. -/
def eleRange (eleSize ele : Nat) : Set Nat := Set.Ico ele (ele + eleSize)

/-- The elements are the `count` addresses from `buf` on, each free or held, and once; the ids of those
held name them, as they are sent and as they come back. -/
structure Conserved (buf count eleSize : Nat) (s : MempoolRun) : Prop where
  elements : (s.mp.free ++ s.held).Perm ((List.range count).map fun i => buf + i * eleSize)
  nodup : (s.mp.free ++ s.held).Nodup
  null : ∀ pick, kvMempoolGet s.mp pick = none ↔ ∀ i < count, buf + i * eleSize ∈ s.held
  fresh : ∀ pick ele mp, kvMempoolGet s.mp pick = some (ele, mp) → ele ∉ s.held
  disjoint : ∀ e ∈ s.held, ∀ e' ∈ s.held, e ≠ e' →
    Disjoint (eleRange eleSize e) (eleRange eleSize e')
  ids : (s.held.map (kvMempoolGetId s.mp)).Nodup
  named : ∀ e ∈ s.held, kvMempoolGetEle s.mp (BitVec.ofInt 32 (kvMempoolGetId s.mp e)).toInt = e

section
variable {buf count eleSize : Nat} {s s' : MempoolRun} {e : Event} {tr : List Event}

/-- Free and held elements are those of the pool. -/
structure Shared (buf count eleSize : Nat) (s : MempoolRun) : Prop where
  buf : s.mp.buf = buf
  count : s.mp.count = count
  eleSize : s.mp.eleSize = eleSize
  elements : (s.mp.free ++ s.held).Perm s.mp.elements

theorem shared_init : Shared buf count eleSize (init buf count eleSize) := by
  have hmp : (init buf count eleSize).mp = _ := kvMempoolCreate_eq buf count eleSize
  refine ⟨by rw [hmp], by rw [hmp], by rw [hmp], ?_⟩
  rw [hmp]
  show (_ ++ []).Perm _
  rw [List.append_nil]
  exact .refl _

/-- A call gives out a free element, or takes one back. -/
theorem step_cases (h : step s e = .ok s') : s' = s ∨
    (∃ ele mp, s.mp.free.Perm (ele :: mp.free) ∧ mp.buf = s.mp.buf ∧ mp.count = s.mp.count ∧
      mp.eleSize = s.mp.eleSize ∧ s' = ⟨mp, s.held ++ [ele]⟩) ∨
    ∃ ele ∈ s.held, s' = ⟨kvMempoolPut s.mp ele, s.held.erase ele⟩ := by
  cases e with
  | get t pick =>
      simp only [step] at h
      split at h
      · next ele mp hget =>
          cases h
          obtain ⟨hperm, hbuf, hcount, hsize⟩ := kvMempoolGet_eq_some hget
          exact .inr (.inl ⟨ele, mp, hperm, hbuf, hcount, hsize, rfl⟩)
      · cases h
        exact .inl rfl
  | put t ele =>
      simp only [step, Outcome.bind_eq_ok, Outcome.require_eq_ok, Outcome.pure_eq,
        Outcome.ok.injEq] at h
      obtain ⟨-, hmem, rfl⟩ := h
      exact .inr (.inr ⟨ele, hmem, rfl⟩)

theorem shared_step (hs : Shared buf count eleSize s) (h : step s e = .ok s') :
    Shared buf count eleSize s' := by
  rcases step_cases h with rfl | ⟨ele, mp, hperm, hbuf, hcount, hsize, rfl⟩ | ⟨ele, hmem, rfl⟩
  · exact hs
  · refine ⟨hbuf.trans hs.buf, hcount.trans hs.count, hsize.trans hs.eleSize, ?_⟩
    have hsame : mp.elements = s.mp.elements := by
      rw [KvMempool.elements, hbuf, hcount, hsize]
      rfl
    have hout : (mp.free ++ (s.held ++ [ele])).Perm (ele :: mp.free ++ s.held) := by
      rw [← List.append_assoc]
      exact List.perm_append_singleton _ _
    rw [hsame]
    exact (hout.trans (hperm.symm.append_right _)).trans hs.elements
  · refine ⟨hs.buf, hs.count, hs.eleSize, ?_⟩
    have hback : (ele :: s.held.erase ele).Perm s.held := (List.perm_cons_erase hmem).symm
    have hout : ((s.mp.free ++ [ele]) ++ s.held.erase ele).Perm (s.mp.free ++ s.held) := by
      rw [List.append_assoc]
      exact hback.append_left _
    exact hout.trans hs.elements

theorem shared_run (h : run step (init buf count eleSize) tr = .ok s) :
    Shared buf count eleSize s :=
  run_invariant (P := Shared buf count eleSize) (fun _ _ _ => shared_step) shared_init h

theorem disjoint_eleRange {mp : KvMempool} {e e' : Nat} (he : e ∈ mp.elements)
    (he' : e' ∈ mp.elements) (hne : e ≠ e') :
    Disjoint (eleRange mp.eleSize e) (eleRange mp.eleSize e') := by
  obtain ⟨i, -, rfl⟩ := mem_elements.mp he
  obtain ⟨j, -, rfl⟩ := mem_elements.mp he'
  rw [eleRange, eleRange, ← tile_eq, ← tile_eq]
  exact disjoint_tile fun hij => hne (by rw [hij])

/-- **Conservation.** -/
theorem conserved_run (hpos : 0 < eleSize) (hsize : count * eleSize ≤ 2 ^ 31)
    (h : run step (init buf count eleSize) tr = .ok s) : Conserved buf count eleSize s := by
  have hs := shared_run h
  have helements : s.mp.elements = (List.range count).map fun i => buf + i * eleSize := by
    rw [KvMempool.elements, hs.buf, hs.count, hs.eleSize]
  have hnd : (s.mp.free ++ s.held).Nodup :=
    hs.elements.nodup_iff.mpr (nodup_elements s.mp (hs.eleSize ▸ hpos))
  obtain ⟨-, hheld, hdisj⟩ := List.nodup_append.mp hnd
  have hin : ∀ e ∈ s.held, e ∈ s.mp.elements :=
    fun e he => hs.elements.subset (List.mem_append_right _ he)
  refine ⟨helements ▸ hs.elements, hnd, fun pick => ?_, fun pick ele mp hget hele => ?_,
    fun e he e' he' hne => ?_, ?_, fun e he => ?_⟩
  · rw [kvMempoolGet_eq_none]
    constructor
    · intro hfree i hi
      have hmem : buf + i * eleSize ∈ s.mp.free ++ s.held :=
        hs.elements.mem_iff.mpr (helements ▸ List.mem_map_of_mem (List.mem_range.mpr hi))
      rwa [hfree, List.nil_append] at hmem
    · -- a free element would be held as well
      intro hall
      refine List.eq_nil_iff_forall_not_mem.mpr fun x hx => ?_
      have hmem := hs.elements.subset (List.mem_append_left _ hx)
      rw [helements] at hmem
      obtain ⟨i, hi, rfl⟩ := List.mem_map.mp hmem
      exact hdisj _ hx _ (hall i (List.mem_range.mp hi)) rfl
  · have hfree := (kvMempoolGet_eq_some hget).1.mem_iff.mpr List.mem_cons_self
    exact hdisj ele hfree ele hele rfl
  · rw [← hs.eleSize]
    exact disjoint_eleRange (hin e he) (hin e' he') hne
  · refine hheld.map fun e e' hid => ?_
    simp only [kvMempoolGetId] at hid
    omega
  · exact kvMempoolGetEle_imm (by rw [hs.count, hs.eleSize]; exact hsize) (hs.eleSize ▸ hpos) (hin e he)

end

/-- Two threads take the two elements of a pool, and one puts back what the other took. -/
theorem conserved_two : ∃ s,
    run step (init 4096 2 40) [.get 0 0, .get 1 0, .get 0 0, .put 1 4096] = .ok s ∧
      s = ⟨⟨4096, 2, 40, [4096]⟩, [4136]⟩ ∧ Conserved 4096 2 40 s := by
  have h : run step (init 4096 2 40) [.get 0 0, .get 1 0, .get 0 0, .put 1 4096] =
      .ok ⟨⟨4096, 2, 40, [4096]⟩, [4136]⟩ := by
    rw [init, kvMempoolCreate_eq]
    rfl
  exact ⟨_, h, rfl, conserved_run (by decide) (by decide) h⟩

end MempoolRun

end RdmaRpc
