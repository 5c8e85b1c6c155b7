import Mathlib.Data.List.Perm.Subperm

/-!
# Lib — Keyed

A family of queues, one for each key, kept in one list in the order of arrival.  An entry is
added at the end; `pop k` takes the oldest entry of key `k` and leaves the entries of the other
keys in place.  `queue k` is the queue of key `k`.

The one list is what conservation arguments count (`pop_perm`), and the queues are what
ordering arguments read (`queue_of_pop`).
-/

namespace RdmaRpc.Lib.Keyed

variable {κ α : Type} [DecidableEq κ]

/-- The oldest entry of key `k`, and what is left. -/
def pop (k : κ) : List (κ × α) → Option (α × List (κ × α))
  | [] => none
  | (k', a) :: l => if k' = k then some (a, l) else (pop k l).map fun p => (p.1, (k', a) :: p.2)

/-- The queue of key `k`, oldest first. -/
def queue (k : κ) : List (κ × α) → List α
  | [] => []
  | (k', a) :: l => if k' = k then a :: queue k l else queue k l

@[simp] theorem queue_nil {k : κ} : queue k ([] : List (κ × α)) = [] := rfl

theorem queue_cons {k : κ} {p : κ × α} {l : List (κ × α)} :
    queue k (p :: l) = if p.1 = k then p.2 :: queue k l else queue k l := rfl

theorem pop_cons {k : κ} {p : κ × α} {l : List (κ × α)} :
    pop k (p :: l) = if p.1 = k then some (p.2, l) else (pop k l).map fun r => (r.1, p :: r.2) := rfl

/-- Taking an entry out of any place of a list. -/
theorem perm_pick {a : α} {l : List α} {i : Nat} (h : l[i]? = some a) :
    l.Perm (a :: l.eraseIdx i) := by
  obtain ⟨hi, rfl⟩ := List.getElem?_eq_some_iff.mp h
  exact (List.getElem_cons_eraseIdx_perm hi).symm

variable {k k' : κ} {a b : α} {l l' : List (κ × α)}

theorem pop_cons_eq_some :
    pop k ((k', b) :: l) = some (a, l') ↔
      (k' = k ∧ b = a ∧ l = l') ∨
        (k' ≠ k ∧ ∃ l₁, pop k l = some (a, l₁) ∧ l' = (k', b) :: l₁) := by
  rw [pop_cons]
  by_cases hk : k' = k
  · simp [hk]
  · simp only [hk, if_false, Option.map_eq_some_iff, Prod.mk.injEq, Prod.exists, false_and,
      false_or, ne_eq, not_false_eq_true, true_and]
    constructor
    · rintro ⟨a', l₁, h, rfl, rfl⟩
      exact ⟨l₁, h, rfl⟩
    · rintro ⟨l₁, h, rfl⟩
      exact ⟨a, l₁, h, rfl, rfl⟩

/-- Popping takes one entry out and loses nothing. -/
theorem pop_perm (h : pop k l = some (a, l')) : l.Perm ((k, a) :: l') := by
  induction l generalizing l' with
  | nil => cases h
  | cons p l ih =>
      rcases pop_cons_eq_some.mp h with ⟨rfl, rfl, rfl⟩ | ⟨-, l₁, h₁, rfl⟩
      · exact .refl _
      · exact ((ih h₁).cons p).trans (.swap _ _ _)

theorem mem_of_pop (h : pop k l = some (a, l')) : (k, a) ∈ l :=
  (pop_perm h).mem_iff.mpr List.mem_cons_self

theorem pop_sublist (h : pop k l = some (a, l')) : l'.Sublist l := by
  induction l generalizing l' with
  | nil => cases h
  | cons p l ih =>
      rcases pop_cons_eq_some.mp h with ⟨rfl, rfl, rfl⟩ | ⟨-, l₁, h₁, rfl⟩
      · exact List.sublist_cons_self _ _
      · exact (ih h₁).cons_cons p

theorem queue_of_pop (h : pop k l = some (a, l')) : queue k l = a :: queue k l' := by
  induction l generalizing l' with
  | nil => cases h
  | cons p l ih =>
      rcases pop_cons_eq_some.mp h with ⟨rfl, rfl, rfl⟩ | ⟨hne, l₁, h₁, rfl⟩
      · simp [queue_cons]
      · simp [queue_cons, hne, ih h₁]

theorem queue_of_pop_ne (h : pop k l = some (a, l')) (hne : k' ≠ k) : queue k' l' = queue k' l := by
  induction l generalizing l' with
  | nil => cases h
  | cons p l ih =>
      rcases pop_cons_eq_some.mp h with ⟨rfl, rfl, rfl⟩ | ⟨-, l₁, h₁, rfl⟩
      · simp [queue_cons, hne.symm]
      · simp [queue_cons, ih h₁]

@[simp] theorem queue_append : queue k (l ++ l') = queue k l ++ queue k l' := by
  induction l with
  | nil => rfl
  | cons p l ih => simp only [List.cons_append, queue_cons, ih]; split <;> simp

@[simp] theorem queue_singleton_self : queue k [(k, a)] = [a] := by simp [queue_cons]

theorem queue_singleton_ne (h : k' ≠ k) : queue k [(k', a)] = [] := by simp [queue_cons, h]

/-- Queues within queues are queues with a pair for key. -/
theorem queue_queue_singleton {ι : Type} [DecidableEq ι] {i i' : ι} :
    queue i (queue k [(k', (i', a))]) = queue (k, i) [((k', i'), a)] := by
  by_cases hk : k' = k <;> simp [queue_cons, hk]

theorem mem_queue : a ∈ queue k l ↔ (k, a) ∈ l := by
  induction l with
  | nil => simp
  | cons p l ih => simp only [queue_cons, List.mem_cons, Prod.ext_iff]; split <;> simp_all [eq_comm]

theorem queue_eq_nil : queue k l = [] ↔ ∀ p ∈ l, p.1 ≠ k := by
  induction l with
  | nil => simp
  | cons p l ih => simp only [queue_cons]; split <;> simp_all

/-- The entries of key `k` among the entries. -/
theorem queue_eq_map_filter : queue k l = (l.filter (·.1 = k)).map Prod.snd := by
  induction l with
  | nil => rfl
  | cons p l ih => simp only [queue_cons, List.filter_cons]; split <;> simp_all

theorem count_queue [DecidableEq α] : (queue k l).count a = l.count (k, a) := by
  induction l with
  | nil => rfl
  | cons p l ih =>
      obtain ⟨k', b⟩ := p
      by_cases hk : k' = k <;> simp [queue_cons, List.count_cons, ih, hk]

/-- What has no more on each queue has no more in all. -/
theorem subperm_of_queue [DecidableEq α] (h : ∀ k, (queue k l).Subperm (queue k l')) :
    l.Subperm l' :=
  List.subperm_ext_iff.mpr fun p _ => by
    rw [← count_queue, ← count_queue]
    exact (h p.1).count_le p.2

end RdmaRpc.Lib.Keyed
