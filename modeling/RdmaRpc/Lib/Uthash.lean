import RdmaRpc.Lib.Outcome

/-!
# Lib — Uthash

The hash table of `uthash.h`, whose elements point to their keys.  The header is a package of its own,
so the table is given by what its macros are documented to do (`Uthash`): an element is added under the
key its pointer then leads to, found by a key, and deleted by itself.

A search reads the keys through the pointers, and is exact as long as each of them still leads to the
key its element was added under (`Uthash.find_exact`).  The chain of elements that is searched hash by
hash is such a table (`Uthash.chained`).
-/

namespace RdmaRpc.Lib

/-- An element: the key it was added under, the pointer to the key, and the item. -/
structure Uthash.Element (κ π α : Type) where
  added : κ
  key : π
  item : α
deriving DecidableEq

/-- A table of elements with keys `κ`, pointers to them `π`, and items `α`. -/
structure Uthash (κ π α : Type) [DecidableEq α] where
  Table : Type
  empty : Table
  /-- `HASH_ADD`, for the key that the pointer leads to -/
  add : κ → π → α → Table → Table
  /-- `HASH_DELETE` -/
  delete : α → Table → Table
  /-- `HASH_FIND`, which reads keys through their pointers -/
  find : {φ : Type} → (π → Outcome φ κ) → κ → Table → Outcome φ (Option α)
  /-- `HASH_CNT` -/
  count : Table → Nat
  elems : Table → List (Uthash.Element κ π α)
  elems_empty : elems empty = []
  elems_add : ∀ k p a t, (elems (add k p a t)).Perm (⟨k, p, a⟩ :: elems t)
  /-- What is deleted has to be in the table. -/
  elems_delete : ∀ a t, a ∈ (elems t).map Uthash.Element.item →
    ((elems t).map Uthash.Element.item).Nodup →
    (elems (delete a t)).Perm ((elems t).filter (·.item ≠ a))
  /-- A search is exact, if every key is what it was and in no other element. -/
  find_exact : ∀ {φ : Type} (read : π → Outcome φ κ) k t,
    (∀ e ∈ elems t, read e.key = .ok e.added) → ((elems t).map Uthash.Element.added).Nodup →
    ∃ r, find read k t = .ok r ∧ ∀ a, r = some a ↔ ∃ e ∈ elems t, e.added = k ∧ e.item = a
  count_eq : ∀ t, count t = (elems t).length

namespace Uthash

variable {κ π α φ : Type}

/-! ### The items -/

section
variable [DecidableEq α] {T : Uthash κ π α} {t : T.Table} {k : κ} {p : π} {a b : α}

def items (T : Uthash κ π α) (t : T.Table) : List α := (T.elems t).map Element.item

@[simp] theorem items_empty : T.items T.empty = [] := by
  rw [items, T.elems_empty, List.map_nil]

theorem items_add : (T.items (T.add k p a t)).Perm (a :: T.items t) :=
  (T.elems_add k p a t).map Element.item

@[simp] theorem mem_items_add : b ∈ T.items (T.add k p a t) ↔ b = a ∨ b ∈ T.items t := by
  rw [items_add.mem_iff, List.mem_cons]

theorem items_delete (ha : a ∈ T.items t) (hnd : (T.items t).Nodup) :
    (T.items (T.delete a t)).Perm ((T.items t).filter (· ≠ a)) := by
  have h := (T.elems_delete a t ha hnd).map Element.item
  rwa [show (fun e : Element κ π α => decide (e.item ≠ a)) = (decide <| · ≠ a) ∘ Element.item from rfl,
    ← List.filter_map] at h

theorem mem_items_delete (ha : a ∈ T.items t) (hnd : (T.items t).Nodup) :
    b ∈ T.items (T.delete a t) ↔ b ∈ T.items t ∧ b ≠ a := by
  rw [(items_delete ha hnd).mem_iff, List.mem_filter, decide_eq_true_iff]

theorem nodup_items_delete (ha : a ∈ T.items t) (hnd : (T.items t).Nodup) :
    (T.items (T.delete a t)).Nodup :=
  (items_delete ha hnd).nodup_iff.mpr (hnd.filter _)

theorem length_items : (T.items t).length = T.count t := by
  rw [items, List.length_map, T.count_eq]

end

/-! ### A chain -/

variable [DecidableEq κ]

/-- Only the keys of elements with the right hash are read. -/
def search (hash : κ → Nat) (read : π → Outcome φ κ) (k : κ) :
    List (Element κ π α) → Outcome φ (Option α)
  | [] => .ok none
  | e :: t =>
    if hash e.added = hash k then do
      let k' ← read e.key
      if k' = k then return some e.item else search hash read k t
    else search hash read k t

variable {hash : κ → Nat} {read : π → Outcome φ κ} {k : κ} {t : List (Element κ π α)}

/-- A chain whose keys are unchanged is searched as the list of its keys and items. -/
theorem search_eq_lookup (h : ∀ e ∈ t, read e.key = .ok e.added) :
    search hash read k t = .ok ((t.map fun e => (e.added, e.item)).lookup k) := by
  induction t with
  | nil => rfl
  | cons e t ih =>
      have hread := h e List.mem_cons_self
      have ih := ih fun e he => h e (List.mem_cons_of_mem _ he)
      rw [search, hread, Outcome.ok_bind, List.map_cons]
      by_cases hk : e.added = k
      · subst hk
        simp
      · have hne : k ≠ e.added := Ne.symm hk
        rw [if_neg hk, ih, ite_self, List.lookup_cons, beq_false_of_ne hne]

theorem lookup_eq_some_iff_mem {a : α} {l : List (κ × α)} (h : (l.map Prod.fst).Nodup) :
    l.lookup k = some a ↔ (k, a) ∈ l := by
  rw [List.lookup_eq_some_iff]
  constructor
  · rintro ⟨l₁, l₂, rfl, -⟩
    simp
  · intro hm
    obtain ⟨l₁, l₂, rfl⟩ := List.append_of_mem hm
    refine ⟨l₁, l₂, rfl, fun p hp => ?_⟩
    rw [List.map_append, List.map_cons, List.nodup_append] at h
    have hne : p.1 ≠ k := h.2.2 p.1 (List.mem_map_of_mem hp) k List.mem_cons_self
    simpa using hne.symm

theorem search_exact (h : ∀ e ∈ t, read e.key = .ok e.added) (hnd : (t.map Element.added).Nodup) :
    ∃ r, search hash read k t = .ok r ∧ ∀ a, r = some a ↔ ∃ e ∈ t, e.added = k ∧ e.item = a := by
  refine ⟨_, search_eq_lookup h, fun a => ?_⟩
  rw [lookup_eq_some_iff_mem (by simpa [Function.comp_def] using hnd)]
  simp

/-- **A chain of elements is a table.** -/
def chained [DecidableEq α] (hash : κ → Nat) : Uthash κ π α where
  Table := List (Element κ π α)
  empty := []
  add := fun k p a t => ⟨k, p, a⟩ :: t
  delete := fun a t => t.filter (·.item ≠ a)
  find := search hash
  count := List.length
  elems := id
  elems_empty := rfl
  elems_add := fun _ _ _ _ => .refl _
  elems_delete := fun _ _ _ _ => .refl _
  find_exact := fun _ _ _ => search_exact
  count_eq := fun _ => rfl

end Uthash

end RdmaRpc.Lib
