import RdmaRpc.Lib.Bytes
import Mathlib.Data.List.Forall2

/-!
# Lib — Records

Records that lie in memory one after another.  A record says with `size` where the next begins, and
`walk` takes them in turn.  When the bytes of a record say its size and its content wherever they
lie (`Delimits`), a sequence of records is read back from its bytes (`Delimits.walk_flatten`), and is
the only one with these bytes (`Delimits.unique`).
-/

namespace RdmaRpc.Lib

variable {α : Type} {size : Mem → Nat → Nat} {load : Mem → Nat → α} {Image : α → List UInt8 → Prop}
  {m : Mem} {a e : Nat} {xs ys : List α} {bss css : List (List UInt8)}

/-- The records from `a` up to `e`, unless one of them is empty or goes past `e`. -/
def walk (size : Mem → Nat → Nat) (load : Mem → Nat → α) (m : Mem) (a e : Nat) : Option (List α) :=
  if a = e then some []
  else if _ : 0 < size m a ∧ a + size m a ≤ e then
    (walk size load m (a + size m a) e).map (load m a :: ·)
  else none
termination_by e - a

@[simp] theorem walk_self : walk size load m a a = some [] := by
  rw [walk, if_pos rfl]

theorem walk_step (hpos : 0 < size m a) (hle : a + size m a ≤ e) :
    walk size load m a e = (walk size load m (a + size m a) e).map (load m a :: ·) := by
  rw [walk, if_neg (by omega), dif_pos ⟨hpos, hle⟩]

/-- Wherever the bytes of a record lie, its size and its content are read from them. -/
structure Delimits (size : Mem → Nat → Nat) (load : Mem → Nat → α) (Image : α → List UInt8 → Prop) :
    Prop where
  pos : ∀ {x bs}, Image x bs → 0 < bs.length
  size_eq : ∀ {x bs m a}, Image x bs → m.read a bs.length = bs → size m a = bs.length
  load_eq : ∀ {x bs m a}, Image x bs → m.read a bs.length = bs → load m a = x

namespace Delimits

/-- **Splitting.**  A concatenation of records is read back. -/
theorem walk_flatten (hd : Delimits size load Image) (h : List.Forall₂ Image xs bss)
    (hm : m.read a bss.flatten.length = bss.flatten) :
    walk size load m a (a + bss.flatten.length) = some xs := by
  induction h generalizing a with
  | nil => exact walk_self
  | @cons x bs xs bss hx _ ih =>
      rw [List.flatten_cons, List.length_append, ← Mem.read_append] at hm
      obtain ⟨hbs, hrest⟩ := List.append_inj hm Mem.length_read
      have hsize := hd.size_eq hx hbs
      rw [List.flatten_cons, List.length_append, walk_step (hsize ▸ hd.pos hx) (by omega), hsize,
        ← Nat.add_assoc, ih hrest, hd.load_eq hx hbs]
      rfl

/-- The bytes of the records are delimited as the records are. -/
theorem pieces (hd : Delimits size load Image) :
    Delimits size (fun m a => m.read a (size m a)) fun b bs => b = bs ∧ ∃ x, Image x bs where
  pos := fun ⟨_, _, hx⟩ => hd.pos hx
  size_eq := fun ⟨_, _, hx⟩ hm => hd.size_eq hx hm
  load_eq := by
    rintro _ bs m a ⟨rfl, _, hx⟩ hm
    rw [hd.size_eq hx hm, hm]

theorem forall₂_pieces (h : List.Forall₂ Image xs bss) :
    List.Forall₂ (fun b bs => b = bs ∧ ∃ x, Image x bs) bss bss := by
  induction h with
  | nil => exact .nil
  | cons hx _ ih => exact .cons ⟨rfl, _, hx⟩ ih

/-- **Uniqueness.**  A sequence of records is determined by its bytes. -/
theorem unique (hd : Delimits size load Image) (hx : List.Forall₂ Image xs bss)
    (hy : List.Forall₂ Image ys css) (h : bss.flatten = css.flatten) : xs = ys ∧ bss = css := by
  -- a memory with the bytes of both
  obtain ⟨m, hm⟩ : ∃ m : Mem, m.read 0 bss.flatten.length = bss.flatten :=
    ⟨Mem.write (fun _ => 0) 0 bss.flatten, Mem.read_write_self⟩
  have hm' : m.read 0 css.flatten.length = css.flatten := h ▸ hm
  constructor
  · have h₁ := hd.walk_flatten hx hm
    have h₂ := hd.walk_flatten hy hm'
    rw [h, h₂] at h₁
    exact (Option.some.inj h₁).symm
  · have h₁ := hd.pieces.walk_flatten (forall₂_pieces hx) hm
    have h₂ := hd.pieces.walk_flatten (forall₂_pieces hy) hm'
    rw [h, h₂] at h₁
    exact (Option.some.inj h₁).symm

end Delimits

end RdmaRpc.Lib
