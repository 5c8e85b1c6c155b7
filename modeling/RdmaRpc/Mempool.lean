import RdmaRpc.Verbs
import Mathlib.Data.List.Nodup

/-!
# Mempool

`kv_memory.c`.  A pool is a buffer of `count` elements and a concurrent queue of the addresses
of the free ones.  Which free element a `kv_mempool_get` returns depends on the producer tokens
and on the other threads, so the model leaves it to a number `pick`.

An element's id is its offset in the buffer.  It leaves the client as `(uint32_t)id` in the
request header and comes back as `(int32_t)imm_data`; for a pool of at most `2 ^ 31` bytes
nothing is lost on the way (`kvMempoolGetEle_imm`).
-/

namespace RdmaRpc

/-- `struct _kv_mempool`; `free` is the content of the queue `cq`. -/
structure KvMempool where
  buf : Nat
  count : Nat
  eleSize : Nat
  free : List Nat
deriving DecidableEq, Repr

/-- The elements of the pool. -/
def KvMempool.elements (mp : KvMempool) : List Nat :=
  (List.range mp.count).map fun i => mp.buf + i * mp.eleSize

def kvMempoolPut (mp : KvMempool) (ele : Nat) : KvMempool := { mp with free := mp.free ++ [ele] }

/-- `kv_mempool_create`, whose `kv_dma_malloc` returns `buf` -/
@[irreducible] def kvMempoolCreate (buf : Nat) (count eleSize : Nat) : KvMempool :=
  (List.range count).foldl (fun mp i => kvMempoolPut mp (buf + i * eleSize))
    ⟨buf, count, eleSize, []⟩

/-- `kv_mempool_get`: `none` is the `NULL` of an empty queue. -/
def kvMempoolGet (mp : KvMempool) (pick : Nat) : Option (Nat × KvMempool) :=
  (mp.free[pick % mp.free.length]?).map fun ele =>
    (ele, { mp with free := mp.free.eraseIdx (pick % mp.free.length) })

def kvMempoolGetId (mp : KvMempool) (ele : Nat) : Int := (ele : Int) - mp.buf

def kvMempoolGetEle (mp : KvMempool) (id : Int) : Nat := (mp.buf + id).toNat

/-! ### The free elements -/

theorem foldl_kvMempoolPut {β : Type} (f : β → Nat) (l : List β) (mp : KvMempool) :
    l.foldl (fun mp i => kvMempoolPut mp (f i)) mp = { mp with free := mp.free ++ l.map f } := by
  induction l generalizing mp with
  | nil => simp
  | cons i l ih =>
      rw [List.foldl_cons, ih]
      simp [kvMempoolPut]

/-- All elements of a new pool are free. -/
theorem kvMempoolCreate_eq (buf : Nat) (count eleSize : Nat) :
    kvMempoolCreate buf count eleSize =
      ⟨buf, count, eleSize, (List.range count).map fun i => buf + i * eleSize⟩ := by
  rw [kvMempoolCreate, foldl_kvMempoolPut]
  simp

theorem kvMempoolGet_eq_none {mp : KvMempool} {pick : Nat} :
    kvMempoolGet mp pick = none ↔ mp.free = [] := by
  simp only [kvMempoolGet, Option.map_eq_none_iff, List.getElem?_eq_none_iff]
  constructor
  · intro h
    by_contra hne
    have hpos := List.length_pos_iff.mpr hne
    have := Nat.mod_lt pick hpos
    omega
  · intro h; simp [h]

/-- `kv_mempool_get` takes one element out of the queue. -/
theorem kvMempoolGet_eq_some {mp mp' : KvMempool} {pick : Nat} {ele : Nat}
    (h : kvMempoolGet mp pick = some (ele, mp')) :
    mp.free.Perm (ele :: mp'.free) ∧
      mp'.buf = mp.buf ∧ mp'.count = mp.count ∧ mp'.eleSize = mp.eleSize := by
  simp only [kvMempoolGet, Option.map_eq_some_iff, Prod.mk.injEq] at h
  obtain ⟨e, he, rfl, rfl⟩ := h
  obtain ⟨hlt, rfl⟩ := List.getElem?_eq_some_iff.mp he
  exact ⟨(List.getElem_cons_eraseIdx_perm hlt).symm, rfl, rfl, rfl⟩

theorem mem_elements {mp : KvMempool} {ele : Nat} :
    ele ∈ mp.elements ↔ ∃ i < mp.count, ele = mp.buf + i * mp.eleSize := by
  simp [KvMempool.elements, eq_comm]

/-- No element is there twice. -/
theorem nodup_elements (mp : KvMempool) (hpos : 0 < mp.eleSize) : mp.elements.Nodup := by
  refine List.nodup_range.map fun i j hij => ?_
  exact Nat.eq_of_mul_eq_mul_right hpos (Nat.add_left_cancel hij)

/-! ### Ids -/

/-- An element is named again by its id, through the narrowing of `kv_rdma_send_req` and the
one of `on_recv_resp`. -/
theorem kvMempoolGetEle_imm {mp : KvMempool} {ele : Nat} (hsize : mp.count * mp.eleSize ≤ 2 ^ 31)
    (hpos : 0 < mp.eleSize) (h : ele ∈ mp.elements) :
    kvMempoolGetEle mp (BitVec.ofInt 32 (kvMempoolGetId mp ele)).toInt = ele := by
  obtain ⟨i, hi, rfl⟩ := mem_elements.mp h
  have hlt : i * mp.eleSize < 2 ^ 31 :=
    Nat.lt_of_lt_of_le (Nat.mul_lt_mul_of_pos_right hi hpos) hsize
  generalize i * mp.eleSize = off at hlt
  have hid : kvMempoolGetId mp (mp.buf + off) = off := by
    simp only [kvMempoolGetId]; omega
  have himm : (BitVec.ofInt 32 off).toInt = off := by
    rw [BitVec.toInt_ofInt]
    exact Int.bmod_eq_of_le (by omega) (by omega)
  rw [hid, himm, kvMempoolGetEle]
  omega

end RdmaRpc
