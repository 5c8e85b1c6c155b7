import RdmaRpc.Frame
import RdmaRpc.Lib.Tiles

/-!
# Bulk

The slots of `kv_rdma_alloc_bulk` as ranges of addresses.  They are tiles of the registered region
(`range_mrsGet`), so they are disjoint, in order, and cover it; a slot is its header and its payload, or
the payload of a response (`allocBulk_partitions`).  `slotBytes` is the size of a slot as a number, which
is the `size_t` the code works with as long as the region is no larger than one can say.
-/

namespace RdmaRpc
open Lib

/-- The bytes of a region. -/
def IbvMr.range (mr : IbvMr) : Set Nat := Set.Ico mr.addr (mr.addr + mr.length)

/-- The bytes of the header of a request. -/
def IbvMr.header (mr : IbvMr) : Set Nat := Set.Ico mr.addr (mr.addr + headerSize)

/-- The `size` bytes from `kv_rdma_get_req_buf` on. -/
def IbvMr.reqPayload (mr : IbvMr) (size : Nat) : Set Nat :=
  Set.Ico (kvRdmaGetReqBuf mr) (kvRdmaGetReqBuf mr + size)

/-- The `size` bytes from `kv_rdma_get_resp_buf` on. -/
def IbvMr.respPayload (mr : IbvMr) (size : Nat) : Set Nat :=
  Set.Ico (kvRdmaGetRespBuf mr) (kvRdmaGetRespBuf mr + size)

/-- The bytes of a slot: the payload, and a header unless it is for a response. -/
def slotBytes (type : KvRdmaMrType) (size : Nat) : Nat :=
  if type ≠ .resp then size + headerSize else size

/-- The slots of `kv_rdma_alloc_bulk` divide the region among them, and each is divided as its type
says. -/
structure MrBulk.Partitions (h : MrBulk) (type : KvRdmaMrType) (size count : Nat) : Prop where
  region : h.mr.range = Set.Ico h.buf (h.buf + slotBytes type size * count)
  ordered : ∀ i j, i < j → j < count →
    (kvRdmaMrsGet h i).addr + (kvRdmaMrsGet h i).length ≤ (kvRdmaMrsGet h j).addr
  disjoint : ∀ i j, i < count → j < count → i ≠ j →
    Disjoint (kvRdmaMrsGet h i).range (kvRdmaMrsGet h j).range
  union : ⋃ i < count, (kvRdmaMrsGet h i).range = h.mr.range
  payload : type ≠ .resp → ∀ i < count, ∀ x ∈ (kvRdmaMrsGet h i).header,
    ∀ y ∈ (kvRdmaMrsGet h i).reqPayload size, x < y
  slot : type ≠ .resp → ∀ i < count,
    (kvRdmaMrsGet h i).header ∪ (kvRdmaMrsGet h i).reqPayload size = (kvRdmaMrsGet h i).range
  others : type ≠ .resp → ∀ i j, i < count → j < count → i ≠ j →
    Disjoint ((kvRdmaMrsGet h i).reqPayload size)
      ((kvRdmaMrsGet h j).header ∪ (kvRdmaMrsGet h j).reqPayload size)
  response : type = .resp → ∀ i < count,
    (kvRdmaMrsGet h i).respPayload size = (kvRdmaMrsGet h i).range

section
variable {buf : Nat} {lkey rkey : BitVec 32} {type : KvRdmaMrType} {size count i j : Nat}

theorem slotBytes_lt (hfit : slotBytes type size * count < 2 ^ 64) (hi : i < count) :
    slotBytes type size < 2 ^ 64 :=
  Nat.lt_of_le_of_lt (Nat.le_mul_of_pos_right _ (Nat.zero_lt_of_lt hi)) hfit

/-- The size of a slot does not wrap. -/
theorem slotSize_eq (h : slotBytes type size < 2 ^ 64) : slotSize type size = slotBytes type size := by
  unfold slotSize
  unfold slotBytes at h ⊢
  split
  · next hne =>
      rw [if_pos hne] at h
      exact sizeT_of_lt h
  · rfl

/-- The region is as long as its slots together. -/
theorem length_allocBulk (hfit : slotBytes type size * count < 2 ^ 64) :
    (kvRdmaAllocBulk buf lkey rkey type size count).mr.length = slotBytes type size * count := by
  rw [kvRdmaAllocBulk_mr]
  cases count with
  | zero => rfl
  | succ k =>
      show sizeT (slotSize type size * (k + 1)) = _
      rw [slotSize_eq (slotBytes_lt hfit (Nat.zero_lt_succ k)), sizeT_of_lt hfit]

/-- A slot starts where the slots before it end. -/
theorem mrsGet_eq (hfit : slotBytes type size * count < 2 ^ 64) (hi : i < count) :
    kvRdmaMrsGet (kvRdmaAllocBulk buf lkey rkey type size count) i =
      ⟨buf + i * slotBytes type size, slotBytes type size, lkey, rkey⟩ := by
  have hlt : i * slotBytes type size < 2 ^ 64 := by
    rw [Nat.mul_comm]
    exact Nat.lt_of_le_of_lt (Nat.mul_le_mul_left _ (Nat.le_of_lt hi)) hfit
  rw [kvRdmaMrsGet_allocBulk hi, slotSize_eq (slotBytes_lt hfit hi), sizeT_of_lt hlt]

/-- The slots are tiles. -/
theorem range_mrsGet (hfit : slotBytes type size * count < 2 ^ 64) (hi : i < count) :
    (kvRdmaMrsGet (kvRdmaAllocBulk buf lkey rkey type size count) i).range =
      tile buf (slotBytes type size) i := by
  rw [mrsGet_eq hfit hi, tile_eq]
  rfl

/-- The header and the payload of a request make up its region. -/
theorem IbvMr.header_union_reqPayload {mr : IbvMr} (h : mr.length = size + headerSize) :
    mr.header ∪ mr.reqPayload size = mr.range := by
  rw [IbvMr.header, IbvMr.reqPayload, kvRdmaGetReqBuf,
    Set.Ico_union_Ico_eq_Ico (Nat.le_add_right _ _) (Nat.le_add_right _ _), IbvMr.range, h,
    Nat.add_assoc, Nat.add_comm headerSize]

/-- **Bulk regions.** -/
theorem allocBulk_partitions (hfit : slotBytes type size * count < 2 ^ 64) :
    (kvRdmaAllocBulk buf lkey rkey type size count).Partitions type size count := by
  have hslot : type ≠ .resp → ∀ i < count,
      (kvRdmaMrsGet (kvRdmaAllocBulk buf lkey rkey type size count) i).length =
        size + headerSize := by
    intro ht i hi
    rw [mrsGet_eq hfit hi]
    exact if_pos ht
  have hdisj : ∀ i j, i < count → j < count → i ≠ j →
      Disjoint (kvRdmaMrsGet (kvRdmaAllocBulk buf lkey rkey type size count) i).range
        (kvRdmaMrsGet (kvRdmaAllocBulk buf lkey rkey type size count) j).range := by
    intro i j hi hj hne
    rw [range_mrsGet hfit hi, range_mrsGet hfit hj]
    exact disjoint_tile hne
  have hregion : (kvRdmaAllocBulk buf lkey rkey type size count).mr.range =
      Set.Ico buf (buf + slotBytes type size * count) := by
    rw [IbvMr.range, length_allocBulk hfit]
    rfl
  refine ⟨hregion, fun i j hij hj => ?_, hdisj, ?_, fun ht i hi x hx y hy => ?_, fun ht i hi => ?_,
    fun ht i j hi hj hne => ?_, fun ht i hi => ?_⟩
  · rw [mrsGet_eq hfit (Nat.lt_trans hij hj), mrsGet_eq hfit hj]
    exact tile_end_le hij
  · rw [hregion, Nat.mul_comm, ← biUnion_tile]
    exact Set.iUnion₂_congr fun i hi => range_mrsGet hfit hi
  · exact Nat.lt_of_lt_of_le hx.2 hy.1
  · exact IbvMr.header_union_reqPayload (hslot ht i hi)
  · rw [IbvMr.header_union_reqPayload (hslot ht j hj)]
    have hsub : (kvRdmaMrsGet (kvRdmaAllocBulk buf lkey rkey type size count) i).reqPayload size ⊆
        (kvRdmaMrsGet (kvRdmaAllocBulk buf lkey rkey type size count) i).range := by
      rw [← IbvMr.header_union_reqPayload (hslot ht i hi)]
      exact Set.subset_union_right
    exact (hdisj i j hi hj hne).mono_left hsub
  · rw [IbvMr.respPayload, IbvMr.range, kvRdmaGetRespBuf, mrsGet_eq hfit hi]
    simp [slotBytes, ht]

/-- Three requests of five bytes, in slots of seventeen. -/
theorem allocBulk_partitions_three :
    (kvRdmaAllocBulk 4096 0 0 .req 5 3).Partitions .req 5 3 ∧
      (kvRdmaAllocBulk 4096 0 0 .req 5 3).mrs.map IbvMr.addr = [4096, 4113, 4130] :=
  ⟨allocBulk_partitions (by decide), by decide⟩

end

end RdmaRpc
