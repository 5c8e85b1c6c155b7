import RdmaRpc.Lib.Records
import RdmaRpc.Verbs

/-!
# Msg — Layout

`kv_msg.h`: a message is eight bytes of fields, the key, padding to a multiple of four, and the value.
The macros read `key_len` and `value_len` where the message lies, so they are functions of the memory.
-/

namespace RdmaRpc
open Lib

/-- `_KV_MSG_ALIGN`, on an `int` -/
def kvMsgAlign (size : BitVec 32) : BitVec 32 :=
  if size &&& 0x3#32 ≠ 0 then (size &&& ~~~0x3#32) + 0x4#32 else size

/-- `struct kv_msg` -/
structure KvMsg where
  type : UInt8
  keyLen : UInt8
  hop : UInt16
  valueLen : UInt32
deriving DecidableEq, Repr

/-- `sizeof(struct kv_msg)` -/
def sizeofKvMsg : Nat := 8

namespace KvMsg

/-- The bytes of the structure, on a little-endian host. -/
def bytes (h : KvMsg) : List UInt8 :=
  [h.type, h.keyLen] ++ leBytes 2 h.hop.toNat ++ leBytes 4 h.valueLen.toNat

def ofBytes (bs : List UInt8) : KvMsg :=
  ⟨bs.getD 0 0, bs.getD 1 0, UInt16.ofNat (leVal ((bs.drop 2).take 2)),
    UInt32.ofNat (leVal ((bs.drop 4).take 4))⟩

@[simp] theorem length_bytes (h : KvMsg) : h.bytes.length = sizeofKvMsg := by
  simp [bytes, sizeofKvMsg]

@[simp] theorem ofBytes_bytes (h : KvMsg) : ofBytes h.bytes = h := by
  have hhop : (h.bytes.drop 2).take 2 = leBytes 2 h.hop.toNat := List.take_left' (by simp)
  have hval : (h.bytes.drop 4).take 4 = leBytes 4 h.valueLen.toNat := by
    refine (List.take_of_length_le (by simp [sizeofKvMsg])).trans ?_
    have hlen : ([h.type, h.keyLen] ++ leBytes 2 h.hop.toNat).length = 4 := by simp
    exact List.drop_left' hlen
  have hH : h.hop.toNat < 256 ^ 2 := h.hop.toNat_lt
  have hV : h.valueLen.toNat < 256 ^ 4 := h.valueLen.toNat_lt
  rw [ofBytes, hhop, hval, leVal_leBytes, leVal_leBytes, Nat.mod_eq_of_lt hH, Nat.mod_eq_of_lt hV,
    UInt16.ofNat_toNat, UInt32.ofNat_toNat]
  rfl

/-- `_KV_MSG_ALIGN((msg)->key_len)` -/
def keySpace (h : KvMsg) : Nat := (kvMsgAlign (BitVec.ofNat 32 h.keyLen.toNat)).toNat

end KvMsg

/-- The fields of the message at `msg`. -/
def kvMsg (m : Mem) (msg : Nat) : KvMsg := KvMsg.ofBytes (m.read msg sizeofKvMsg)

/-- `KV_MSG_KEY` -/
def kvMsgKey (msg : Nat) : Nat := msg + sizeofKvMsg

/-- `KV_MSG_VALUE` -/
def kvMsgValue (m : Mem) (msg : Nat) : Nat := msg + sizeofKvMsg + (kvMsg m msg).keySpace

/-- `KV_MSG_SIZE` -/
def kvMsgSize (m : Mem) (msg : Nat) : Nat :=
  sizeT (sizeT (sizeofKvMsg + (kvMsg m msg).keySpace) + (kvMsg m msg).valueLen.toNat)

/-! ### Alignment -/

section
variable (x : BitVec 32)

theorem toNat_and_three : (x &&& 0x3#32).toNat = x.toNat % 4 := by
  rw [BitVec.toNat_and]
  exact Nat.and_two_pow_sub_one_eq_mod x.toNat 2

theorem and_not_three : x &&& ~~~0x3#32 = (x >>> 2) <<< 2 := by
  have hthree : ∀ i, (0x3#32).getLsbD i = decide (i < 2) := by
    intro i
    rw [BitVec.getLsbD_ofNat, show 3 = 2 ^ 2 - 1 from rfl, Nat.testBit_two_pow_sub_one]
    by_cases h : i < 2
    · simp [h, Nat.lt_trans h]
    · simp [h]
  refine BitVec.eq_of_getLsbD_eq fun i hi => ?_
  simp only [BitVec.getLsbD_and, BitVec.getLsbD_not, hthree, BitVec.getLsbD_shiftLeft,
    BitVec.getLsbD_ushiftRight]
  by_cases h : i < 2
  · simp [h]
  · have hi' : 2 + (i - 2) = i := by omega
    simp [h, hi, hi']

theorem toNat_and_not_three : (x &&& ~~~0x3#32).toNat = x.toNat / 4 * 4 := by
  have := x.isLt
  rw [and_not_three]
  simp only [BitVec.toNat_shiftLeft, BitVec.toNat_ushiftRight, Nat.shiftRight_eq_div_pow,
    Nat.shiftLeft_eq]
  omega

/-- The next multiple of four. -/
theorem toNat_kvMsgAlign (h : x.toNat + 3 < 2 ^ 32) :
    (kvMsgAlign x).toNat = (x.toNat + 3) / 4 * 4 := by
  have hthree : x &&& 0x3#32 = 0 ↔ x.toNat % 4 = 0 := by
    rw [← BitVec.toNat_inj, toNat_and_three]
    exact Iff.rfl
  unfold kvMsgAlign
  split
  · next hne =>
      have hmod := mt hthree.mpr hne
      rw [BitVec.toNat_add, toNat_and_not_three, BitVec.toNat_ofNat]
      omega
  · next heq =>
      have hmod := hthree.mp (not_not.mp heq)
      omega

end

namespace KvMsg
variable (h : KvMsg)

theorem keySpace_eq : h.keySpace = (h.keyLen.toNat + 3) / 4 * 4 := by
  have hlt := h.keyLen.toNat_lt
  have hnat : (BitVec.ofNat 32 h.keyLen.toNat).toNat = h.keyLen.toNat := by
    rw [BitVec.toNat_ofNat]
    exact Nat.mod_eq_of_lt (by omega)
  rw [keySpace, toNat_kvMsgAlign _ (by omega), hnat]

/-- The key and its padding are at most 256 bytes. -/
theorem keySpace_le : h.keySpace ≤ 256 := by
  have hlt := h.keyLen.toNat_lt
  have heq := h.keySpace_eq
  omega

theorem keyLen_le_keySpace : h.keyLen.toNat ≤ h.keySpace := by
  have heq := h.keySpace_eq
  omega

theorem four_dvd_keySpace : 4 ∣ h.keySpace := by
  rw [keySpace_eq]
  exact Nat.dvd_mul_left 4 _

end KvMsg

/-- The sum is a `size_t`. -/
theorem kvMsgSize_eq (m : Mem) (msg : Nat) :
    kvMsgSize m msg = sizeofKvMsg + (kvMsg m msg).keySpace + (kvMsg m msg).valueLen.toNat := by
  have hkey := (kvMsg m msg).keySpace_le
  have hval := (kvMsg m msg).valueLen.toNat_lt
  have hsum : sizeofKvMsg + (kvMsg m msg).keySpace < 2 ^ 64 := by
    rw [sizeofKvMsg]
    omega
  rw [kvMsgSize, sizeT_of_lt hsum, sizeT_of_lt]
  rw [sizeofKvMsg]
  omega

end RdmaRpc
