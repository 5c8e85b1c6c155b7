import RdmaRpc.Bulk
import RdmaRpc.Msg.RoundTrip

/-!
# Msg — Alignment

Whether the value of a message in a request's buffer is aligned to four bytes.  `kv_dma_malloc` aligns
the region, and the header, the fields and the padded key are multiples of four; but the slots of
`kv_rdma_alloc_bulk` are as far apart as their size, whatever it is.  So a value is aligned just when
the payloads before its slot come to a multiple of four (`RequestRegion.value_aligned_iff`).
-/

namespace RdmaRpc
open Lib

/-- A region for requests in an aligned buffer, and how many bytes of payload there are in the buffer
before it: none in one of `kv_rdma_alloc_req`, and those of `i` slots in slot `i` of a bulk. -/
inductive RequestRegion : IbvMr → Nat → Prop where
  | alloc {buf size : Nat} {lkey rkey : BitVec 32} (hbuf : 4 ∣ buf) (hsize : size < 2 ^ 32) :
      RequestRegion (kvRdmaAllocReq buf lkey rkey size) 0
  | slot {buf size count i : Nat} {lkey rkey : BitVec 32} {type : KvRdmaMrType} (hbuf : 4 ∣ buf)
      (htype : type = .req ∨ type = .server) (hfit : (size + headerSize) * count < 2 ^ 64)
      (hi : i < count) :
      RequestRegion (kvRdmaMrsGet (kvRdmaAllocBulk buf lkey rkey type size count) i) (i * size)

/-- A value is aligned as its message is. -/
theorem four_dvd_kvMsgValue (m : Mem) (msg : Nat) : 4 ∣ kvMsgValue m msg ↔ 4 ∣ msg := by
  rw [kvMsgValue, Nat.dvd_add_left (kvMsg m msg).four_dvd_keySpace]
  exact Nat.dvd_add_left ⟨2, rfl⟩

theorem four_dvd_kvRdmaGetReqBuf (mr : IbvMr) : 4 ∣ kvRdmaGetReqBuf mr ↔ 4 ∣ mr.addr :=
  Nat.dvd_add_left ⟨3, rfl⟩

/-- A region is aligned as the payloads before it are. -/
theorem RequestRegion.four_dvd_addr {mr : IbvMr} {n : Nat} (h : RequestRegion mr n) :
    4 ∣ mr.addr ↔ 4 ∣ n := by
  cases h with
  | alloc hbuf hsize => exact iff_of_true hbuf (Nat.dvd_zero 4)
  | @slot buf size count i lkey rkey type hbuf htype hfit hi =>
      have hslot : slotBytes type size = size + headerSize := by
        rcases htype with rfl | rfl <;> rfl
      have hheader : 4 ∣ i * headerSize := Nat.dvd_mul_left_of_dvd ⟨3, rfl⟩ i
      rw [mrsGet_eq (hslot ▸ hfit) hi, hslot, Nat.dvd_add_right hbuf, Nat.mul_add]
      exact Nat.dvd_add_left hheader

/-- **Alignment.**  The value of a message in a region is aligned exactly when the payloads before the
region come to a multiple of four. -/
theorem RequestRegion.value_aligned_iff {mr : IbvMr} {n : Nat} (h : RequestRegion mr n) (m : Mem) :
    4 ∣ kvMsgValue m (kvRdmaGetReqBuf mr) ↔ 4 ∣ n := by
  rw [four_dvd_kvMsgValue, four_dvd_kvRdmaGetReqBuf, h.four_dvd_addr]

/-- In slots for ten bytes, the value of a message in the third slot is aligned. -/
theorem value_aligned_third :
    4 ∣ kvMsgValue (Message.okMsg.store true (fun _ => 0) 4152)
      (kvRdmaGetReqBuf (kvRdmaMrsGet (kvRdmaAllocBulk 4096 0 0 .server 10 3) 2)) := by
  have h : RequestRegion (kvRdmaMrsGet (kvRdmaAllocBulk 4096 0 0 .server 10 3) 2) (2 * 10) :=
    .slot ⟨1024, rfl⟩ (.inr rfl) (by decide) (by decide)
  exact (RequestRegion.value_aligned_iff h _).mpr ⟨5, rfl⟩

/-- In the second slot it is not. -/
theorem value_misaligned_second :
    ¬ 4 ∣ kvMsgValue (Message.okMsg.store true (fun _ => 0) 4130)
      (kvRdmaGetReqBuf (kvRdmaMrsGet (kvRdmaAllocBulk 4096 0 0 .req 10 2) 1)) := by
  decide

end RdmaRpc
