import RdmaRpc.Bulk
import RdmaRpc.Client.Answers

/-!
# Client — Buffers

Whether a call of `kv_rdma_send_req` keeps to the region of its request.  The check of the call
compares the size of the payload with the length of the region, which includes the header, so it
lets through twelve sizes too many; and `kv_rdma_alloc_req` adds the header in 32 bits, so for its
twelve largest sizes the region is shorter than a header.  Otherwise the call keeps to the region
(`keepsToRegion_iff`).
-/

namespace RdmaRpc
open Lib

/-- The bytes of a scatter entry. -/
def IbvSge.range (sge : IbvSge) : Set Nat := Set.Ico sge.addr (sge.addr + sge.length)

/-- A region for requests of `size` bytes: one of `kv_rdma_alloc_req`, for any `uint32_t`, or a slot
of `kv_rdma_alloc_bulk`, of a region whose length a `uint32_t` can say. -/
inductive RequestMr (size : Nat) : IbvMr → Prop where
  | alloc (buf : Nat) (lkey rkey : BitVec 32) (hsize : size < 2 ^ 32) :
      RequestMr size (kvRdmaAllocReq buf lkey rkey size)
  | slot (buf : Nat) (lkey rkey : BitVec 32) {count i : Nat}
      (hfit : (size + headerSize) * count < 2 ^ 32) (hi : i < count) :
      RequestMr size (kvRdmaMrsGet (kvRdmaAllocBulk buf lkey rkey .req size count) i)

theorem RequestMr.length_eq {size : Nat} {mr : IbvMr} (h : RequestMr size mr) :
    mr.length = (size + headerSize) % 2 ^ 32 := by
  cases h with
  | alloc buf lkey rkey hsize => rfl
  | slot buf lkey rkey hfit hi =>
      have hfit' : slotBytes .req size * _ < 2 ^ 64 := Nat.lt_trans hfit (by decide)
      rw [mrsGet_eq hfit' hi]
      refine (Nat.mod_eq_of_lt ?_).symm
      exact Nat.lt_of_le_of_lt (Nat.le_mul_of_pos_right _ (Nat.zero_lt_of_lt hi)) hfit

theorem RequestMr.size_lt {size : Nat} {mr : IbvMr} (h : RequestMr size mr) : size < 2 ^ 32 := by
  cases h with
  | alloc buf lkey rkey hsize => exact hsize
  | slot buf lkey rkey hfit hi =>
      have hle := Nat.le_mul_of_pos_right (size + headerSize) (Nat.zero_lt_of_lt hi)
      exact Nat.lt_of_le_of_lt (Nat.le_add_right _ _) (Nat.lt_of_le_of_lt hle hfit)

namespace Client

/-- The call writes inside the region of its request, and what it posts is sent from there and is
the header and the payload. -/
structure KeepsToRegion (c : Client) (a : SendReq) (pick : Nat) : Prop where
  header : ∀ mem rr rs c' mem', kvRdmaSendReq c mem a pick rr rs = .ok (c', mem') →
    ∀ x ∉ a.req.range, mem' x = mem x
  sge : ∀ mem c' mem', kvRdmaSendReq c mem a pick false false = .ok (c', mem') →
    ∀ p ∈ c'.sends.drop c.sends.length,
      p.wr.sge.range ⊆ a.req.range ∧ p.wr.sge.length = a.reqSz.toNat + headerSize

section
variable {c c' : Client} {mem mem' : Mem} {a : SendReq} {pick size : Nat}

/-- What an accepted call adds to the send queue. -/
theorem posted_eq (h : kvRdmaSendReq c mem a pick false false = .ok (c', mem')) :
    ∃ ele, c'.sends.drop c.sends.length = [⟨sendWr a ele, c.calls.length⟩] := by
  obtain ⟨-, -, ele, mp, -, -, ⟨hr, -⟩ | ⟨-, hs, -⟩ | ⟨-, -, rfl⟩⟩ := kvRdmaSendReq_eq_ok h
  · cases hr
  · cases hs
  · exact ⟨ele, List.drop_left⟩

/-- The scatter entry lies in the region when the header and the payload fit it. -/
theorem sge_range_subset {ele : Nat} (h : a.reqSz.toNat + headerSize ≤ a.req.length) :
    (sendWr a ele).sge.range ⊆ a.req.range := by
  refine Set.Ico_subset_Ico_right (Nat.add_le_add_left ?_ _)
  exact (u32_le _).trans h

/-- **A sent request keeps to its region** exactly when its payload is no longer than the region was
allocated for, and the header did not wrap. -/
theorem keepsToRegion_iff (hmr : RequestMr size a.req)
    (h : kvRdmaSendReq c mem a pick false false = .ok (c', mem')) :
    c.KeepsToRegion a pick ↔ size + headerSize < 2 ^ 32 ∧ a.reqSz.toNat ≤ size := by
  have hlen := hmr.length_eq
  constructor
  · intro hk
    obtain ⟨ele, hposted⟩ := posted_eq h
    obtain ⟨hsub, hsge⟩ := hk.sge mem c' mem' h _ (by rw [hposted]; exact List.mem_cons_self)
    -- a scatter entry is never empty, so its end is the end of a byte of the region
    have hin : a.reqSz.toNat + headerSize ≤ a.req.length := by
      have hpos : 0 < (sendWr a ele).sge.length := by rw [hsge]; exact Nat.succ_pos _
      have hend := ((Set.Ico_subset_Ico_iff (Nat.lt_add_of_pos_right hpos)).mp hsub).2
      rw [hsge] at hend
      exact Nat.le_of_add_le_add_left hend
    have hsize := hmr.size_lt
    simp only [headerSize] at hin hlen ⊢
    omega
  · rintro ⟨hwrap, hsz⟩
    rw [Nat.mod_eq_of_lt hwrap] at hlen
    refine ⟨fun mem rr rs c' mem' h x hx => ?_, fun mem c' mem' h p hp => ?_⟩
    · obtain ⟨-, -, ele, mp, -, rfl, -⟩ := kvRdmaSendReq_eq_ok h
      refine Mem.write_of_outside ?_
      rw [ReqHeader.length_bytes]
      simp only [IbvMr.range, Set.mem_Ico, hlen] at hx
      omega
    · obtain ⟨ele, hposted⟩ := posted_eq h
      rw [hposted, List.mem_singleton] at hp
      subst hp
      refine ⟨sge_range_subset (hlen ▸ Nat.add_le_add_right hsz _), ?_⟩
      exact u32_of_lt (Nat.lt_of_le_of_lt (Nat.add_le_add_right hsz _) hwrap)

end

/-- A request of four bytes keeps to its region, which is for four. -/
theorem keepsToRegion_smallReq : (init 0 7 4096).KeepsToRegion smallReq 0 := by
  have hmr : RequestMr 4 smallReq.req := .alloc 64 0 0 (by decide)
  obtain ⟨mp, hrun⟩ := run_smallReq
  exact (keepsToRegion_iff hmr (run_singleton.symm.trans hrun)).mpr (by decide)

/-- Two slots for four bytes each. -/
def smallSlots : MrBulk := kvRdmaAllocBulk 4096 0 0 .req 4 2

/-- A request of sixteen bytes in the first slot. -/
def longReq : SendReq := ⟨kvRdmaMrsGet smallSlots 0, 16, ⟨128, 4, 0, 5⟩, none, some 1, 0⟩

/-- The request is accepted, and twelve bytes of the second slot are sent with it. -/
theorem longReq_overlaps : ∃ c' mem' p,
    kvRdmaSendReq (init 0 7 65536) (fun _ => 0) longReq 0 false false = .ok (c', mem') ∧
      c'.sends = [p] ∧ p.wr.sge.range ∩ (kvRdmaMrsGet smallSlots 1).range = Set.Ico 4112 4124 ∧
      ¬ (init 0 7 65536).KeepsToRegion longReq 0 := by
  have h : kvRdmaSendReq _ (fun _ => 0) longReq 0 false false = .ok _ :=
    kvRdmaSendReq_posted false rfl (get_init 0 7 65536) (by decide)
  refine ⟨_, _, ⟨sendWr longReq 65536, 0⟩, h, rfl, ?_, fun hk => ?_⟩
  · exact Set.Ico_inter_Ico
  · -- the last byte sent is past the slot
    have hsub := (hk.sge _ _ _ h ⟨sendWr longReq 65536, 0⟩ List.mem_cons_self).1
    have hin : 4123 ∈ longReq.req.range := hsub ⟨by decide, by decide⟩
    exact absurd hin.2 (by decide)

end Client

end RdmaRpc
