import RdmaRpc.Verbs

/-!
# Frame

`struct req_header`, which `kv_rdma_send_req` writes at the start of a request's buffer and
`on_recv_req` reads at the start of the slot the message landed in, and the memory regions of
`kv_rdma_alloc_bulk`, `kv_rdma_alloc_req` and `kv_rdma_alloc_resp`.
-/

namespace RdmaRpc
open Lib

/-- `struct req_header` -/
structure ReqHeader where
  respAddr : BitVec 64
  reqId : BitVec 32
deriving DecidableEq, Repr

/-- `HEADER_SIZE` -/
def headerSize : Nat := 12

namespace ReqHeader

/-- The bytes of the packed structure, on a little-endian host. -/
def bytes (h : ReqHeader) : List UInt8 := leBytes 8 h.respAddr.toNat ++ leBytes 4 h.reqId.toNat

def ofBytes (bs : List UInt8) : ReqHeader :=
  ⟨BitVec.ofNat 64 (leVal (bs.take 8)), BitVec.ofNat 32 (leVal ((bs.drop 8).take 4))⟩

@[simp] theorem length_bytes (h : ReqHeader) : h.bytes.length = headerSize := by
  simp [bytes, headerSize]

/-- What `on_recv_req` reads is what `kv_rdma_send_req` wrote. -/
@[simp] theorem ofBytes_bytes (h : ReqHeader) : ofBytes h.bytes = h := by
  have h₁ : h.bytes.take 8 = leBytes 8 h.respAddr.toNat := List.take_left' (by simp)
  have h₂ : h.bytes.drop 8 = leBytes 4 h.reqId.toNat := List.drop_left' (by simp)
  have hA : h.respAddr.toNat < 256 ^ 8 := h.respAddr.isLt
  have hI : h.reqId.toNat < 256 ^ 4 := h.reqId.isLt
  rw [ofBytes, h₁, h₂, List.take_of_length_le (by simp), leVal_leBytes, leVal_leBytes,
    Nat.mod_eq_of_lt hA, Nat.mod_eq_of_lt hI, BitVec.ofNat_toNat, BitVec.ofNat_toNat]
  simp

end ReqHeader

/-! ### Memory regions -/

inductive KvRdmaMrType where
  | req
  | resp
  | server
deriving DecidableEq, Repr

/-- `struct mr_bulk` -/
structure MrBulk where
  mr : IbvMr
  buf : Nat
  mrs : List IbvMr
deriving DecidableEq, Repr

/-- The size of a slot of `kv_rdma_alloc_bulk`. -/
def slotSize (type : KvRdmaMrType) (size : Nat) : Nat :=
  if type ≠ .resp then sizeT (size + headerSize) else size

/-- `kv_rdma_alloc_bulk`, whose `kv_dma_malloc` returns `buf` and whose `ibv_reg_mr` gives the
two keys -/
def kvRdmaAllocBulk (buf : Nat) (lkey rkey : BitVec 32) (type : KvRdmaMrType)
    (size count : Nat) : MrBulk :=
  let size := slotSize type size
  let mr : IbvMr := ⟨buf, sizeT (size * count), lkey, rkey⟩
  { mr, buf
    mrs := (List.range count).map fun i =>
      { mr with addr := mr.addr + sizeT (i * size), length := size } }

/-- `kv_rdma_mrs_get`, for an index of the array -/
def kvRdmaMrsGet (h : MrBulk) (index : Nat) : IbvMr := h.mrs.getD index h.mr

/-- `kv_rdma_alloc_req`: the size is a `uint32_t`. -/
def kvRdmaAllocReq (buf : Nat) (lkey rkey : BitVec 32) (size : Nat) : IbvMr :=
  ⟨buf, u32 (size + headerSize), lkey, rkey⟩

def kvRdmaAllocResp (buf : Nat) (lkey rkey : BitVec 32) (size : Nat) : IbvMr :=
  ⟨buf, u32 size, lkey, rkey⟩

def kvRdmaGetReqBuf (mr : IbvMr) : Nat := mr.addr + headerSize

def kvRdmaGetRespBuf (mr : IbvMr) : Nat := mr.addr

section
variable {buf : Nat} {lkey rkey : BitVec 32} {type : KvRdmaMrType} {size count i : Nat}

@[simp] theorem kvRdmaAllocBulk_mr :
    (kvRdmaAllocBulk buf lkey rkey type size count).mr =
      ⟨buf, sizeT (slotSize type size * count), lkey, rkey⟩ := rfl

theorem kvRdmaMrsGet_allocBulk (hi : i < count) :
    kvRdmaMrsGet (kvRdmaAllocBulk buf lkey rkey type size count) i =
      ⟨buf + sizeT (i * slotSize type size), slotSize type size, lkey, rkey⟩ := by
  simp [kvRdmaMrsGet, kvRdmaAllocBulk, hi]

end

end RdmaRpc
