import RdmaRpc.Net.Correlation

/-!
# Net — Confined

Where a response can land at the client.  The header carries an address and no length, and the NIC
checks a response write against the region of its key.  That is the MR itself if it was allocated by
`kv_rdma_alloc_resp`, and the whole bulk region if it is a slot of `kv_rdma_alloc_bulk`: a response
longer than the slot, as the server may give in a longer slot of its own, is written over the
following slots (`response_confined_iff`).

The address is the request's own as long as the header reaches the server's context unharmed, for
which the messages have to keep to their slots (`Fitting`).
-/

namespace RdmaRpc
open Lib

/-- The MR of a response: slot `i` of a bulk region, or one of its own. -/
inductive RespAlloc where
  | slot (buf : Nat) (lkey rkey : BitVec 32) (size count : Nat) (i : Fin count)
  | own (buf : Nat) (lkey rkey : BitVec 32) (size : Nat)

namespace RespAlloc

def mr : RespAlloc → IbvMr
  | slot buf lkey rkey size count i =>
    kvRdmaMrsGet (kvRdmaAllocBulk buf lkey rkey .resp size count) i
  | own buf lkey rkey size => kvRdmaAllocResp buf lkey rkey size

/-- What `ibv_reg_mr` has registered under the key of the MR. -/
def region : RespAlloc → IbvMr
  | slot buf lkey rkey size count _ => (kvRdmaAllocBulk buf lkey rkey .resp size count).mr
  | own buf lkey rkey size => kvRdmaAllocResp buf lkey rkey size

def Separate : RespAlloc → Prop
  | slot .. => False
  | own .. => True

/-- The end of the region. -/
def regionEnd (a : RespAlloc) : Nat := a.region.addr + a.region.length

variable {a : RespAlloc}

theorem mr_addr : ∃ off < 2 ^ 64, a.mr.addr = a.region.addr + off := by
  cases a with
  | slot buf lkey rkey size count i =>
      refine ⟨sizeT (i * slotSize .resp size), Nat.mod_lt _ (by decide), ?_⟩
      rw [mr, kvRdmaMrsGet_allocBulk i.isLt]
      rfl
  | own buf lkey rkey size => exact ⟨0, by decide, rfl⟩

theorem Separate.mr_eq (h : a.Separate) : a.mr = a.region := by
  cases a with
  | slot buf lkey rkey size count i => cases h
  | own buf lkey rkey size => rfl

/-- A 64-bit address in the region is the address of the MR itself. -/
theorem addr_of_inside (h : a.region.addr ≤ a.mr.addr % 2 ^ 64) :
    a.mr.addr % 2 ^ 64 = a.mr.addr := by
  obtain ⟨off, hoff, haddr⟩ := a.mr_addr
  omega

end RespAlloc

/-! ### The NIC's check -/

/-- What a response write makes of the client's memory.  The NIC executes it if it lies in the
region of its key, and refuses it otherwise. -/
def remoteWrite (regions : BitVec 32 → Option IbvMr) (w : Written) (mem : Mem) : Mem :=
  match regions w.rkey with
  | some mr =>
    if mr.addr ≤ w.addr.toNat ∧ w.addr.toNat + w.bytes.length ≤ mr.addr + mr.length then
      mem.write w.addr.toNat w.bytes
    else mem
  | none => mem

/-- No byte outside the range of `mr` is changed, whatever the memory holds. -/
def Confined (mr : IbvMr) (f : Mem → Mem) : Prop :=
  ∀ mem x, x < mr.addr ∨ mr.addr + mr.length ≤ x → f mem x = mem x

section
variable {regions : BitVec 32 → Option IbvMr} {w : Written} {a : RespAlloc}

/-- A response write to an MR, by its length. -/
theorem confined_remoteWrite_iff (hkey : regions w.rkey = some a.region)
    (haddr : w.addr = BitVec.ofNat 64 a.mr.addr) (hspace : a.regionEnd ≤ 2 ^ 64) :
    Confined a.mr (remoteWrite regions w) ↔ a.Separate ∨ w.bytes.length ≤ a.mr.length ∨
      a.regionEnd < a.mr.addr + w.bytes.length := by
  have hmod : w.addr.toNat = a.mr.addr % 2 ^ 64 := by rw [haddr, BitVec.toNat_ofNat]
  have hbegin : a.region.addr ≤ a.mr.addr := by
    obtain ⟨off, -, h⟩ := a.mr_addr
    omega
  simp only [RespAlloc.regionEnd] at hspace ⊢
  constructor
  · intro h
    by_contra hno
    obtain ⟨-, hlen, hend⟩ : ¬ a.Separate ∧ a.mr.length < w.bytes.length ∧
        a.mr.addr + w.bytes.length ≤ a.region.addr + a.region.length := by
      simpa only [not_or, Nat.not_le, Nat.not_lt] using hno
    -- the first byte after the MR is in the region, and written
    have hw : w.addr.toNat = a.mr.addr := by rw [hmod, Nat.mod_eq_of_lt (by omega)]
    obtain ⟨mem, hne⟩ := Mem.exists_write_ne (Nat.le_add_right a.mr.addr a.mr.length)
      (Nat.add_lt_add_left hlen a.mr.addr)
    have hx := h mem _ (.inr (Nat.le_refl (a.mr.addr + a.mr.length)))
    rw [remoteWrite, hkey] at hx
    dsimp only at hx
    rw [if_pos (by omega), hw] at hx
    exact hne hx
  · intro h mem x hx
    rw [remoteWrite, hkey]
    dsimp only
    split
    · next hin =>
      have hw : w.addr.toNat = a.mr.addr := by
        rw [hmod] at hin ⊢
        exact a.addr_of_inside hin.1
      refine Mem.write_of_outside ?_
      rcases h with h | h | h
      · rw [← h.mr_eq] at hin
        omega
      · omega
      · omega
    · rfl

end

namespace Net

section
variable {cfg : ServerCfg} {mem : Mem} {hosts : Nat → Mem} {tr : List Event} {n : Net} {q : QpNum}
  {p : Posted} {c : Client} {call : Call} {a : RespAlloc} {regions : BitVec 32 → Option IbvMr}

/-- **Confinement.**  A response write that is still to be executed is that of an answer of the
handler, to a request whose response goes to an MR as allocated.  It can change no byte outside the
MR just when the MR has a region of its own, or the answer is no longer than the slot, or it reaches
beyond the bulk region.  `regions` are the MRs registered at the client, by key. -/
theorem response_confined_iff (hreg : Server.regionSz cfg < 2 ^ 64)
    (hcon : Along step (fun n e => n.Contract e ∧ n.Fitting e) (init cfg mem hosts) tr)
    (hr : run step (init cfg mem hosts) tr = .ok n) (hsend : (q, p) ∈ n.server.sends)
    (hc : n.clients q = some c) (hcall : c.calls[p.origin.call]? = some call)
    (hresp : call.args.resp = a.mr) (hnull : call.args.respAddr = none)
    (hkey : regions a.mr.rkey = some a.region) (hspace : a.regionEnd ≤ 2 ^ 64) :
    ∃ ans ∈ n.answers, ans.origin = p.origin ∧
      (Confined a.mr (remoteWrite regions (n.response q p)) ↔ a.Separate ∨
        ans.bytes.length ≤ a.mr.length ∨ a.regionEnd < a.mr.addr + ans.bytes.length) := by
  obtain ⟨t, ans, hans, hw⟩ := (matched_run hreg hcon hr).serves.sends q p hsend
  refine ⟨ans, hans, hw.answer, ?_⟩
  have ht : c.ticket p.origin.call = some t := by
    rw [← hw.ticket, ticket, hw.qp, hc, Option.bind_some]
  obtain ⟨call', hcall', -, rfl⟩ := ticket_eq_some.mp ht
  obtain rfl : call = call' := Option.some.inj (hcall.symm.trans hcall')
  have hrkey : (n.response q p).rkey = a.mr.rkey := by rw [← hresp]; exact hw.rkey
  have haddr : (n.response q p).addr = BitVec.ofNat 64 a.mr.addr := by
    refine hw.target.trans ?_
    rw [Client.header, SendReq.target, hnull, Option.getD_none, hresp]
  have hbytes : (n.response q p).bytes = ans.bytes := hw.bytes
  rw [← hbytes]
  exact confined_remoteWrite_iff (hrkey ▸ hkey) haddr hspace

end

/-! ### A long answer -/

/-- Two responses of four bytes, in a bulk region at 128. -/
def twoSlots (i : Fin 2) : RespAlloc := .slot 128 0 5 4 2 i

/-- Two requests of four bytes, with their responses in the two slots. -/
def slotReq (i : Fin 2) : SendReq :=
  ⟨⟨64 + 32 * i, 16, 0, 0⟩, 4, (twoSlots i).mr, none, some 1, 0⟩

/-- The bulk region is all that is registered. -/
def bulkOnly (rkey : BitVec 32) : Option IbvMr :=
  if rkey = 5 then some (twoSlots 0).region else none

/-- Two requests are outstanding, and the first is answered with eight bytes. -/
def longAnswer : List Event :=
  [.sendReq 7 (slotReq 0) 0, .sendReq 7 (slotReq 1) 0, .transmit 7, .take 7, .place 7 16, .arrive 7,
    .server (.poll 0 1), .server (.handle 0), .server (.dispatch 0),
    .server (.handlerWrite 0 4096 [1, 2, 3, 4, 5, 6, 7, 8]), .answer 0 4096 8]

theorem run_longAnswer :
    ∃ n p c call, run step (init oneContext (fun _ => 0) fun _ _ => 0)
        ([.connect 7 0 8192] ++ longAnswer) = .ok n ∧
      Along step (fun n e => n.Contract e ∧ n.Fitting e) (init oneContext (fun _ => 0) fun _ _ => 0)
        ([.connect 7 0 8192] ++ longAnswer) ∧
      (7, p) ∈ n.server.sends ∧ n.clients 7 = some c ∧ c.calls[p.origin.call]? = some call ∧
      call.args = slotReq 0 ∧ (n.mem 0).read 132 4 = [0, 0, 0, 0] ∧
      (remoteWrite bulkOnly (n.response 7 p) (n.mem 0)).read 132 4 = [5, 6, 7, 8] := by
  have hend : Outcome.Ends (fun n : Net => (Keyed.pop 7 n.server.sends).any fun p =>
      (n.clients 7).any fun c => c.calls[p.1.origin.call]?.any fun call =>
        call.args = slotReq 0 ∧ (n.mem 0).read 132 4 = [0, 0, 0, 0] ∧
        (remoteWrite bulkOnly (n.response 7 p.1) (n.mem 0)).read 132 4 = [5, 6, 7, 8])
      (run step oneClient longAnswer) := by decide +kernel
  have hcon : Along step (fun n e => n.Contract e ∧ n.Fitting e) oneClient longAnswer := by
    decide +kernel
  obtain ⟨n, hn, h⟩ := Outcome.ends_iff.mp hend
  obtain ⟨⟨p, sends⟩, hp, h⟩ := (Option.any_eq_true _ _).mp h
  obtain ⟨c, hc, h⟩ := (Option.any_eq_true _ _).mp h
  obtain ⟨call, hcall, h⟩ := (Option.any_eq_true _ _).mp h
  exact ⟨n, p, c, call, run_append_eq_ok.mpr ⟨_, run_connect, hn⟩, along_connect ⟨trivial, trivial⟩ hcon,
    Keyed.mem_of_pop hp, hc, hcall, of_decide_eq_true h⟩

/-- The response of the first request is written over the slot of the second. -/
theorem response_overrun :
    ∃ n p, run step (init oneContext (fun _ => 0) fun _ _ => 0)
        ([.connect 7 0 8192] ++ longAnswer) = .ok n ∧ (7, p) ∈ n.server.sends ∧
      (∃ c call, n.clients 7 = some c ∧ c.calls[p.origin.call]? = some call ∧
        call.args = slotReq 0) ∧
      ¬ Confined (twoSlots 0).mr (remoteWrite bulkOnly (n.response 7 p)) ∧
      (n.mem 0).read (twoSlots 1).mr.addr (twoSlots 1).mr.length = [0, 0, 0, 0] ∧
      (remoteWrite bulkOnly (n.response 7 p) (n.mem 0)).read (twoSlots 1).mr.addr
        (twoSlots 1).mr.length = [5, 6, 7, 8] := by
  obtain ⟨n, p, c, call, hr, -, hp, hc, hcall, hargs, hold, hnew⟩ := run_longAnswer
  refine ⟨n, p, hr, hp, ⟨c, call, hc, hcall, hargs⟩, fun hconf => ?_, hold, hnew⟩
  have hsame : (remoteWrite bulkOnly (n.response 7 p) (n.mem 0)).read 132 4 =
      (n.mem 0).read 132 4 :=
    Mem.read_congr fun x hx _ => hconf (n.mem 0) x (.inr hx)
  rw [hold, hnew] at hsame
  exact absurd hsame (by decide)

/-- The answer is the long one, of eight bytes in a region of eight. -/
theorem response_confined_longAnswer :
    ∃ n p, run step (init oneContext (fun _ => 0) fun _ _ => 0)
        ([.connect 7 0 8192] ++ longAnswer) = .ok n ∧ (7, p) ∈ n.server.sends ∧
      ∃ ans ∈ n.answers, ans.origin = p.origin ∧
        (Confined (twoSlots 0).mr (remoteWrite bulkOnly (n.response 7 p)) ↔
          (twoSlots 0).Separate ∨ ans.bytes.length ≤ (twoSlots 0).mr.length ∨
            (twoSlots 0).regionEnd < (twoSlots 0).mr.addr + ans.bytes.length) := by
  obtain ⟨n, p, c, call, hr, hcon, hp, hc, hcall, hargs, -⟩ := run_longAnswer
  exact ⟨n, p, hr, hp, response_confined_iff (by decide) hcon hr hp hc hcall (by rw [hargs]; rfl)
    (by rw [hargs]; rfl) rfl (by decide)⟩

end Net

end RdmaRpc
