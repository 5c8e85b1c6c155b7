import RdmaRpc.Msg.Layout
import RdmaRpc.Lib.Tiles

/-!
# Msg — RoundTrip

Storing a message and reading it back.  The macros read the lengths where the message lies, and
agree with one another: what is stored at `KV_MSG_KEY` and `KV_MSG_VALUE` is read back from there,
the four parts of a message cover its `KV_MSG_SIZE` bytes (`store_laidOut`), and messages one after
another are split by it (`delimits`).
-/

namespace RdmaRpc
open Lib

/-- What a message says. -/
@[ext]
structure Message where
  type : UInt8
  hop : UInt16
  key : List UInt8
  value : List UInt8
  key_le : key.length ≤ 255
  value_lt : value.length < 2 ^ 32

namespace Message

def fields (x : Message) : KvMsg :=
  ⟨x.type, UInt8.ofNat x.key.length, x.hop, UInt32.ofNat x.value.length⟩

/-- The fields, and then the key and the value, in either order. -/
def store (x : Message) (keyFirst : Bool) (m : Mem) (msg : Nat) : Mem :=
  let m := m.write msg x.fields.bytes
  if keyFirst then
    let m := m.write (kvMsgKey msg) x.key
    m.write (kvMsgValue m msg) x.value
  else
    let m := m.write (kvMsgValue m msg) x.value
    m.write (kvMsgKey msg) x.key

/-- The fields, `key_len` bytes of the key and `value_len` bytes of the value. -/
def load (m : Mem) (msg : Nat) : Message where
  type := (kvMsg m msg).type
  hop := (kvMsg m msg).hop
  key := m.read (kvMsgKey msg) (kvMsg m msg).keyLen.toNat
  value := m.read (kvMsgValue m msg) (kvMsg m msg).valueLen.toNat
  key_le := by
    rw [Mem.length_read]
    exact Nat.le_of_lt_succ (kvMsg m msg).keyLen.toNat_lt
  value_lt := by
    rw [Mem.length_read]
    exact (kvMsg m msg).valueLen.toNat_lt

/-! ### What the memory holds -/

/-- The message lies at `msg`. -/
structure Holds (m : Mem) (msg : Nat) (x : Message) : Prop where
  fields : m.read msg sizeofKvMsg = x.fields.bytes
  key : m.read (kvMsgKey msg) x.key.length = x.key
  value : m.read (msg + sizeofKvMsg + x.fields.keySpace) x.value.length = x.value

section
variable {x : Message} {m m' : Mem} {msg a : Nat} {keyFirst : Bool}

theorem toNat_keyLen (x : Message) : x.fields.keyLen.toNat = x.key.length := by
  rw [fields, UInt8.toNat_ofNat']
  exact Nat.mod_eq_of_lt (Nat.lt_succ_of_le x.key_le)

theorem toNat_valueLen (x : Message) : x.fields.valueLen.toNat = x.value.length := by
  rw [fields, UInt32.toNat_ofNat']
  exact Nat.mod_eq_of_lt x.value_lt

theorem kvMsg_of_read {h : KvMsg} (hm : m.read msg sizeofKvMsg = h.bytes) : kvMsg m msg = h := by
  rw [kvMsg, hm, KvMsg.ofBytes_bytes]

theorem Holds.kvMsg_eq (h : Holds m msg x) : kvMsg m msg = x.fields := kvMsg_of_read h.fields

theorem Holds.kvMsgSize_eq (h : Holds m msg x) :
    kvMsgSize m msg = sizeofKvMsg + x.fields.keySpace + x.value.length := by
  rw [RdmaRpc.kvMsgSize_eq, h.kvMsg_eq, toNat_valueLen]

/-- What lies at `msg` is what is read there. -/
theorem Holds.load_eq (h : Holds m msg x) : load m msg = x := by
  have hf := h.kvMsg_eq
  ext1
  · exact congrArg KvMsg.type hf
  · exact congrArg KvMsg.hop hf
  · show m.read (kvMsgKey msg) (kvMsg m msg).keyLen.toNat = x.key
    rw [hf, toNat_keyLen, h.key]
  · show m.read (kvMsgValue m msg) (kvMsg m msg).valueLen.toNat = x.value
    rw [kvMsgValue, hf, toNat_valueLen, h.value]

theorem key_le_keySpace (x : Message) : x.key.length ≤ x.fields.keySpace :=
  x.toNat_keyLen ▸ x.fields.keyLen_le_keySpace

/-- Both orders come to the same three writes. -/
theorem store_eq (x : Message) (keyFirst : Bool) (m : Mem) (msg : Nat) :
    x.store keyFirst m msg =
      ((m.write msg x.fields.bytes).write (kvMsgKey msg) x.key).write
        (msg + sizeofKvMsg + x.fields.keySpace) x.value := by
  have hfields : (m.write msg x.fields.bytes).read msg sizeofKvMsg = x.fields.bytes := by
    rw [← x.fields.length_bytes, Mem.read_write_self]
  have hkey : ((m.write msg x.fields.bytes).write (kvMsgKey msg) x.key).read msg sizeofKvMsg =
      x.fields.bytes := by
    rw [Mem.read_write_of_disjoint (b := kvMsgKey msg) (.inl (Nat.le_refl _)), hfields]
  have hcomm := x.key_le_keySpace
  cases keyFirst
  · simp only [store, kvMsgValue, kvMsg_of_read hfields]
    exact Mem.write_comm (.inr (by rw [kvMsgKey]; omega))
  · simp only [store, kvMsgValue, kvMsg_of_read hkey]
    rfl

/-- What is stored lies there. -/
theorem holds_store : Holds (x.store keyFirst m msg) msg x := by
  have hspace := x.key_le_keySpace
  rw [store_eq]
  refine ⟨?_, ?_, Mem.read_write_self⟩
  · rw [Mem.read_write_of_disjoint (.inl (by omega)),
      Mem.read_write_of_disjoint (b := kvMsgKey msg) (.inl (Nat.le_refl _)),
      ← x.fields.length_bytes, Mem.read_write_self]
  · rw [Mem.read_write_of_disjoint (.inl (by rw [kvMsgKey]; omega)), Mem.read_write_self]

/-- Storing leaves what is outside of the message. -/
theorem store_of_outside (h : a < msg ∨ msg + sizeofKvMsg + x.fields.keySpace + x.value.length ≤ a) :
    x.store keyFirst m msg a = m a := by
  have hspace := x.key_le_keySpace
  have hlen := x.fields.length_bytes
  rw [store_eq, Mem.write_of_outside (by omega), Mem.write_of_outside (by rw [kvMsgKey]; omega),
    Mem.write_of_outside (by omega)]

/-! ### The parts of a message -/

/-- Where the fields, the key, the padding and the value of the message at `msg` begin, and where the
value ends. -/
def bound (m : Mem) (msg : Nat) : Nat → Nat
  | 0 => msg
  | 1 => kvMsgKey msg
  | 2 => kvMsgKey msg + (kvMsg m msg).keyLen.toNat
  | 3 => kvMsgValue m msg
  | _ => kvMsgValue m msg + (kvMsg m msg).valueLen.toNat

/-- The four parts. -/
def part (m : Mem) (msg i : Nat) : Set Nat := Set.Ico (bound m msg i) (bound m msg (i + 1))

theorem monotone_bound (m : Mem) (msg : Nat) : Monotone (bound m msg) := by
  refine monotone_nat_of_le_succ fun i => ?_
  match i with
  | 0 => exact Nat.le_add_right _ _
  | 1 => exact Nat.le_add_right _ _
  | 2 => exact Nat.add_le_add_left (kvMsg m msg).keyLen_le_keySpace _
  | 3 => exact Nat.le_add_right _ _
  | _ + 4 => exact Nat.le_refl _

/-- The parts end where the message does. -/
theorem bound_four (m : Mem) (msg : Nat) : bound m msg 4 = msg + kvMsgSize m msg := by
  show kvMsgValue m msg + (kvMsg m msg).valueLen.toNat = _
  rw [RdmaRpc.kvMsgSize_eq, kvMsgValue]
  simp only [Nat.add_assoc]

/-- The message has been stored at `msg`, and nothing else has changed. -/
structure LaidOut (x : Message) (m m' : Mem) (msg : Nat) : Prop where
  outside : ∀ a ∉ Set.Ico msg (msg + kvMsgSize m' msg), m' a = m a
  load : load m' msg = x
  disjoint : Pairwise (Function.onFun Disjoint (part m' msg))
  union : ⋃ i < 4, part m' msg i = Set.Ico msg (msg + kvMsgSize m' msg)
  size : kvMsgSize m' msg = sizeofKvMsg + (kvMsg m' msg).keySpace + x.value.length

theorem store_laidOut : LaidOut x m (x.store keyFirst m msg) msg := by
  have h : Holds (x.store keyFirst m msg) msg x := holds_store
  refine ⟨fun a ha => store_of_outside ?_, h.load_eq, ?_, ?_, ?_⟩
  · rw [h.kvMsgSize_eq, Set.mem_Ico] at ha
    omega
  · exact (monotone_bound _ _).pairwise_disjoint_on_Ico_succ
  · rw [← bound_four]
    exact biUnion_lt_Ico_succ (monotone_bound _ _) 4
  · rw [h.kvMsgSize_eq, h.kvMsg_eq]

/-! ### Messages one after another -/

/-- The bytes of a message, as they are after some storing of it. -/
def Stored (x : Message) (bs : List UInt8) : Prop :=
  ∃ keyFirst m msg, bs = (x.store keyFirst m msg).read msg (kvMsgSize (x.store keyFirst m msg) msg)

/-- The messages from `a` up to `e`, each advanced by its `KV_MSG_SIZE`. -/
def messages (m : Mem) (a e : Nat) : Option (List Message) := walk kvMsgSize load m a e

/-- A message lies wherever its bytes do. -/
theorem Holds.move {b : Nat} (h : Holds m msg x)
    (hm : m'.read b (kvMsgSize m msg) = m.read msg (kvMsgSize m msg)) : Holds m' b x := by
  have hspace := x.key_le_keySpace
  have hpart : ∀ k n, k + n ≤ kvMsgSize m msg → m'.read (b + k) n = m.read (msg + k) n := by
    intro k n hk
    rw [← Mem.read_part hk, hm, Mem.read_part hk]
  rw [h.kvMsgSize_eq] at hpart
  refine ⟨?_, ?_, ?_⟩
  · exact (hpart 0 _ (by omega)).trans h.fields
  · exact (hpart sizeofKvMsg _ (by omega)).trans h.key
  · have hvalue := hpart (sizeofKvMsg + x.fields.keySpace) x.value.length (Nat.le_refl _)
    rw [← Nat.add_assoc, ← Nat.add_assoc] at hvalue
    exact hvalue.trans h.value

theorem Stored.holds {bs : List UInt8} (h : Stored x bs) (hm : m.read a bs.length = bs) :
    Holds m a x ∧ kvMsgSize m a = bs.length := by
  obtain ⟨keyFirst, m₀, msg, rfl⟩ := h
  have h₀ : Holds (x.store keyFirst m₀ msg) msg x := holds_store
  rw [Mem.length_read] at hm
  have h := h₀.move hm
  refine ⟨h, ?_⟩
  rw [Mem.length_read, h.kvMsgSize_eq, h₀.kvMsgSize_eq]

theorem delimits : Delimits kvMsgSize load Stored where
  pos := by
    rintro x _ ⟨keyFirst, m, msg, rfl⟩
    rw [Mem.length_read, RdmaRpc.kvMsgSize_eq, sizeofKvMsg]
    omega
  size_eq h hm := (h.holds hm).2
  load_eq h hm := (h.holds hm).1.load_eq

/-- **Round trip.** -/
theorem kvMsg_roundTrip {xs : List Message} {bss : List (List UInt8)}
    (h : List.Forall₂ Stored xs bss) :
    (∀ x keyFirst m msg, LaidOut x m (x.store keyFirst m msg) msg) ∧
      (∀ m a, m.read a bss.flatten.length = bss.flatten →
        messages m a (a + bss.flatten.length) = some xs) ∧
      ∀ ys css, List.Forall₂ Stored ys css → css.flatten = bss.flatten → ys = xs ∧ css = bss :=
  ⟨fun _ _ _ _ => store_laidOut, fun _ _ hm => delimits.walk_flatten h hm,
    fun _ _ hy heq => delimits.unique hy h heq⟩

end

/-- A `KV_MSG_GET`, with three bytes of padding. -/
def getMsg : Message := ⟨1, 0, [1, 2, 3, 4, 5], [], by decide, by decide⟩

/-- A `KV_MSG_OK`, with a value. -/
def okMsg : Message := ⟨0, 2, [], [6, 7], by decide, by decide⟩

/-- The two are read back from a memory that holds them one after the other. -/
theorem kvMsg_roundTrip_two : ∃ bss, List.Forall₂ Stored [getMsg, okMsg] bss ∧
    bss.map List.length = [16, 10] ∧ messages (Mem.write (fun _ => 0) 64 bss.flatten) 64 90 =
      some [getMsg, okMsg] := by
  have h : List.Forall₂ Stored [getMsg, okMsg] _ :=
    .cons ⟨true, fun _ => 0, 0, rfl⟩ (.cons ⟨false, fun _ => 0, 0, rfl⟩ .nil)
  refine ⟨_, h, by decide, ?_⟩
  exact (kvMsg_roundTrip h).2.1 _ 64 Mem.read_write_self

end Message

end RdmaRpc
