import RdmaRpc.Server.Places
import Mathlib.Data.List.Nodup

/-!
# Server — Connections

The connection records, the table `HASH_FIND` searches and the queue pairs.  Only a connection
request and the steps of a disconnect change them (`step_cm`), and they agree in every state the
server reaches (`Wired`).  A record has an entry in the table until `on_disconnect` begins with it,
and its queue pair until `rdma_destroy_qp`; no two records have the same queue pair.
-/

namespace RdmaRpc
open Lib

namespace Server

/-- The record of the connection `c` is there, with the queue pair `q`. -/
def HasQp (s : Server) (c : ConnId) (q : QpNum) : Prop :=
  ∃ conn, s.conns c = some conn ∧ conn.qp = some q

/-- The table, the records and the queue pairs agree. -/
structure Wired (s : Server) : Prop where
  entry : ∀ q c, (q, c) ∈ s.connections ↔ s.HasQp c q ∧ s.leaving.map Leaving.conn ≠ some c
  qp : ∀ q, q ∈ s.qps ↔ ∃ c, s.HasQp c q ∧ s.leaving ≠ some (.free c)
  inj : ∀ c c' q, s.HasQp c q → s.HasQp c' q → c = c'
  server : ∀ c conn, s.conns c = some conn → conn.isServer = true ∧ ∃ q, conn.qp = some q
  fresh : ∀ c, s.nextConn ≤ c → s.conns c = none
  leaving : ∀ l, s.leaving = some l → (s.conns l.conn).isSome

/-- The CM thread changes the connections. -/
def Event.cm : Event → Bool
  | .connectRequest _ | .disconnected _ | .destroyQp _ | .freeConn => true
  | _ => false

section
variable {s s' : Server} {e : Event} {q q' : QpNum} {c c' : ConnId} {conn : RdmaConnection}

/-- Only the CM thread changes the connections. -/
theorem step_cm (he : e.cm = false) (h : step s e = .ok s') :
    s'.connections = s.connections ∧ s'.conns = s.conns ∧ s'.qps = s.qps ∧
      s'.nextConn = s.nextConn ∧ s'.leaving = s.leaving := by
  cases e with
  | connectRequest q => cases he
  | disconnected c => cases he
  | destroyQp drop => cases he
  | freeConn => cases he
  | established c => obtain rfl := step_established h; exact ⟨rfl, rfl, rfl, rfl, rfl⟩
  | take q =>
      obtain ⟨-, -, j, sge, srq, -, rfl⟩ := step_take.mp h
      exact ⟨rfl, rfl, rfl, rfl, rfl⟩
  | place q bytes =>
      obtain ⟨t, taken, -, -, rfl⟩ := step_place.mp h
      exact ⟨rfl, rfl, rfl, rfl, rfl⟩
  | arrive q imm origin =>
      obtain ⟨t, taken, -, rfl⟩ := step_arrive.mp h
      exact ⟨rfl, rfl, rfl, rfl, rfl⟩
  | arriveFail q code fields junk origin =>
      obtain ⟨t, taken, -, rfl⟩ := step_arriveFail h
      exact ⟨rfl, rfl, rfl, rfl, rfl⟩
  | poll t k => obtain rfl := step_poll h; exact ⟨rfl, rfl, rfl, rfl, rfl⟩
  | handle t =>
      obtain ⟨-, e, cq, -, h⟩ := step_handle h
      rcases onCompletion_eq_ok h with ⟨-, -, rfl⟩ | ⟨-, -, -, -, rfl⟩ | ⟨-, rfl⟩ <;>
        exact ⟨rfl, rfl, rfl, rfl, rfl⟩
  | dispatch t =>
      obtain ⟨e, looked, c, conn, -, -, -, -, rfl⟩ := step_dispatch h
      exact ⟨rfl, rfl, rfl, rfl, rfl⟩
  | handlerWrite j addr bytes =>
      obtain ⟨-, -, -, rfl⟩ := step_handlerWrite h
      exact ⟨rfl, rfl, rfl, rfl, rfl⟩
  | answer j resp respSz =>
      obtain ⟨hd, held, c, conn, q, -, -, -, -, -, rfl⟩ := step_answer h
      exact ⟨rfl, rfl, rfl, rfl, rfl⟩
  | land q => obtain ⟨p, sends, -, rfl⟩ := step_land h; exact ⟨rfl, rfl, rfl, rfl, rfl⟩
  | writeDone q en =>
      obtain ⟨p, landed, -, rfl⟩ := step_writeDone h
      exact ⟨rfl, rfl, rfl, rfl, rfl⟩
  | flush q code fields =>
      obtain ⟨p, sends, -, rfl⟩ := step_flush h
      exact ⟨rfl, rfl, rfl, rfl, rfl⟩

/-- A record has one queue pair. -/
theorem HasQp.unique (h : s.HasQp c q) (h' : s.HasQp c q') : q = q' := by
  obtain ⟨conn, hc, hq⟩ := h
  obtain ⟨conn', hc', hq'⟩ := h'
  rw [hc] at hc'
  cases hc'
  exact Option.some.inj (hq.symm.trans hq')

theorem hasQp_congr (h : s'.conns = s.conns) : s'.HasQp c q ↔ s.HasQp c q := by
  rw [HasQp, HasQp, h]

/-- A record written, or freed. -/
theorem hasQp_update {x : Option RdmaConnection} (h : s'.conns = Function.update s.conns c x) :
    s'.HasQp c' q ↔ c' = c ∧ (∃ conn, x = some conn ∧ conn.qp = some q) ∨ c' ≠ c ∧ s.HasQp c' q := by
  rw [HasQp, h]
  by_cases hc : c' = c
  · subst hc
    simp
  · simp [HasQp, hc]

namespace Wired

/-- What is in the table is a queue pair that is there. -/
theorem mem_qps (hw : s.Wired) (h : (q, c) ∈ s.connections) : q ∈ s.qps := by
  obtain ⟨hq, hne⟩ := (hw.entry q c).mp h
  exact (hw.qp q).mpr ⟨c, hq, fun hl => hne (by rw [hl]; rfl)⟩

/-- A queue pair has one entry. -/
theorem entry_unique (hw : s.Wired) (h : (q, c) ∈ s.connections) (h' : (q, c') ∈ s.connections) :
    c = c' :=
  hw.inj c c' q ((hw.entry q c).mp h).1 ((hw.entry q c').mp h').1

theorem lookup_eq_some (hw : s.Wired) :
    s.connections.lookup q = some c ↔ (q, c) ∈ s.connections := by
  constructor
  · intro h
    obtain ⟨l₁, l₂, hl, -⟩ := List.lookup_eq_some_iff.mp h
    rw [hl]
    exact List.mem_append_right _ List.mem_cons_self
  · intro h
    cases hl : s.connections.lookup q with
    | none => exact absurd (List.lookup_eq_none_iff.mp hl _ h) (by simp)
    | some c' =>
        obtain ⟨l₁, l₂, hl', -⟩ := List.lookup_eq_some_iff.mp hl
        have hmem : (q, c') ∈ s.connections := by
          rw [hl']; exact List.mem_append_right _ List.mem_cons_self
        rw [hw.entry_unique h hmem]

/-- What is in the table has a live record. -/
theorem exists_record (hw : s.Wired) (h : (q, c) ∈ s.connections) :
    ∃ conn, s.conns c = some conn ∧ conn.qp = some q ∧ conn.isServer = true := by
  obtain ⟨conn, hc, hq⟩ := ((hw.entry q c).mp h).1
  exact ⟨conn, hc, hq, (hw.server c conn hc).1⟩

end Wired

theorem wired_init {cfg : ServerCfg} {mem : Mem} : (init cfg mem).Wired where
  entry := fun q c => by simp [init, HasQp]
  qp := fun q => by simp [init, HasQp]
  inj := fun c c' q h => by obtain ⟨conn, h, -⟩ := h; cases h
  server := fun c conn h => by cases h
  fresh := fun _ _ => rfl
  leaving := fun _ h => by cases h

theorem wired_connectRequest (hw : s.Wired) (h : step s (.connectRequest q) = .ok s') :
    s'.Wired := by
  obtain ⟨hq, hl, hs'⟩ := step_connectRequest h
  obtain ⟨-, -, htab, -, -, hleave, -⟩ := withRequests_frame s
  have hupd : s'.conns = Function.update s.conns s.nextConn
      (some ⟨true, some q, s.cfg.handler, s.cfg.arg⟩) := by rw [hs']
  have hleave : s'.leaving = none := by rw [hs', ← hl, ← hleave]
  have hqps : s'.qps = q :: s.qps := by rw [hs']
  have hconns : s'.connections = (q, s.nextConn) :: s.connections := by rw [hs']
  have hnext : s'.nextConn = s.nextConn + 1 := by rw [hs']
  -- the new record is at the next place of the heap, and its queue pair is new
  have hnew : ∀ q', ¬ s.HasQp s.nextConn q' := by
    rintro q' ⟨conn, hc, -⟩
    rw [hw.fresh _ (Nat.le_refl _)] at hc
    cases hc
  have hold : ∀ {c'}, ¬ s.HasQp c' q := fun hc => hq ((hw.qp q).mpr ⟨_, hc, by rw [hl]; nofun⟩)
  have hiff : ∀ {c' q'}, s'.HasQp c' q' ↔ c' = s.nextConn ∧ q' = q ∨ s.HasQp c' q' := by
    intro c' q'
    rw [hasQp_update hupd]
    by_cases hc : c' = s.nextConn
    · subst hc
      simp [hnew, eq_comm]
    · simp [hc]
  refine ⟨fun q' c' => ?_, fun q' => ?_, fun c₁ c₂ q' h₁ h₂ => ?_, fun c' conn hc => ?_,
    fun c' hc => ?_, fun l hl' => by rw [hleave] at hl'; cases hl'⟩
  · rw [hconns, hleave, hiff, List.mem_cons, hw.entry, hl]
    simp [and_comm]
  · rw [hqps, hleave, List.mem_cons, hw.qp, hl]
    simp [hiff, exists_or]
  · rcases hiff.mp h₁ with ⟨hc₁, hq₁⟩ | h₁ <;> rcases hiff.mp h₂ with ⟨hc₂, hq₂⟩ | h₂
    · exact hc₁.trans hc₂.symm
    · exact absurd (hq₁ ▸ h₂) hold
    · exact absurd (hq₂ ▸ h₁) hold
    · exact hw.inj c₁ c₂ q' h₁ h₂
  · rw [hupd] at hc
    by_cases hcn : c' = s.nextConn
    · subst hcn
      simp only [Function.update_self, Option.some.injEq] at hc
      subst hc
      exact ⟨rfl, q, rfl⟩
    · rw [Function.update_of_ne hcn] at hc
      exact hw.server c' conn hc
  · rw [hnext] at hc
    rw [hupd, Function.update_of_ne (Nat.ne_of_gt hc)]
    exact hw.fresh c' (Nat.le_of_succ_le hc)

/-- A disconnect begins: the entry of the record goes. -/
theorem Wired.disconnected (hw : s.Wired) (h : step s (.disconnected c) = .ok s') :
    s.leaving = none ∧ (∃ q, s.HasQp c q) ∧
      s' = { s with
        connections := s.connections.filter (·.2 ≠ c)
        leaving := some (.destroyQp c) } := by
  obtain ⟨hl, conn, hc, rfl⟩ := step_disconnected h
  obtain ⟨hsrv, q, hq⟩ := hw.server c conn hc
  refine ⟨hl, ⟨q, conn, hc, hq⟩, ?_⟩
  rw [hsrv]
  rfl

theorem wired_disconnected (hw : s.Wired) (h : step s (.disconnected c) = .ok s') : s'.Wired := by
  obtain ⟨hl, ⟨q, conn, hc, -⟩, rfl⟩ := hw.disconnected h
  refine ⟨fun q' c' => ?_, fun q' => ?_, hw.inj, hw.server, hw.fresh, fun l hl' => ?_⟩
  · simp only [List.mem_filter, decide_eq_true_eq, hw.entry, hl, Option.map_none, Option.map_some,
      Leaving.conn, ne_eq, reduceCtorEq, not_false_eq_true, and_true, Option.some.injEq]
    exact and_congr_right fun _ => not_congr eq_comm
  · simp only [hw.qp, hl, ne_eq, reduceCtorEq, not_false_eq_true, and_true, Option.some.injEq]
    rfl
  · cases hl'
    exact Option.isSome_iff_exists.mpr ⟨conn, hc⟩

theorem wired_destroyQp {drop : Bool} (hw : s.Wired) (h : step s (.destroyQp drop) = .ok s') :
    s'.Wired := by
  obtain ⟨c, conn, q, hl, hc, hq, rfl⟩ := step_destroyQp h
  have hcq : s.HasQp c q := ⟨conn, hc, hq⟩
  refine ⟨fun q' c' => ?_, fun q' => ?_, hw.inj, hw.server, hw.fresh, fun l hl' => ?_⟩
  · have := hw.entry q' c'
    rw [hl] at this
    exact this
  · simp only [rdmaDestroyQp, List.mem_filter, decide_eq_true_eq, hw.qp, hl, ne_eq, reduceCtorEq,
      not_false_eq_true, and_true, Option.some.injEq, Leaving.free.injEq]
    -- the queue pair of the record is that of no other one
    constructor
    · rintro ⟨⟨c', hc'⟩, hne⟩
      exact ⟨c', hc', fun heq => hne (hc'.unique (heq ▸ hcq))⟩
    · rintro ⟨c', hc', hne⟩
      exact ⟨⟨c', hc'⟩, fun heq => hne (hw.inj c c' q hcq (heq ▸ hc'))⟩
  · cases hl'
    exact Option.isSome_iff_exists.mpr ⟨conn, hc⟩

theorem wired_freeConn (hw : s.Wired) (h : step s .freeConn = .ok s') : s'.Wired := by
  obtain ⟨c, hl, hs'⟩ := step_freeConn h
  have hupd : s'.conns = Function.update s.conns c none := by rw [hs']
  have hiff : ∀ {c' q'}, s'.HasQp c' q' ↔ s.HasQp c' q' ∧ c ≠ c' := by
    intro c' q'
    rw [hasQp_update hupd]
    simp [and_comm, eq_comm]
  have hleave : s'.leaving = none := by rw [hs']
  have hnone : ∀ {c'}, s'.conns c' = if c' = c then none else s.conns c' := fun {c'} => by
    rw [hupd, Function.update_apply]
  refine ⟨fun q' c' => ?_, fun q' => ?_, fun c₁ c₂ q' h₁ h₂ => ?_, fun c' conn hc => ?_,
    fun c' hc => ?_, fun l hl' => by rw [hleave] at hl'; cases hl'⟩
  · have hconns : s'.connections = s.connections := by rw [hs']
    rw [hconns, hw.entry, hl, hleave, hiff]
    simp [Leaving.conn]
  · have hqps : s'.qps = s.qps := by rw [hs']
    rw [hqps, hw.qp, hl, hleave]
    simp [hiff]
  · exact hw.inj c₁ c₂ q' (hiff.mp h₁).1 (hiff.mp h₂).1
  · rw [hnone] at hc
    split at hc
    · cases hc
    · exact hw.server c' conn hc
  · rw [hnone]
    split
    · rfl
    · exact hw.fresh c' (by rw [hs'] at hc; exact hc)

theorem wired_step (hw : s.Wired) (h : step s e = .ok s') : s'.Wired := by
  cases he : e.cm with
  | true =>
      cases e with
      | connectRequest q => exact wired_connectRequest hw h
      | disconnected c => exact wired_disconnected hw h
      | destroyQp drop => exact wired_destroyQp hw h
      | freeConn => exact wired_freeConn hw h
      | _ => cases he
  | false =>
      obtain ⟨h₁, h₂, h₃, h₄, h₅⟩ := step_cm he h
      refine ⟨fun q c => ?_, fun q => ?_, fun c c' q => ?_, ?_, ?_, ?_⟩
      · rw [h₁, h₅, hasQp_congr h₂]
        exact hw.entry q c
      · simp only [h₃, h₅, hasQp_congr h₂]
        exact hw.qp q
      · rw [hasQp_congr h₂, hasQp_congr h₂]
        exact hw.inj c c' q
      · rw [h₂]
        exact hw.server
      · rw [h₂, h₄]
        exact hw.fresh
      · rw [h₂, h₅]
        exact hw.leaving

theorem wired_run {cfg : ServerCfg} {mem : Mem} {tr : List Event}
    (h : run step (init cfg mem) tr = .ok s) : s.Wired :=
  run_invariant (P := Wired) (fun _ _ _ hw hs => wired_step hw hs) wired_init h

end

end Server

end RdmaRpc
