import RdmaRpc.Cm.Outcomes
import RdmaRpc.Cm.Table

/-!
# Cm — Resources

When a connection is over (`received`), everything it holds should have been released, once
(`Tidy`).  `on_disconnect` does so; `on_connect_error` frees the record of a client and nothing else,
so that the resources are in order if and only if no connection was refused (`tidy_iff`).
-/

namespace RdmaRpc
open Lib

namespace Cm

variable {T : Uthash QpNum CmId ConnId}

/-- The events after which a connection holds nothing. -/
def terminal : List RdmaCmEventType := [.disconnected, .rejected, .unreachable]

/-- The connection `k` has received a terminal event. -/
def received (tr : List Event) (k : ConnId) : Bool :=
  tr.any fun
    | .event id e _ => id = k ∧ e ∈ terminal
    | _ => false

/-- What the connection `k` has been given, if there is one. -/
def given (s : Cm T) (k : ConnId) (kind : Kind) : Bool :=
  (s.started k).any fun st => acquired st (s.stage k) kind

/-- What is alive is what the connections hold that have received no terminal event, and what the
others held is released once.  Listeners aside. -/
structure Tidy (tr : List Event) (s : Cm T) : Prop where
  alive : ∀ k, s.started k ≠ some .listener → ∀ kind,
    s.alive k kind = (s.given k kind && !received tr k)
  released : ∀ k, s.started k ≠ some .listener → ∀ kind,
    s.released.count (kind, k) = (s.given k kind && received tr k).toNat
  connNum : kvRdmaConnNum s =
    ((List.range s.next).filter fun k => s.started k = some .accepted ∧ !received tr k).length

section
variable {s : Cm T} {k : Nat} {tr : List Event} {st : Started}

theorem received_iff :
    received tr k = true ↔ ∃ e ∈ terminal, ∃ q, .event k e q ∈ tr := by
  simp only [received, List.any_eq_true]
  constructor
  · rintro ⟨e, he, h⟩
    cases e with
    | event id e q =>
        obtain ⟨rfl, hterm⟩ := by simpa using h
        exact ⟨e, hterm, q, he⟩
    | _ => cases h
  · rintro ⟨e, hterm, q, he⟩
    exact ⟨_, he, by simpa using hterm⟩

/-- If no connection was refused, those that received a terminal event are the disconnected ones. -/
theorem received_eq (hl : s.Ledger) (ht : Told tr s) (hk : k < s.next)
    (hgood : ∀ k e q, .event k e q ∈ tr → e ≠ .rejected ∧ e ≠ .unreachable) :
    received tr k = decide (s.stage k = .disconnected) := by
  rw [Bool.eq_iff_iff, received_iff, decide_eq_true_iff]
  constructor
  · rintro ⟨e, hterm, q, he⟩
    obtain ⟨hrej, hunr⟩ := hgood k e q he
    obtain rfl : e = .disconnected := by simpa [terminal, hrej, hunr] using hterm
    rcases ht.past k .disconnected q he (by simp) with hg | ⟨-, hne⟩ | ⟨hg, -⟩
    · -- no attempt fails with `DISCONNECTED`
      obtain ⟨st, hst⟩ := Option.isSome_iff_exists.mp ((hl.known k).mpr hk)
      have hpos := (hl.conn k st hst).possible
      cases st <;> simp [possible, hg] at hpos
    · cases hne
    · exact hg
  · intro hg
    obtain ⟨q, he⟩ := ht.disconnected k hk hg
    exact ⟨.disconnected, by simp [terminal], q, he⟩

/-- What a connection that was not refused has lost again it has lost by being disconnected. -/
theorem freed_eq {g : Stage} {kind : Kind} (hrej : g ≠ .failed .rejected)
    (hunr : g ≠ .failed .unreachable) : freed st g kind = decide (g = .disconnected) := by
  cases kind <;> simp [freed, hrej, hunr]

theorem Ledger.mem_iff (hl : s.Ledger) : k ∈ T.items s.connections ↔
    k < s.next ∧ s.started k = some .accepted ∧ s.stage k ≠ .disconnected := by
  constructor
  · intro h
    have hst := hl.accepted_of_mem h
    have hentry := (hl.conn k _ hst).alive .entry
    refine ⟨(hl.known k).mp (by rw [hst]; rfl), hst, ?_⟩
    simpa [alive, acquired, freed, h] using hentry
  · rintro ⟨-, hst, hg⟩
    simpa [alive, acquired, freed, hg] using (hl.conn k _ hst).alive .entry

/-- The queue pairs bound the table: their numbers have 24 bits. -/
theorem count_connections_le (hn : s.Numbered) (ht : s.Tabled) :
    T.count s.connections ≤ 2 ^ 24 := by
  have hsub : (T.elems s.connections).map Uthash.Element.added ⊆ List.range (2 ^ 24) := by
    intro q hq
    obtain ⟨e, he, rfl⟩ := List.mem_map.mp hq
    exact List.mem_range.mpr (hn.small _ _ (ht.qp e he)).2
  rw [T.count_eq]
  simpa using (List.subperm_of_subset (ht.added_nodup hn) hsub).length_le

/-- The table has an element for each accepted connection that is not disconnected, and the counter
of 32 bits can hold their number. -/
theorem kvRdmaConnNum_eq (hl : s.Ledger) (hn : s.Numbered) (ht : s.Tabled) :
    kvRdmaConnNum s = ((List.range s.next).filter fun k =>
      s.started k = some .accepted ∧ s.stage k ≠ .disconnected).length := by
  have hperm : (T.items s.connections).Perm ((List.range s.next).filter fun k =>
      s.started k = some .accepted ∧ s.stage k ≠ .disconnected) := by
    refine (List.perm_ext_iff_of_nodup hl.nodup (List.nodup_range.filter _)).mpr fun k => ?_
    simpa using hl.mem_iff
  have hle := count_connections_le hn ht
  have hlen := hperm.length_eq
  rw [Uthash.length_items] at hlen
  rw [kvRdmaConnNum, u32, Nat.mod_eq_of_lt (by omega), hlen]

/-- **What the terminal events release.**  Everything a connection holds is released by its terminal
event if and only if no terminal event of the run is a refusal. -/
theorem tidy_iff (h : run step (init : Cm T) tr = .ok s) :
    Tidy tr s ↔ ∀ k e q, .event k e q ∈ tr → e ≠ .rejected ∧ e ≠ .unreachable := by
  have hl := ledger_run h
  have ht := told_run h
  obtain ⟨hn, htab⟩ := table_reach ⟨tr, h⟩
  constructor
  · -- the cm_id of a refused connection is still there
    intro htidy k e q he
    have hk := ht.known k e q he
    obtain ⟨st, hst⟩ := Option.isSome_iff_exists.mp ((hl.known k).mpr hk)
    have hat := hl.conn k st hst
    have hnot : ¬ (e = .rejected ∨ e = .unreachable) := by
      intro hbad
      have hrec : received tr k = true :=
        received_iff.mpr ⟨e, by rcases hbad with rfl | rfl <;> simp [terminal], q, he⟩
      have hg : s.stage k = .failed e := by
        rcases ht.past k e q he (by rcases hbad with rfl | rfl <;> simp [endings]) with
          hg | ⟨-, rfl⟩ | ⟨-, rfl | rfl⟩
        · exact hg
        all_goals simp at hbad
      have hne : s.started k ≠ some .listener := by
        intro hlis
        rw [hl.listening hlis] at hg
        cases hg
      have hid := htidy.alive k hne .cmId
      rw [hat.alive, hrec, hg] at hid
      simp [acquired, freed] at hid
    exact ⟨fun h => hnot (.inl h), fun h => hnot (.inr h)⟩
  · intro hgood
    have hfailed (k : Nat) (hk : k < s.next) :
        s.stage k ≠ .failed .rejected ∧ s.stage k ≠ .failed .unreachable :=
      ⟨fun hg => (ht.failed k hk _ hg).elim fun q he => (hgood k _ q he).1 rfl,
        fun hg => (ht.failed k hk _ hg).elim fun q he => (hgood k _ q he).2 rfl⟩
    have hblank (k : Nat) (hk : s.started k = none) : s.Blank k :=
      hl.blank k (Nat.le_of_not_lt fun hlt => by simpa [hk] using (hl.known k).mpr hlt)
    refine ⟨fun k _ kind => ?_, fun k _ kind => ?_, ?_⟩
    · cases hst : s.started k with
      | none => simp [given, hst, (hblank k hst).alive kind]
      | some st =>
          have hk : k < s.next := (hl.known k).mp (by simp [hst])
          obtain ⟨hrej, hunr⟩ := hfailed k hk
          rw [(hl.conn k st hst).alive, freed_eq hrej hunr, received_eq hl ht hk hgood]
          simp [given, hst]
    · cases hst : s.started k with
      | none => simp [given, hst, (hblank k hst).count kind]
      | some st =>
          have hk : k < s.next := (hl.known k).mp (by simp [hst])
          obtain ⟨hrej, hunr⟩ := hfailed k hk
          rw [(hl.conn k st hst).count, freed_eq hrej hunr, received_eq hl ht hk hgood]
          simp [given, hst]
    · rw [kvRdmaConnNum_eq hl hn htab]
      refine congrArg List.length (List.filter_congr fun k hk => ?_)
      rw [received_eq hl ht (List.mem_range.mp hk) hgood]
      simp

end

/-- Two clients come, and the first goes. -/
theorem tidy_twoClients :
    ∃ s, run step (init : Cm (.chained id)) [.listen 0 0, .connectRequest 0 17, .connectRequest 0 18,
        .event 1 .established 0, .event 1 .disconnected 0] = .ok s ∧
      Tidy [.listen 0 0, .connectRequest 0 17, .connectRequest 0 18, .event 1 .established 0,
        .event 1 .disconnected 0] s ∧ kvRdmaConnNum s = 1 := by
  obtain ⟨s, hs, hnum⟩ := Outcome.ends_iff.mp (show Outcome.Ends (fun s => kvRdmaConnNum s = 1)
    (run step (init : Cm (.chained id)) [.listen 0 0, .connectRequest 0 17, .connectRequest 0 18,
      .event 1 .established 0, .event 1 .disconnected 0]) from by decide)
  refine ⟨s, hs, (tidy_iff hs).mpr fun k e q he => ?_, hnum⟩
  obtain ⟨-, rfl, -⟩ | ⟨-, rfl, -⟩ := by simpa using he
  all_goals simp

/-- The server does not accept a client: its record is freed, and its queue pair, its cm_id and its
pool stay. -/
theorem rejected_leaks :
    ∃ s, run step (init : Cm (.chained id)) [.connect oneAttempt, .event 0 .addrResolved 9,
        .event 0 .routeResolved 0, .event 0 .rejected 0] = .ok s ∧
      ¬ Tidy [.connect oneAttempt, .event 0 .addrResolved 9, .event 0 .routeResolved 0,
        .event 0 .rejected 0] s ∧
      s.conns 0 = none ∧ s.qps 0 = some 9 ∧ s.ids 0 = some 0 ∧ s.pools 0 = true := by
  obtain ⟨s, hs, hst, hconn, hqp, hid, hpool⟩ := Outcome.ends_iff.mp (show Outcome.Ends
    (fun s => s.started 0 = some (.client oneAttempt) ∧ s.conns 0 = none ∧ s.qps 0 = some 9 ∧
      s.ids 0 = some 0 ∧ s.pools 0 = true)
    (run step (init : Cm (.chained id)) [.connect oneAttempt, .event 0 .addrResolved 9,
      .event 0 .routeResolved 0, .event 0 .rejected 0]) from by decide)
  refine ⟨s, hs, fun htidy => ?_, hconn, hqp, hid, hpool⟩
  have hlive := htidy.alive 0 (by rw [hst]; simp) .cmId
  simp [alive, hid, received, terminal] at hlive

end Cm

end RdmaRpc
