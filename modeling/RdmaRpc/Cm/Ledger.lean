import RdmaRpc.Cm.Machine

/-!
# Cm — Ledger

What a connection holds, what has been released, and which callbacks have been called, read off the
way the connection came to be and the stage of its cm_id (`At`).  The ledger is in order in every
state a run reaches (`ledger_run`), and no step of a connection that is there goes wrong.
-/

namespace RdmaRpc
open Lib

namespace Cm

variable {T : Uthash QpNum CmId ConnId}

def Started.isClient : Started → Bool
  | .client _ => true
  | _ => false

/-- What the connection has been given. -/
def acquired (st : Started) (g : Stage) : Kind → Bool
  | .record | .cmId => true
  | .qp => st = .accepted || st.isClient && g ≠ .resolvingAddr && g ≠ .failed .addrError
  | .pool => st.isClient
  | .entry => st = .accepted

/-- What has been taken from it again: `on_disconnect` takes everything, `on_connect_error` the
record of a client. -/
def freed (st : Started) (g : Stage) : Kind → Bool
  | .record =>
    g = .disconnected || st.isClient && (g = .failed .rejected || g = .failed .unreachable)
  | _ => g = .disconnected

/-- What there is of the connection. -/
def alive (s : Cm T) (k : ConnId) : Kind → Bool
  | .record => (s.conns k).isSome
  | .cmId => (s.ids k).isSome
  | .qp => (s.qps k).isSome
  | .pool => s.pools k
  | .entry => k ∈ T.items s.connections

/-- The stages a cm_id can be at, between two events. -/
def possible : Started → Stage → Bool
  | .listener, g => g = .listening
  | .client _, .failed e => e ∈ [.addrError, .routeError, .rejected, .unreachable, .connectError]
  | .client _, g => g ∈ [.resolvingAddr, .resolvingRoute, .connecting, .established, .disconnected]
  | .accepted, .failed e => e ∈ [.rejected, .unreachable, .connectError]
  | .accepted, g => g ∈ [.accepted, .established, .disconnected]

/-- The calls of the callback `connect`. -/
def reports (k : ConnId) : Started → Stage → List ConnectCall
  | .client args, .established | .client args, .disconnected =>
    (args.connect.map fun cb => ⟨k, cb, some k, args.connectArg⟩).toList
  | .client args, .failed .rejected | .client args, .failed .unreachable =>
    (args.connect.map fun cb => ⟨k, cb, none, args.connectArg⟩).toList
  | _, _ => []

/-- The calls of the callback `disconnect`. -/
def farewells (k : ConnId) : Started → Stage → List DisconnectCall
  | .client args, .disconnected =>
    (args.disconnect.map fun cb => ⟨k, cb, args.disconnectArg⟩).toList
  | _, _ => []

/-- The record of a connection that came to be so. -/
def RoleOf (k : ConnId) : Started → Role → Prop
  | .client args, .client args' mp => args' = args ∧ mp = k
  | .listener, .server .. | .accepted, .server .. => True
  | _, _ => False

/-- The connection `k` is as its stage says. -/
structure At (s : Cm T) (k : ConnId) (st : Started) : Prop where
  possible : possible st (s.stage k) = true
  alive : ∀ kind, s.alive k kind = (acquired st (s.stage k) kind && !freed st (s.stage k) kind)
  count : ∀ kind, s.released.count (kind, k) =
    (acquired st (s.stage k) kind && freed st (s.stage k) kind).toNat
  context : ∀ c, s.ids k = some c → c = k
  record : ∀ conn, s.conns k = some conn → conn.cmId = k ∧
    conn.qp = (if acquired st (s.stage k) .qp then some k else none) ∧ RoleOf k st conn.role
  connects : s.connects.filter (·.attempt = k) = reports k st (s.stage k)
  disconnects : s.disconnects.filter (·.conn = k) = farewells k st (s.stage k)

/-- There has been no connection `k`. -/
structure Blank (s : Cm T) (k : ConnId) : Prop where
  started : s.started k = none
  alive : ∀ kind, s.alive k kind = false
  count : ∀ kind, s.released.count (kind, k) = 0
  connects : s.connects.filter (·.attempt = k) = []
  disconnects : s.disconnects.filter (·.conn = k) = []

structure Ledger (s : Cm T) : Prop where
  known : ∀ k : Nat, (s.started k).isSome ↔ k < s.next
  blank : ∀ k : Nat, s.next ≤ k → s.Blank k
  conn : ∀ k st, s.started k = some st → s.At k st
  nodup : (T.items s.connections).Nodup

/-- The two states agree on the connection `k`. -/
structure SameAt (s s' : Cm T) (k : ConnId) : Prop where
  conns : s'.conns k = s.conns k
  ids : s'.ids k = s.ids k
  qps : s'.qps k = s.qps k
  pools : s'.pools k = s.pools k
  entry : k ∈ T.items s'.connections ↔ k ∈ T.items s.connections
  stage : s'.stage k = s.stage k
  started : s'.started k = s.started k
  released : ∀ kind, s'.released.count (kind, k) = s.released.count (kind, k)
  connects : s'.connects.filter (·.attempt = k) = s.connects.filter (·.attempt = k)
  disconnects : s'.disconnects.filter (·.conn = k) = s.disconnects.filter (·.conn = k)

section
variable {s s' : Cm T} {k j : Nat} {st : Started} {e : Event} {q : QpNum}

namespace SameAt

theorem alive (h : SameAt s s' k) (kind : Kind) : s'.alive k kind = s.alive k kind := by
  cases kind <;> simp only [Cm.alive, h.conns, h.ids, h.qps, h.pools, h.entry]

theorem at_iff (h : SameAt s s' k) (ha : s.At k st) : s'.At k st where
  possible := h.stage ▸ ha.possible
  alive := fun kind => by rw [h.alive, h.stage]; exact ha.alive kind
  count := fun kind => by rw [h.released, h.stage]; exact ha.count kind
  context := fun c hc => ha.context c (h.ids ▸ hc)
  record := fun conn hc => by rw [h.stage]; exact ha.record conn (h.conns ▸ hc)
  connects := by rw [h.connects, h.stage]; exact ha.connects
  disconnects := by rw [h.disconnects, h.stage]; exact ha.disconnects

theorem blank (h : SameAt s s' k) (hb : s.Blank k) : s'.Blank k where
  started := h.started.trans hb.started
  alive := fun kind => (h.alive kind).trans (hb.alive kind)
  count := fun kind => (h.released kind).trans (hb.count kind)
  connects := h.connects.trans hb.connects
  disconnects := h.disconnects.trans hb.disconnects

end SameAt

/-- A step of the connection `k` keeps the ledger, if it keeps the page of `k`. -/
theorem Ledger.step_of (hl : s.Ledger) (hsame : ∀ j ≠ k, SameAt s s' j) (hnext : s'.next = s.next)
    (hstarted : s'.started k = s.started k) (hk : s.started k = some st) (hat : s'.At k st)
    (hnd : (T.items s'.connections).Nodup) : s'.Ledger := by
  have hall : ∀ j, s'.started j = s.started j := fun j => by
    by_cases hj : j = k
    · subst hj; exact hstarted
    · exact (hsame j hj).started
  refine ⟨fun j => by rw [hall, hnext]; exact hl.known j, fun j hj => ?_, fun j st' hst' => ?_, hnd⟩
  · rw [hnext] at hj
    have hne : j ≠ k := by
      rintro rfl
      rw [(hl.blank j hj).started] at hk
      cases hk
    exact (hsame j hne).blank (hl.blank j hj)
  · rw [hall] at hst'
    by_cases hj : j = k
    · subst hj
      rw [hk, Option.some.injEq] at hst'
      exact hst' ▸ hat
    · exact (hsame j hj).at_iff (hl.conn j st' hst')

/-- So does a step that starts the connection `s.next`. -/
theorem Ledger.start_of (hl : s.Ledger) (st : Started)
    (hsame : ∀ j : Nat, j ≠ s.next → SameAt s s' j)
    (hnext : s'.next = s.next + 1) (hk : s'.started s.next = some st) (hat : s'.At s.next st)
    (hnd : (T.items s'.connections).Nodup) : s'.Ledger := by
  refine ⟨fun j => ?_, fun j hj => ?_, fun j st' hst' => ?_, hnd⟩
  · by_cases hj : j = s.next
    · subst hj; rw [hk, hnext]; simp
    · rw [(hsame j hj).started, hl.known, hnext]; omega
  · have hne : j ≠ s.next := by omega
    exact (hsame j hne).blank (hl.blank j (by omega))
  · by_cases hj : j = s.next
    · subst hj
      rw [hk, Option.some.injEq] at hst'
      exact hst' ▸ hat
    · rw [(hsame j hj).started] at hst'
      exact (hsame j hj).at_iff (hl.conn j st' hst')

theorem ledger_init : (init : Cm T).Ledger where
  known := fun k => by simp [init]
  blank := fun k _ => ⟨rfl, fun kind => by cases kind <;> simp [alive, init], fun _ => rfl, rfl, rfl⟩
  conn := fun k st h => by cases h
  nodup := by simp [init]

/-! ### What is there of a connection -/

namespace At

theorem ids_eq (ha : s.At k st) (h : s.stage k ≠ .disconnected) : s.ids k = some k := by
  have hsome := ha.alive .cmId
  simp only [Cm.alive, acquired, freed, h, decide_false, Bool.not_false, Bool.and_self] at hsome
  obtain ⟨c, hc⟩ := Option.isSome_iff_exists.mp hsome
  rw [hc, ha.context c hc]

theorem exists_conn (ha : s.At k st) (h : freed st (s.stage k) .record = false) :
    ∃ role, RoleOf k st role ∧
      s.conns k = some ⟨k, if acquired st (s.stage k) .qp then some k else none, role⟩ := by
  have hsome := ha.alive .record
  simp only [Cm.alive, acquired, h, Bool.not_false, Bool.and_self] at hsome
  obtain ⟨⟨id, qp, role⟩, hc⟩ := Option.isSome_iff_exists.mp hsome
  obtain ⟨hid, hqp, hrole⟩ := ha.record _ hc
  obtain rfl : id = k := hid
  obtain rfl : qp = _ := hqp
  exact ⟨role, hrole, hc⟩

theorem exists_client {args : ConnectArgs} (ha : s.At k (.client args))
    (h : freed (.client args) (s.stage k) .record = false) :
    ∃ qp, s.conns k = some ⟨k, qp, .client args k⟩ := by
  obtain ⟨role, hrole, hc⟩ := ha.exists_conn h
  cases role with
  | server handler arg => exact hrole.elim
  | client args' mp =>
      obtain ⟨rfl, rfl⟩ := hrole
      exact ⟨_, hc⟩

theorem exists_server (ha : s.At k st) (hst : st.isClient = false) (h : s.stage k ≠ .disconnected) :
    ∃ qp handler arg, s.conns k = some ⟨k, qp, .server handler arg⟩ := by
  obtain ⟨role, hrole, hc⟩ := ha.exists_conn (by simp [freed, h, hst])
  cases role with
  | server handler arg => exact ⟨_, handler, arg, hc⟩
  | client args mp => cases st <;> first | exact hrole.elim | cases hst

theorem exists_qp (ha : s.At k st) (h : s.stage k ≠ .disconnected)
    (hq : acquired st (s.stage k) .qp = true) : ∃ q, s.qps k = some q := by
  have hsome := ha.alive .qp
  simp only [Cm.alive, hq, freed, h, decide_false, Bool.not_false, Bool.and_self] at hsome
  exact Option.isSome_iff_exists.mp hsome

end At

/-! ### The calls of the application -/

theorem ledger_connect {args : ConnectArgs} (hl : s.Ledger) : (kvRdmaConnect s args).Ledger := by
  have hb := hl.blank s.next (Nat.le_refl _)
  refine hl.start_of (.client args) (fun j hj => ?_) rfl (by simp [kvRdmaConnect]) ?_ hl.nodup
  · constructor <;> simp [kvRdmaConnect, Function.update_of_ne hj]
  · have hqp := hb.alive .qp
    have hentry := hb.alive .entry
    simp only [alive, Option.isSome_eq_false_iff, Option.isNone_iff_eq_none,
      decide_eq_false_iff_not] at hqp hentry
    refine ⟨by simp [kvRdmaConnect, possible], fun kind => ?_, fun kind => ?_, fun c hc => ?_,
      fun conn hc => ?_, ?_, ?_⟩
    · cases kind <;> simp [alive, kvRdmaConnect, acquired, freed, Started.isClient, hqp, hentry]
    · rw [show (kvRdmaConnect s args).released = s.released from rfl, hb.count]
      cases kind <;> simp [kvRdmaConnect, acquired, freed, Started.isClient]
    · simpa [kvRdmaConnect, eq_comm] using hc
    · obtain rfl : _ = conn := by simpa [kvRdmaConnect] using hc
      exact ⟨rfl, by simp [kvRdmaConnect, acquired, Started.isClient], rfl, rfl⟩
    · simpa [kvRdmaConnect, reports] using hb.connects
    · simpa [kvRdmaConnect, farewells] using hb.disconnects

theorem ledger_listen {handler arg : Nat} (hl : s.Ledger) : (kvRdmaListen s handler arg).Ledger := by
  have hb := hl.blank s.next (Nat.le_refl _)
  refine hl.start_of .listener (fun j hj => ?_) rfl (by simp [kvRdmaListen]) ?_ hl.nodup
  · constructor <;> simp [kvRdmaListen, Function.update_of_ne hj]
  · have hqp := hb.alive .qp
    have hpool := hb.alive .pool
    have hentry := hb.alive .entry
    simp only [alive, Option.isSome_eq_false_iff, Option.isNone_iff_eq_none,
      decide_eq_false_iff_not] at hqp hpool hentry
    refine ⟨by simp [kvRdmaListen, possible], fun kind => ?_, fun kind => ?_, fun c hc => ?_,
      fun conn hc => ?_, ?_, ?_⟩
    · cases kind <;>
        simp [alive, kvRdmaListen, acquired, freed, Started.isClient, hqp, hpool, hentry]
    · rw [show (kvRdmaListen s handler arg).released = s.released from rfl, hb.count]
      cases kind <;> simp [kvRdmaListen, acquired, freed, Started.isClient]
    · simpa [kvRdmaListen, eq_comm] using hc
    · obtain rfl : _ = conn := by simpa [kvRdmaListen] using hc
      exact ⟨rfl, by simp [acquired, Started.isClient], trivial⟩
    · simpa [kvRdmaListen, reports] using hb.connects
    · simpa [kvRdmaListen, farewells] using hb.disconnects

theorem ledger_disconnect {c : ConnId} (hl : s.Ledger) (h : kvRdmaDisconnect s c = .ok s') :
    s'.Ledger := by
  obtain ⟨conn, -, h⟩ := Outcome.bind_eq_ok.mp h
  obtain ⟨_, -, h⟩ := Outcome.bind_eq_ok.mp h
  cases h
  exact ⟨hl.known, fun j hj => SameAt.blank (by constructor <;> simp) (hl.blank j hj),
    fun j st hst => SameAt.at_iff (by constructor <;> simp) (hl.conn j st hst), hl.nodup⟩

/-! ### The events -/

/-- A listener listens. -/
theorem Ledger.listening {l : Nat} (hl : s.Ledger) (h : s.started l = some .listener) :
    s.stage l = .listening := by
  simpa [possible] using (hl.conn l .listener h).possible

/-- A connection request is accepted. -/
theorem ledger_connectRequest {l : Nat} (hl : s.Ledger) (h : s.started l = some .listener) :
    ∃ s', rdmaCmPoller (request s l) s.next .connectRequest q = .ok s' ∧ s'.Ledger := by
  have hlistening := hl.listening h
  have hat := hl.conn l .listener h
  have hlt : l < s.next := (hl.known l).mp (by rw [h]; rfl)
  have hb := hl.blank s.next (Nat.le_refl _)
  obtain ⟨qp, handler, arg, hconn⟩ := hat.exists_server rfl (by rw [hlistening]; simp)
  have hids := hat.ids_eq (by rw [hlistening]; simp)
  refine ⟨_, onConnectRequest_eq (l := l) (by simp [request, hids])
    (show (request s l).conns l = _ from hconn) rfl, ?_⟩
  refine hl.start_of .accepted (fun j hj => ?_) rfl (by simp [request]) ?_ ?_
  · constructor <;> simp [request, hj]
  · have hpool : s.pools s.next = false := hb.alive .pool
    refine ⟨by simp [possible], fun kind => ?_, fun kind => ?_, fun c hc => ?_, fun conn hc => ?_,
      ?_, ?_⟩
    · cases kind <;>
        simp [alive, request, acquired, freed, Started.isClient, hpool]
    · refine (hb.count kind).trans ?_
      cases kind <;> simp [acquired, freed, Started.isClient]
    · simpa [eq_comm] using hc
    · obtain rfl : _ = conn := by simpa using hc
      exact ⟨rfl, by simp [acquired], trivial⟩
    · simpa [reports, request] using hb.connects
    · simpa [farewells, request] using hb.disconnects
  · have hnew : s.next ∉ T.items s.connections := by
      simpa [alive] using hb.alive .entry
    exact Uthash.items_add.nodup_iff.mpr (List.nodup_cons.mpr ⟨hnew, hl.nodup⟩)

/-- An event that only moves the cm_id on, to a stage with the same page. -/
theorem Ledger.moved {g : Stage} (hl : s.Ledger) (hk : s.started k = some st)
    (hp : possible st g = true) (hacq : ∀ kind, acquired st g kind = acquired st (s.stage k) kind)
    (hfreed : ∀ kind, freed st g kind = freed st (s.stage k) kind)
    (hrep : reports k st g = reports k st (s.stage k))
    (hfar : farewells k st g = farewells k st (s.stage k)) : (s.setStage k g).Ledger := by
  have hat := hl.conn k st hk
  refine hl.step_of (fun j hj => ?_) rfl rfl hk ?_ hl.nodup
  · constructor <;> simp [setStage, Function.update_of_ne hj]
  · have hg : (s.setStage k g).stage k = g := by simp [setStage]
    refine ⟨by rw [hg]; exact hp, fun kind => ?_, fun kind => ?_, hat.context, fun conn hc => ?_, ?_, ?_⟩
    · rw [hg, hacq, hfreed]; exact hat.alive kind
    · rw [hg, hacq, hfreed]; exact hat.count kind
    · rw [hg, hacq]; exact hat.record conn hc
    · rw [hg, hrep]; exact hat.connects
    · rw [hg, hfar]; exact hat.disconnects

/-- The queue pair of a client is made. -/
theorem ledger_addrResolved (hl : s.Ledger) (hk : s.started k = some st)
    (hg : s.stage k = .resolvingAddr) :
    ∃ s', rdmaCmPoller (s.setStage k .addrResolved) k .addrResolved q = .ok s' ∧ s'.Ledger := by
  have hat := hl.conn k st hk
  cases st with
  | listener => simpa [possible, hg] using hat.possible
  | accepted => simpa [possible, hg] using hat.possible
  | client args =>
  obtain ⟨qp, hconn⟩ := hat.exists_client (by simp [freed, hg])
  have hcreate := createConnetion_eq (s := s.setStage k .addrResolved) (q := q)
    (hat.ids_eq (by simp [hg])) hconn
  refine ⟨_, by simp only [rdmaCmPoller, onAddrResolved, hcreate, Outcome.ok_bind]; rfl, ?_⟩
  refine hl.step_of (fun j hj => ?_) rfl rfl hk ?_ hl.nodup
  · constructor <;> simp [rdmaResolveRoute, setStage, Function.update_of_ne hj]
  · refine ⟨by simp [rdmaResolveRoute, setStage, possible], fun kind => ?_, fun kind => ?_,
      hat.context, fun conn hc => ?_, ?_, ?_⟩
    · have hold := hat.alive kind
      cases kind <;>
        simp_all [Cm.alive, rdmaResolveRoute, setStage, acquired, freed, Started.isClient]
    · refine (hat.count kind).trans ?_
      cases kind <;> simp [hg, rdmaResolveRoute, setStage, acquired, freed]
    · obtain rfl : _ = conn := by simpa [rdmaResolveRoute, setStage] using hc
      exact ⟨rfl, by simp [rdmaResolveRoute, setStage, acquired, Started.isClient], rfl, rfl⟩
    · simpa [hg, rdmaResolveRoute, setStage, reports] using hat.connects
    · simpa [hg, rdmaResolveRoute, setStage, farewells] using hat.disconnects

/-- A client is refused: its record goes. -/
theorem ledger_refused {args : ConnectArgs} {e : RdmaCmEventType} (hl : s.Ledger)
    (hk : s.started k = some (.client args)) (hg : s.stage k = .connecting)
    (he : e = .rejected ∨ e = .unreachable) :
    ∃ s', onConnectError (s.setStage k (.failed e)) k = .ok s' ∧ s'.Ledger := by
  have hat := hl.conn k _ hk
  obtain ⟨qp, hconn⟩ := hat.exists_client (by simp [freed, hg])
  refine ⟨_, onConnectError_client (s := s.setStage k (.failed e)) (hat.ids_eq (by simp [hg])) hconn,
    ?_⟩
  refine hl.step_of (fun j hj => ?_) rfl rfl hk ?_ hl.nodup
  · have hne : k ≠ j := Ne.symm hj
    have hcall : ((args.connect.map fun cb => (⟨k, cb, none, args.connectArg⟩ : ConnectCall)).toList).filter
        (·.attempt = j) = [] := by
      cases args.connect <;> simp [hne]
    constructor <;> simp [setStage, Function.update_of_ne hj, List.filter_append, hcall,
      List.count_append, hne]
  · refine ⟨?_, fun kind => ?_, fun kind => ?_, hat.context, fun conn hc => ?_, ?_, ?_⟩
    · rcases he with rfl | rfl <;> simp [setStage, possible]
    · have hold := hat.alive kind
      rcases he with rfl | rfl <;> cases kind <;>
        simp_all [Cm.alive, setStage, acquired, freed, Started.isClient]
    · have hold := hat.count kind
      rcases he with rfl | rfl <;> cases kind <;>
        simp_all [setStage, acquired, freed, Started.isClient, List.count_append]
    · simp at hc
    · have hold := hat.connects
      rcases he with rfl | rfl <;> cases hcb : args.connect <;>
        simp_all [setStage, reports, List.filter_append]
    · have hold := hat.disconnects
      rcases he with rfl | rfl <;> simp_all [setStage, farewells]

/-- A client is connected. -/
theorem ledger_established {args : ConnectArgs} (hl : s.Ledger)
    (hk : s.started k = some (.client args)) (hg : s.stage k = .connecting) :
    ∃ s', onEstablished (s.setStage k .established) k = .ok s' ∧ s'.Ledger := by
  have hat := hl.conn k _ hk
  obtain ⟨qp, hconn⟩ := hat.exists_client (by simp [freed, hg])
  refine ⟨_, onEstablished_client (s := s.setStage k .established) (hat.ids_eq (by simp [hg])) hconn,
    ?_⟩
  refine hl.step_of (fun j hj => ?_) rfl rfl hk ?_ hl.nodup
  · have hne : k ≠ j := Ne.symm hj
    have hcall : ((args.connect.map fun cb =>
        (⟨k, cb, some k, args.connectArg⟩ : ConnectCall)).toList).filter (·.attempt = j) = [] := by
      cases args.connect <;> simp [hne]
    constructor <;> simp [setStage, Function.update_of_ne hj, List.filter_append, hcall]
  · refine ⟨by simp [setStage, possible], fun kind => ?_, fun kind => ?_, hat.context,
      fun conn hc => ?_, ?_, ?_⟩
    · have hold := hat.alive kind
      cases kind <;> simp_all [Cm.alive, setStage, acquired, freed, Started.isClient]
    · refine (hat.count kind).trans ?_
      cases kind <;> simp [hg, setStage, acquired, freed, Started.isClient]
    · have hold := hat.record conn hc
      simpa [hg, setStage, acquired, Started.isClient] using hold
    · have hold := hat.connects
      cases hcb : args.connect <;> simp_all [setStage, reports, List.filter_append]
    · simpa [hg, setStage, farewells] using hat.disconnects

theorem count_quadruple {kd : Kind} {a b c d : Kind} (hne : k ≠ j) :
    [(a, k), (b, k), (c, k), (d, k)].count (kd, j) = 0 :=
  List.count_eq_zero.mpr fun h => by simp [Ne.symm hne] at h

/-- A server connection goes. -/
theorem ledger_disconnected_server (hl : s.Ledger) (hk : s.started k = some .accepted)
    (hg : s.stage k = .accepted ∨ s.stage k = .established) :
    ∃ s', onDisconnect (s.setStage k .disconnected) k = .ok s' ∧ s'.Ledger := by
  have hat := hl.conn k _ hk
  have hne : s.stage k ≠ .disconnected := by rcases hg with hg | hg <;> simp [hg]
  obtain ⟨qp, handler, arg, hconn⟩ := hat.exists_server rfl hne
  obtain ⟨q, hq⟩ := hat.exists_qp hne (by simp [acquired])
  have hitem : k ∈ T.items s.connections := by
    simpa [Cm.alive, acquired, freed, hne] using hat.alive .entry
  refine ⟨_, onDisconnect_server (s := s.setStage k .disconnected) (hat.ids_eq hne) hconn hq hitem, ?_⟩
  refine hl.step_of (fun j hj => ?_) rfl rfl hk ?_ ?_
  · constructor <;> simp only [setStage, Function.update_of_ne hj, List.count_append,
      count_quadruple (Ne.symm hj), Uthash.mem_items_delete hitem hl.nodup]
    · simp [hj]
    · simp
  · refine ⟨by simp [setStage, possible], fun kind => ?_, fun kind => ?_, fun c hc => ?_,
      fun conn hc => ?_, ?_, ?_⟩
    · have hpool := hat.alive .pool
      simp only [Cm.alive, acquired, Started.isClient, Bool.false_and] at hpool
      cases kind <;> simp [Cm.alive, setStage, acquired, freed, Started.isClient, hpool,
        Uthash.mem_items_delete hitem hl.nodup]
    · have hold := hat.count kind
      cases kind <;>
        simp_all [setStage, acquired, freed, Started.isClient, List.count_append]
    · simp at hc
    · simp at hc
    · refine hat.connects.trans ?_
      simp [reports]
    · refine hat.disconnects.trans ?_
      simp [farewells]
  · exact Uthash.nodup_items_delete hitem hl.nodup

/-- A client connection goes. -/
theorem ledger_disconnected_client {args : ConnectArgs} (hl : s.Ledger)
    (hk : s.started k = some (.client args)) (hg : s.stage k = .established) :
    ∃ s', onDisconnect (s.setStage k .disconnected) k = .ok s' ∧ s'.Ledger := by
  have hat := hl.conn k _ hk
  have hne : s.stage k ≠ .disconnected := by simp [hg]
  obtain ⟨qp, hconn⟩ := hat.exists_client (by simp [freed, hg])
  obtain ⟨q, hq⟩ := hat.exists_qp hne (by simp [acquired, hg, Started.isClient])
  have hpool : s.pools k = true := by
    simpa [Cm.alive, acquired, freed, hne, Started.isClient] using hat.alive .pool
  refine ⟨_, onDisconnect_client (s := s.setStage k .disconnected) (hat.ids_eq hne) hconn hq hpool, ?_⟩
  refine hl.step_of (fun j hj => ?_) rfl rfl hk ?_ hl.nodup
  · have hcall : ((args.disconnect.map fun cb =>
        (⟨k, cb, args.disconnectArg⟩ : DisconnectCall)).toList).filter (·.conn = j) = [] := by
      cases args.disconnect <;> simp [Ne.symm hj]
    constructor <;> simp [setStage, Function.update_of_ne hj, List.count_append,
      count_quadruple (Ne.symm hj), List.filter_append, hcall]
  · refine ⟨by simp [setStage, possible], fun kind => ?_, fun kind => ?_, fun c hc => ?_,
      fun conn hc => ?_, ?_, ?_⟩
    · have hentry := hat.alive .entry
      simp only [Cm.alive, acquired, reduceCtorEq, decide_false, Bool.false_and] at hentry
      cases kind <;> simp_all [Cm.alive, setStage, acquired, freed, Started.isClient]
    · have hold := hat.count kind
      cases kind <;>
        simp_all [setStage, acquired, freed, Started.isClient, List.count_append]
    · simp at hc
    · simp at hc
    · simpa [hg, setStage, reports] using hat.connects
    · have hold := hat.disconnects
      cases hcb : args.disconnect <;> simp_all [setStage, farewells, List.filter_append]

section
variable {g g' : Stage}

theorem after_addrResolved (h : g.after .addrResolved = some g') :
    g = .resolvingAddr ∧ g' = .addrResolved := by
  cases g with
  | resolvingAddr => cases h; exact ⟨rfl, rfl⟩
  | _ => cases h

theorem after_routeResolved (h : g.after .routeResolved = some g') :
    g = .resolvingRoute ∧ g' = .routeResolved := by
  cases g with
  | resolvingRoute => cases h; exact ⟨rfl, rfl⟩
  | _ => cases h

theorem after_addrError (h : g.after .addrError = some g') :
    g = .resolvingAddr ∧ g' = .failed .addrError := by
  cases g with
  | resolvingAddr => cases h; exact ⟨rfl, rfl⟩
  | _ => cases h

theorem after_routeError (h : g.after .routeError = some g') :
    g = .resolvingRoute ∧ g' = .failed .routeError := by
  cases g with
  | resolvingRoute => cases h; exact ⟨rfl, rfl⟩
  | _ => cases h

/-- What ends the handshake. -/
theorem after_answer {e : RdmaCmEventType} (he : e ∈ [.rejected, .unreachable, .connectError])
    (h : g.after e = some g') : (g = .connecting ∨ g = .accepted) ∧ g' = .failed e := by
  simp only [List.mem_cons, List.not_mem_nil, or_false] at he
  rcases he with rfl | rfl | rfl
  all_goals
    cases g with
    | connecting => cases h; exact ⟨.inl rfl, rfl⟩
    | accepted => cases h; exact ⟨.inr rfl, rfl⟩
    | _ => cases h

theorem after_established (h : g.after .established = some g') :
    (g = .connecting ∨ g = .accepted) ∧ g' = .established := by
  cases g with
  | connecting => cases h; exact ⟨.inl rfl, rfl⟩
  | accepted => cases h; exact ⟨.inr rfl, rfl⟩
  | _ => cases h

theorem after_disconnected (h : g.after .disconnected = some g') :
    (g = .accepted ∨ g = .established) ∧ g' = .disconnected := by
  cases g with
  | accepted => cases h; exact ⟨.inl rfl, rfl⟩
  | established => cases h; exact ⟨.inr rfl, rfl⟩
  | _ => cases h

theorem after_other {n : Nat} (h : g.after (.other n) = some g') : g' = g := by
  cases g <;> cases h <;> rfl

end

/-- Only a client waits for the answer to its connect. -/
theorem At.client (ha : s.At k st) (h : s.stage k = .connecting) : ∃ args, st = .client args := by
  have hpos := ha.possible
  cases st <;> simp_all [Cm.possible]

theorem At.resolving (ha : s.At k st) (h : s.stage k = .resolvingAddr ∨ s.stage k = .resolvingRoute) :
    ∃ args, st = .client args := by
  have hpos := ha.possible
  rcases h with h | h <;> cases st <;> simp_all [Cm.possible]

theorem At.accepted (ha : s.At k st) (h : s.stage k = .accepted) : st = .accepted := by
  have hpos := ha.possible
  cases st <;> simp_all [Cm.possible]

/-- The events of a server connection that say how the handshake ended change nothing. -/
theorem ledger_answer_server {g : Stage} (hl : s.Ledger) (hk : s.started k = some .accepted)
    (hs : s.stage k = .accepted)
    (hg : g ∈ [.established, .failed .rejected, .failed .unreachable, .failed .connectError]) :
    (s.setStage k g).Ledger := by
  simp only [List.mem_cons, List.not_mem_nil, or_false] at hg
  refine hl.moved hk ?_ (fun kind => ?_) (fun kind => ?_) ?_ ?_
  · rcases hg with rfl | rfl | rfl | rfl <;> simp [possible]
  · rw [hs]; cases kind <;> simp [acquired]
  · rw [hs]
    rcases hg with rfl | rfl | rfl | rfl <;> cases kind <;> simp [freed, Started.isClient]
  · simp [reports]
  · simp [farewells]

/-- Nor do those of a client that the switch leaves out, nor the route it asked for. -/
theorem ledger_quiet_client {g : Stage} {args : ConnectArgs} (hl : s.Ledger)
    (hk : s.started k = some (.client args))
    (hg : (s.stage k, g) ∈ [(.resolvingAddr, .failed .addrError), (.resolvingRoute, .connecting),
      (.resolvingRoute, .failed .routeError), (.connecting, .failed .connectError)]) :
    (s.setStage k g).Ledger := by
  simp only [List.mem_cons, Prod.mk.injEq, List.not_mem_nil, or_false] at hg
  refine hl.moved hk ?_ (fun kind => ?_) (fun kind => ?_) ?_ ?_ <;>
    rcases hg with ⟨hs, rfl⟩ | ⟨hs, rfl⟩ | ⟨hs, rfl⟩ | ⟨hs, rfl⟩ <;>
    simp only [hs, possible, reports, farewells] <;> rfl

/-- A server connection that is refused stays as it is. -/
theorem ledger_refused_server {g : Stage} (hl : s.Ledger) (hk : s.started k = some st)
    (hs : s.stage k = .accepted) (hg : g ∈ [.failed .rejected, .failed .unreachable]) :
    ∃ s', onConnectError (s.setStage k g) k = .ok s' ∧ s'.Ledger := by
  have hat := hl.conn k st hk
  obtain rfl := hat.accepted hs
  obtain ⟨qp, handler, arg, hc⟩ := hat.exists_server rfl (by simp [hs])
  simp only [List.mem_cons, List.not_mem_nil, or_false] at hg
  refine ⟨_, onConnectError_server (s := s.setStage k g) (hat.ids_eq (by simp [hs])) hc,
    ledger_answer_server hl hk hs ?_⟩
  rcases hg with rfl | rfl <;> simp

/-- An event that librdmacm can deliver is handled, and the ledger stays in order. -/
theorem ledger_event {e : RdmaCmEventType} {g : Stage} (hl : s.Ledger) (hk : s.started k = some st)
    (hg : (s.stage k).after e = some g) :
    ∃ s', rdmaCmPoller (s.setStage k g) k e q = .ok s' ∧ s'.Ledger := by
  have hat := hl.conn k st hk
  have hpos := hat.possible
  cases e with
  | addrResolved =>
      obtain ⟨hs, rfl⟩ := after_addrResolved hg
      exact ledger_addrResolved hl hk hs
  | addrError =>
      obtain ⟨hs, rfl⟩ := after_addrError hg
      obtain ⟨args, rfl⟩ := hat.resolving (.inl hs)
      exact ⟨_, rfl, ledger_quiet_client hl hk (by simp [hs])⟩
  | routeResolved =>
      obtain ⟨hs, rfl⟩ := after_routeResolved hg
      obtain ⟨args, rfl⟩ := hat.resolving (.inr hs)
      refine ⟨s.setStage k .connecting, ?_, ledger_quiet_client hl hk (by simp [hs])⟩
      simp [rdmaCmPoller, onRouteResolved, rdmaConnect, setStage]
  | routeError =>
      obtain ⟨hs, rfl⟩ := after_routeError hg
      obtain ⟨args, rfl⟩ := hat.resolving (.inr hs)
      exact ⟨_, rfl, ledger_quiet_client hl hk (by simp [hs])⟩
  | connectRequest => cases hs : s.stage k <;> simp [Stage.after, hs] at hg
  | connectError =>
      obtain ⟨hs | hs, rfl⟩ := after_answer (by simp) hg
      · obtain ⟨args, rfl⟩ := hat.client hs
        exact ⟨_, rfl, ledger_quiet_client hl hk (by simp [hs])⟩
      · obtain rfl := hat.accepted hs
        exact ⟨_, rfl, ledger_answer_server hl hk hs (by simp)⟩
  | unreachable =>
      obtain ⟨hs | hs, rfl⟩ := after_answer (by simp) hg
      · obtain ⟨args, rfl⟩ := hat.client hs
        exact ledger_refused hl hk hs (.inr rfl)
      · exact ledger_refused_server hl hk hs (by simp)
  | rejected =>
      obtain ⟨hs | hs, rfl⟩ := after_answer (by simp) hg
      · obtain ⟨args, rfl⟩ := hat.client hs
        exact ledger_refused hl hk hs (.inl rfl)
      · exact ledger_refused_server hl hk hs (by simp)
  | established =>
      obtain ⟨hs | hs, rfl⟩ := after_established hg
      · obtain ⟨args, rfl⟩ := hat.client hs
        exact ledger_established hl hk hs
      · obtain rfl := hat.accepted hs
        obtain ⟨qp, handler, arg, hc⟩ := hat.exists_server rfl (by simp [hs])
        exact ⟨_, onEstablished_server (s := s.setStage k .established) (hat.ids_eq (by simp [hs])) hc,
          ledger_answer_server hl hk hs (by simp)⟩
  | disconnected =>
      obtain ⟨hs, rfl⟩ := after_disconnected hg
      cases st with
      | listener => rcases hs with hs | hs <;> simp [possible, hs] at hpos
      | accepted => exact ledger_disconnected_server hl hk hs
      | client args =>
          rcases hs with hs | hs
          · simp [possible, hs] at hpos
          · exact ledger_disconnected_client hl hk hs
  | other n =>
      obtain rfl := after_other hg
      have hsame : s.setStage k (s.stage k) = s := by simp [setStage]
      exact ⟨s, by rw [hsame]; rfl, hl⟩

theorem ledger_step (hl : s.Ledger) (h : step s e = .ok s') : s'.Ledger := by
  cases e with
  | connect args =>
      cases h
      exact ledger_connect hl
  | listen handler arg =>
      cases h
      exact ledger_listen hl
  | disconnect c => exact ledger_disconnect hl h
  | connectRequest l q =>
      obtain ⟨_, hreq, h⟩ := Outcome.bind_eq_ok.mp h
      obtain ⟨s₁, h₁, hl₁⟩ := ledger_connectRequest (q := q) hl (Outcome.require_eq_ok.mp hreq).1
      rw [h₁] at h
      cases h
      exact hl₁
  | event id e q =>
      obtain ⟨_, hreq, h⟩ := Outcome.bind_eq_ok.mp h
      obtain ⟨g, hg, h⟩ := Outcome.bind_eq_ok.mp h
      obtain ⟨st, hk⟩ := Option.isSome_iff_exists.mp (Outcome.require_eq_ok.mp hreq).1
      obtain ⟨s₁, h₁, hl₁⟩ := ledger_event (q := q) hl hk (Outcome.choose_eq_ok.mp hg)
      rw [h₁] at h
      cases h
      exact hl₁

theorem ledger_run {tr : List Event} (h : run step (init : Cm T) tr = .ok s) : s.Ledger :=
  run_invariant (P := Ledger) (fun _ _ _ => ledger_step) ledger_init h

end

end Cm

end RdmaRpc
