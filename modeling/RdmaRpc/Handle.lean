import RdmaRpc.Cm.Table
import RdmaRpc.Server.Connections
import RdmaRpc.Client.Machine

/-!
# Handle

The connections of the server's machine and of a client's are those of a handle.  The two machines
have records of their own, and cut `on_disconnect` where its steps in `Cm.Table` end: whatever a
machine does, a handle can take steps to the same records, queue pairs and pools
(`Server.mirrors_run`, `Client.mirrors_run`).

The server's machine looks a connection up in a list of numbers and connections.  That is the search
of the table, also while a connection goes.
-/

namespace RdmaRpc
open Lib

variable {T : Uthash QpNum CmId ConnId}

namespace Cm

section
variable {s s' : Cm T} {k : Nat} {qp : Option CmId} {role : Role}

/-- The handler takes some steps. -/
theorem run_next {ms : List Micro} (todo : List Micro) (h : run Micro.exec s ms = .ok s') :
    run Walk.step ⟨s, ms ++ todo⟩ (List.replicate ms.length .next) = .ok ⟨s', todo⟩ := by
  induction ms generalizing s with
  | nil =>
      cases h
      rfl
  | cons m ms ih =>
      obtain ⟨s₁, h₁, h⟩ := Outcome.bind_eq_ok.mp h
      rw [List.length_cons, List.replicate_succ, run_cons]
      simp only [List.cons_append, Walk.step, h₁, Outcome.ok_bind, Outcome.pure_eq]
      exact ih h

/-- The listener `l` accepts a connection. -/
theorem run_accept {l : CmId} {q : QpNum} {handler arg : Nat} (hst : s.started l = some .listener)
    (hid : s.ids l = some l) (hc : s.conns l = some ⟨l, none, .server handler arg⟩)
    (hf : s.Fresh q) (hnew : s.qps s.next = none) :
    run Walk.step ⟨s, []⟩ (.connectRequest l q :: List.replicate 4 .next) = .ok ⟨{ request s l with
      conns := Function.update s.conns s.next (some ⟨s.next, some s.next, .server handler arg⟩)
      ids := Function.update (request s l).ids s.next (some s.next)
      qps := Function.update s.qps s.next (some q)
      connections := T.add q s.next s.next s.connections
      stage := Function.update (request s l).stage s.next .accepted }, []⟩ := by
  have hcall : Walk.step ⟨s, []⟩ (.connectRequest l q) = .ok ⟨request s l, acceptSteps s.next q⟩ := by
    simp [Walk.step, Outcome.require, hst]
  have haccept := onConnectRequest_eq (s := request s l) (q := q) (k := s.next)
    (by simp [request, hid]) hc rfl
  have hsteps := run_next [] (acceptSteps_run hf hnew haccept)
  rw [List.append_nil] at hsteps
  rw [run_cons, hcall]
  exact hsteps

/-- `on_disconnect` is called, for a connection that can be disconnected. -/
theorem step_disconnected (hst : (s.started k).isSome)
    (hg : (s.stage k).after .disconnected = some .disconnected) (hid : s.ids k = some k)
    (hc : s.conns k = some ⟨k, qp, role⟩) :
    Walk.step ⟨s, []⟩ (.disconnected k) = .ok ⟨s.setStage k .disconnected, leaveSteps k k⟩ := by
  have hctx : contextOf (s.setStage k .disconnected) k = .ok (k, ⟨k, qp, role⟩) := by
    simp [contextOf, setStage, hid, hc, Outcome.deref]
  simp [Walk.step, Outcome.require, Outcome.choose, hst, hg, hctx]

/-- The end of `on_disconnect`: the cm_id and the record go. -/
theorem run_last (hid : s.ids k = some k) (hc : s.conns k = some ⟨k, qp, role⟩) :
    ∃ s', run Micro.exec s [.destroyId k, .finish k] = .ok s' ∧
      s'.core = s.core ∧ s'.connections = s.connections ∧ s'.qps = s.qps ∧ s'.pools = s.pools ∧
      s'.ids = Function.update s.ids k none ∧ s'.conns = Function.update s.conns k none := by
  have hdestroy : Micro.exec s (.destroyId k) = .ok { s with
      ids := Function.update s.ids k none
      released := s.released ++ [(.cmId, k)] } := by
    simp [Micro.exec, rdmaDestroyId, hid, Outcome.deref]
  rw [run_cons, hdestroy, Outcome.ok_bind, run_singleton]
  simp only [Micro.exec, onDisconnectConn, hc, Outcome.deref, Outcome.ok_bind, Outcome.pure_eq]
  cases role <;> exact ⟨_, rfl, rfl, rfl, rfl, rfl, rfl, rfl⟩

end

end Cm

namespace Server
open Cm (Walk)

/-- What `on_disconnect` has still to do. -/
def leaveTodo : Leaving → List Cm.Micro
  | .destroyQp c => [.destroyQp (c + 1), .destroyId (c + 1), .finish (c + 1)]
  | .free c => [.destroyId (c + 1), .finish (c + 1)]

/-- The connection `c` of the server is the connection `c + 1` of the handle, whose first is the
listener. -/
structure Mirrors (s : Server) (w : Walk T) : Prop where
  next : w.cm.next = s.nextConn + 1
  todo : w.todo = s.leaving.elim [] leaveTodo
  started : w.cm.started 0 = some .listener
  listens : w.cm.ids 0 = some 0 ∧ w.cm.conns 0 = some ⟨0, none, .server s.cfg.handler s.cfg.arg⟩ ∧
    w.cm.qps 0 = none
  conns : ∀ c, w.cm.conns (c + 1) =
    (s.conns c).map fun conn => ⟨c + 1, some (c + 1), .server conn.handler conn.arg⟩
  ids : ∀ c, (s.conns c).isSome → w.cm.started (c + 1) = some .accepted ∧
    w.cm.ids (c + 1) = some (c + 1)
  stage : ∀ c, (s.conns c).isSome → s.leaving.map Leaving.conn ≠ some c →
    w.cm.stage (c + 1) = .accepted
  qps : ∀ c q, w.cm.qps (c + 1) = some q ↔ s.HasQp c q ∧ s.leaving ≠ some (.free c)
  once : s.connections.Nodup
  table : (T.elems w.cm.connections).Perm
    (s.connections.map fun p => ⟨p.1, p.2 + 1, p.2 + 1⟩)

section
variable {s s' : Server} {w : Walk T} {e : Event} {q : QpNum} {c : ConnId}

/-- A number that is free at the server is free at the handle. -/
theorem Mirrors.fresh (hm : s.Mirrors w) (hw : s.Wired) (hq : q ∉ s.qps) (hsmall : q < 2 ^ 24) :
    w.cm.Fresh q := by
  refine ⟨hsmall, fun id _ h => ?_⟩
  cases id with
  | zero =>
      rw [hm.listens.2.2] at h
      cases h
  | succ c => exact hq ((hw.qp q).mpr ⟨c, (hm.qps c q).mp h⟩)

/-- A number with no record has no queue pair at the handle. -/
theorem Mirrors.qps_eq_none (hm : s.Mirrors w) (hc : s.conns c = none) : w.cm.qps (c + 1) = none := by
  cases hq : w.cm.qps (c + 1) with
  | none => rfl
  | some q =>
      obtain ⟨⟨conn, hconn, -⟩, -⟩ := (hm.qps c q).mp hq
      rw [hc] at hconn
      cases hconn

theorem Mirrors.record {conn : RdmaConnection} (hm : s.Mirrors w) (hc : s.conns c = some conn) :
    w.cm.conns (c + 1) = some ⟨c + 1, some (c + 1), .server conn.handler conn.arg⟩ := by
  rw [hm.conns c, hc]
  rfl

/-- A connection is accepted. -/
theorem mirrors_connectRequest (hm : s.Mirrors w) (hw : s.Wired) (hsmall : q < 2 ^ 24)
    (h : step s (.connectRequest q) = .ok s') :
    ∃ tr w', run Walk.step w tr = .ok w' ∧ s'.Mirrors w' := by
  obtain ⟨hq, hl, hs'⟩ := step_connectRequest h
  obtain ⟨hcfg, hconns, htab, hnext, hleave⟩ : s'.cfg = s.cfg ∧
      s'.conns = Function.update s.conns s.nextConn (some ⟨true, some q, s.cfg.handler, s.cfg.arg⟩) ∧
      s'.connections = (q, s.nextConn) :: s.connections ∧ s'.nextConn = s.nextConn + 1 ∧
      s'.leaving = none := by
    obtain ⟨hcfg, -, -, -, -, hleave, -⟩ := withRequests_frame s
    rw [hs']
    exact ⟨hcfg, rfl, rfl, rfl, hleave.trans hl⟩
  have hfree := hw.fresh s.nextConn (Nat.le_refl _)
  obtain ⟨cm, todo⟩ := w
  obtain rfl : todo = [] := by simpa [hl] using hm.todo
  obtain ⟨hid₀, hconn₀, hqp₀⟩ : cm.ids 0 = some 0 ∧
      cm.conns 0 = some ⟨0, none, .server s.cfg.handler s.cfg.arg⟩ ∧ cm.qps 0 = none := hm.listens
  have hn : cm.next = s.nextConn + 1 := hm.next
  have hstarted : cm.started 0 = some .listener := hm.started
  have hnone : cm.qps cm.next = none := by
    rw [hn]
    exact hm.qps_eq_none hfree
  refine ⟨_, _, Cm.run_accept hstarted hid₀ hconn₀ (hm.fresh hw hq hsmall) hnone, ?_⟩
  have hne (c : Nat) (hc : c ≠ s.nextConn) : c + 1 ≠ cm.next := by rw [hn]; simpa using hc
  refine ⟨by simp [Cm.request, hn, hnext], by simp [hleave], by simp [Cm.request, hn, hstarted],
    by simp [Cm.request, hn, hid₀, hconn₀, hqp₀, hcfg], fun c => ?_, fun c hc => ?_,
    fun c hc hnl => ?_, fun c q' => ?_, ?_, ?_⟩
  · show Function.update cm.conns cm.next _ (c + 1) = _
    by_cases hc : c = s.nextConn
    · subst hc
      rw [hconns, ← hn, Function.update_self, Function.update_self]
      rfl
    · rw [hconns, Function.update_of_ne (hne c hc), Function.update_of_ne hc]
      exact hm.conns c
  · show Function.update cm.started cm.next _ (c + 1) = _ ∧
      Function.update (Function.update cm.ids cm.next _) cm.next _ (c + 1) = _
    by_cases hcn : c = s.nextConn
    · subst hcn
      rw [← hn, Function.update_self, Function.update_self]
      exact ⟨rfl, rfl⟩
    · rw [hconns, Function.update_of_ne hcn] at hc
      rw [Function.update_of_ne (hne c hcn), Function.update_of_ne (hne c hcn),
        Function.update_of_ne (hne c hcn)]
      exact hm.ids c hc
  · show Function.update (Function.update cm.stage cm.next _) cm.next _ (c + 1) = _
    by_cases hcn : c = s.nextConn
    · subst hcn
      rw [← hn, Function.update_self]
    · rw [hconns, Function.update_of_ne hcn] at hc
      rw [Function.update_of_ne (hne c hcn), Function.update_of_ne (hne c hcn)]
      exact hm.stage c hc (by simp [hl])
  · show Function.update cm.qps cm.next (some q) (c + 1) = _ ↔ _
    rw [hasQp_update hconns, hleave]
    by_cases hc : c = s.nextConn
    · subst hc
      rw [← hn, Function.update_self]
      simp
    · rw [Function.update_of_ne (hne c hc), hm.qps c q', hl]
      simp [hc]
  · rw [htab, List.nodup_cons]
    exact ⟨fun hmem => hq (hw.mem_qps hmem), hm.once⟩
  · show (T.elems (T.add q cm.next cm.next cm.connections)).Perm _
    rw [htab, List.map_cons, ← hn]
    exact (T.elems_add q cm.next cm.next _).trans (hm.table.cons _)

/-- What is in the table of the server is in that of the handle. -/
theorem Mirrors.mem_items (hm : s.Mirrors w) (h : (q, c) ∈ s.connections) :
    c + 1 ∈ T.items w.cm.connections := by
  rw [Uthash.items, (hm.table.map _).mem_iff, List.map_map]
  exact List.mem_map_of_mem h

/-- A connection is in one element. -/
theorem Mirrors.nodup_items (hm : s.Mirrors w) (hw : s.Wired) :
    (T.items w.cm.connections).Nodup := by
  rw [Uthash.items, (hm.table.map _).nodup_iff, List.map_map]
  refine hm.once.map_on fun p hp p' hp' heq => ?_
  obtain ⟨q, c⟩ := p
  obtain ⟨q', c'⟩ := p'
  obtain rfl : c = c' := Nat.succ.inj heq
  rw [((hw.entry q c).mp hp).1.unique ((hw.entry q' c).mp hp').1]

/-- The element of a connection goes. -/
theorem mirrors_disconnected (hm : s.Mirrors w) (hw : s.Wired)
    (h : step s (.disconnected c) = .ok s') :
    ∃ tr w', run Walk.step w tr = .ok w' ∧ s'.Mirrors w' := by
  obtain ⟨hl, ⟨q, conn, hc, hq⟩, rfl⟩ := hw.disconnected h
  have hsome : (s.conns c).isSome := Option.isSome_iff_exists.mpr ⟨conn, hc⟩
  have hmem : c + 1 ∈ T.items w.cm.connections :=
    hm.mem_items ((hw.entry q c).mpr ⟨⟨conn, hc, hq⟩, by simp [hl]⟩)
  have hdelete := T.elems_delete (c + 1) w.cm.connections hmem (hm.nodup_items hw)
  obtain ⟨hst, hid⟩ := hm.ids c hsome
  have hstage := hm.stage c hsome (by simp [hl])
  have hconn := hm.record hc
  obtain ⟨cm, todo⟩ := w
  obtain rfl : todo = [] := by simpa [hl] using hm.todo
  have hcall := Cm.step_disconnected (s := cm) (by rw [hst]; rfl) (by rw [hstage]; rfl) hid hconn
  have hnext : Walk.step ⟨cm.setStage (c + 1) .disconnected, Cm.leaveSteps (c + 1) (c + 1)⟩ .next =
      .ok ⟨{ cm.setStage (c + 1) .disconnected with
          connections := T.delete (c + 1) cm.connections
          released := cm.released ++ [(.entry, c + 1)] }, leaveTodo (.destroyQp c)⟩ := by
    have hdata := Cm.onDisconnectData_server (s := cm.setStage (c + 1) .disconnected) hid hconn hmem
    simp only [Walk.step, Cm.leaveSteps, Cm.Micro.exec, hdata, Outcome.ok_bind, Outcome.pure_eq]
    rfl
  refine ⟨[.disconnected (c + 1), .next], _,
    Outcome.bind_eq_ok.mpr ⟨_, hcall, run_singleton.trans hnext⟩, hm.next, rfl, hm.started,
    hm.listens, hm.conns, hm.ids, fun c' hc' hne => ?_, fun c' q' => ?_, hm.once.filter _, ?_⟩
  · have hcc : c' ≠ c := fun heq => hne (by rw [heq]; rfl)
    exact (Function.update_of_ne (fun heq => hcc (Nat.succ.inj heq)) _ _).trans
      (hm.stage c' hc' (by simp [hl]))
  · refine (hm.qps c' q').trans ?_
    rw [hl]
    exact and_congr_right fun _ => by simp
  · refine hdelete.trans ((hm.table.filter _).trans ?_)
    rw [List.filter_map]
    simp [Function.comp_def]

/-- The queue pair goes. -/
theorem mirrors_destroyQp {drop : Bool} (hm : s.Mirrors w)
    (h : step s (.destroyQp drop) = .ok s') :
    ∃ tr w', run Walk.step w tr = .ok w' ∧ s'.Mirrors w' := by
  obtain ⟨c, conn, q, hl, hc, hq, rfl⟩ := step_destroyQp h
  have hcq : w.cm.qps (c + 1) = some q := (hm.qps c q).mpr ⟨⟨conn, hc, hq⟩, by simp [hl]⟩
  obtain ⟨cm, todo⟩ := w
  obtain rfl : todo = leaveTodo (.destroyQp c) := by simpa [hl] using hm.todo
  have hnext : Walk.step ⟨cm, leaveTodo (.destroyQp c)⟩ .next =
      .ok ⟨{ cm with
          qps := Function.update cm.qps (c + 1) none
          released := cm.released ++ [(.qp, c + 1)] }, leaveTodo (.free c)⟩ := by
    simp only [Walk.step, leaveTodo, Cm.Micro.exec, Cm.rdmaDestroyQp_eq hcq, Outcome.ok_bind,
      Outcome.pure_eq]
  refine ⟨[.next], _, run_singleton.trans hnext, hm.next, rfl, hm.started, ?_, hm.conns, hm.ids,
    fun c' hc' hne => ?_, fun c' q' => ?_, hm.once, hm.table⟩
  · exact ⟨hm.listens.1, hm.listens.2.1, hm.listens.2.2⟩
  · exact hm.stage c' hc' (by rw [hl]; exact hne)
  · show Function.update cm.qps (c + 1) none (c' + 1) = some q' ↔ s.HasQp c' q' ∧ _
    by_cases hcc : c' = c
    · subst hcc
      simp
    · rw [Function.update_of_ne (fun heq => hcc (Nat.succ.inj heq))]
      refine (hm.qps c' q').trans (and_congr_right fun _ => ?_)
      rw [hl]
      simpa using Ne.symm hcc

/-- The cm_id and the record go. -/
theorem mirrors_freeConn (hm : s.Mirrors w) (hw : s.Wired) (h : step s .freeConn = .ok s') :
    ∃ tr w', run Walk.step w tr = .ok w' ∧ s'.Mirrors w' := by
  obtain ⟨c, hl, rfl⟩ := step_freeConn h
  obtain ⟨conn, hc⟩ := Option.isSome_iff_exists.mp (hw.leaving _ hl)
  have hid := (hm.ids c (hw.leaving _ hl)).2
  have hconn := hm.record (c := c) hc
  obtain ⟨cm, todo⟩ := w
  obtain rfl : todo = leaveTodo (.free c) := by simpa [hl] using hm.todo
  obtain ⟨cm', hrun, hcore, htab, hqps, -, hids, hconns⟩ := Cm.run_last hid hconn
  have hother {c' : ConnId} (hcc : c' ≠ c) : c' + 1 ≠ c + 1 := fun heq => hcc (Nat.succ.inj heq)
  have hleft {c' : ConnId} (hc' : (Function.update s.conns c none c').isSome) :
      c' ≠ c ∧ (s.conns c').isSome := by
    by_cases hcc : c' = c
    · subst hcc
      simp at hc'
    · rw [Function.update_of_ne hcc] at hc'
      exact ⟨hcc, hc'⟩
  simp only [Cm.core, Prod.mk.injEq] at hcore
  obtain ⟨hnext, hstarted, hstage⟩ := hcore
  refine ⟨_, ⟨cm', []⟩, Cm.run_next [] hrun, ?_⟩
  refine ⟨hnext.trans hm.next, rfl, by rw [hstarted]; exact hm.started, ?_, fun c' => ?_,
    fun c' hc' => ?_, fun c' hc' _ => ?_, fun c' q' => ?_, hm.once, by rw [htab]; exact hm.table⟩
  · rw [hids, hconns, hqps, Function.update_of_ne (Nat.succ_ne_zero c).symm,
      Function.update_of_ne (Nat.succ_ne_zero c).symm]
    exact hm.listens
  · show cm'.conns (c' + 1) = (Function.update s.conns c none c').map _
    rw [hconns]
    by_cases hcc : c' = c
    · subst hcc
      rw [Function.update_self, Function.update_self]
      rfl
    · rw [Function.update_of_ne (hother hcc), Function.update_of_ne hcc]
      exact hm.conns c'
  · obtain ⟨hcc, hc'⟩ := hleft hc'
    rw [hstarted, hids, Function.update_of_ne (hother hcc)]
    exact hm.ids c' hc'
  · obtain ⟨hcc, hc'⟩ := hleft hc'
    rw [hstage]
    exact hm.stage c' hc' (by rw [hl]; exact fun heq => hcc (Option.some.inj heq).symm)
  · rw [hqps]
    refine ((hm.qps c' q').trans ?_).trans (and_congr_left' (hasQp_update rfl).symm)
    rw [hl]
    constructor
    · rintro ⟨hq, hne⟩
      exact ⟨.inr ⟨fun heq => hne (by rw [heq]), hq⟩, by simp⟩
    · rintro ⟨⟨-, _, hnone, -⟩ | ⟨hcc, hq⟩, -⟩
      · cases hnone
      · exact ⟨hq, fun heq => hcc (by cases heq; rfl)⟩

/-- Any other event leaves the connections, and the handle does nothing.  That a connection is
established changes nothing on the server's side. -/
theorem Mirrors.frame (hm : s.Mirrors w) (he : e.cm = false) (h : step s e = .ok s') :
    s'.Mirrors w := by
  obtain ⟨htab, hconns, -, hnext, hl⟩ := step_cm he h
  have hcfg := (step_frame h).1
  refine ⟨by rw [hnext]; exact hm.next, by rw [hl]; exact hm.todo, hm.started,
    by rw [hcfg]; exact hm.listens, by rw [hconns]; exact hm.conns, by rw [hconns]; exact hm.ids,
    by rw [hconns, hl]; exact hm.stage, fun c q => ?_, by rw [htab]; exact hm.once,
    by rw [htab]; exact hm.table⟩
  rw [hasQp_congr hconns, hl]
  exact hm.qps c q

/-- A step of the server is a run of the handle. -/
theorem mirrors_step (hm : s.Mirrors w) (hw : s.Wired)
    (hsmall : ∀ q, e = .connectRequest q → q < 2 ^ 24) (h : step s e = .ok s') :
    ∃ tr w', run Walk.step w tr = .ok w' ∧ s'.Mirrors w' := by
  cases he : e.cm with
  | true =>
      cases e with
      | connectRequest q => exact mirrors_connectRequest hm hw (hsmall q rfl) h
      | disconnected c => exact mirrors_disconnected hm hw h
      | destroyQp drop => exact mirrors_destroyQp hm h
      | freeConn => exact mirrors_freeConn hm hw h
      | _ => cases he
  | false => exact ⟨[], w, rfl, hm.frame he h⟩

/-- The handle that listens as the server does. -/
theorem mirrors_init (T : Uthash QpNum CmId ConnId) (cfg : ServerCfg) (mem : Mem) :
    (init cfg mem).Mirrors (⟨Cm.init.kvRdmaListen cfg.handler cfg.arg, []⟩ : Walk T) where
  next := rfl
  todo := rfl
  started := rfl
  listens := ⟨rfl, rfl, rfl⟩
  conns := fun _ => rfl
  ids := fun _ h => by cases h
  stage := fun _ h => by cases h
  qps := fun c q => by simp [init, HasQp, Cm.init, Cm.kvRdmaListen]
  once := List.nodup_nil
  table := by
    rw [show (Cm.init.kvRdmaListen cfg.handler cfg.arg).connections = T.empty from rfl, T.elems_empty]
    exact .refl _

/-- The lookup of the server is the search of the table, also while a connection goes. -/
theorem Mirrors.hashFind_eq (hm : s.Mirrors w) (hw : s.Wired) (q : QpNum) :
    Cm.hashFind w.cm q = .ok ((s.connections.lookup q).map (· + 1)) := by
  have hmem (e) : e ∈ T.elems w.cm.connections ↔
      ∃ q c, (q, c) ∈ s.connections ∧ ⟨q, c + 1, c + 1⟩ = e := by
    rw [hm.table.mem_iff, List.mem_map, Prod.exists]
  -- each key is still what it was when the element was added
  have hread : ∀ e ∈ T.elems w.cm.connections,
      Outcome.deref (Cm.Misuse.gone .qp) (w.cm.qps e.key) = .ok e.added := by
    intro e he
    obtain ⟨q', c, hc, rfl⟩ := (hmem e).mp he
    obtain ⟨hq, hne⟩ := (hw.entry q' c).mp hc
    exact Outcome.deref_eq_ok.mpr ((hm.qps c q').mpr ⟨hq, fun hl => hne (by rw [hl]; rfl)⟩)
  have hnd : ((T.elems w.cm.connections).map Uthash.Element.added).Nodup := by
    rw [(hm.table.map _).nodup_iff, List.map_map]
    refine hm.once.map_on fun p hp p' hp' heq => ?_
    obtain ⟨q', c⟩ := p
    obtain ⟨q'', c'⟩ := p'
    obtain rfl : q' = q'' := heq
    rw [hw.entry_unique hp hp']
  obtain ⟨r, hr, hiff⟩ := T.find_exact
    (fun qp => Outcome.deref (Cm.Misuse.gone .qp) (w.cm.qps qp)) q w.cm.connections hread hnd
  rw [Cm.hashFind, hr]
  congr 1
  ext k
  rw [hiff, Option.map_eq_some_iff]
  constructor
  · rintro ⟨e, he, rfl, rfl⟩
    obtain ⟨q', c, hc, rfl⟩ := (hmem e).mp he
    exact ⟨c, hw.lookup_eq_some.mpr hc, rfl⟩
  · rintro ⟨c, hc, rfl⟩
    exact ⟨_, (hmem _).mpr ⟨q, c, hw.lookup_eq_some.mp hc, rfl⟩, rfl, rfl⟩

/-- **The server's connections are those of a handle**: whatever the server does, the handle that
listens as it does can take steps to the same records, queue pairs and table, and a search of this
table finds what the server looks up. -/
theorem mirrors_run (T : Uthash QpNum CmId ConnId) {cfg : ServerCfg} {mem : Mem} {tr : List Event}
    (hsmall : ∀ q, .connectRequest q ∈ tr → q < 2 ^ 24) (h : run step (init cfg mem) tr = .ok s) :
    ∃ tr' w, run Walk.step (⟨Cm.init, []⟩ : Walk T) tr' = .ok w ∧ s.Mirrors w ∧
      ∀ q, Cm.hashFind w.cm q = .ok ((s.connections.lookup q).map (· + 1)) := by
  have hlisten : run Walk.step (⟨Cm.init, []⟩ : Walk T) [.other (.listen cfg.handler cfg.arg)] =
      .ok ⟨Cm.init.kvRdmaListen cfg.handler cfg.arg, []⟩ := rfl
  obtain ⟨hw, tr', w, hr, hm⟩ := run_invariant_along
    (P := fun s => s.Wired ∧
      ∃ tr' w, run Walk.step (⟨Cm.init, []⟩ : Walk T) tr' = .ok w ∧ s.Mirrors w)
    (Q := fun _ e => ∀ q, e = .connectRequest q → q < 2 ^ 24)
    (fun s₁ e s₂ ⟨hw, tr₁, w₁, hr₁, hm⟩ hsmall h => by
      obtain ⟨tr₂, w₂, hr₂, hm₂⟩ := mirrors_step hm hw hsmall h
      exact ⟨wired_step hw h, tr₁ ++ tr₂, w₂, run_append_eq_ok.mpr ⟨w₁, hr₁, hr₂⟩, hm₂⟩)
    ⟨wired_init, _, _, hlisten, mirrors_init T cfg mem⟩
    (along_of_forall fun _ e he q heq => by subst heq; exact hsmall q he) h
  exact ⟨tr', w, hr, hm, hm.hashFind_eq hw⟩

end

end Server

namespace Client
open Cm (Walk)

/-- What `on_disconnect` has still to do. -/
def leaveTodo : Stage → ConnId → List Cm.Micro
  | .up, _ | .freed, _ => []
  | .poolFreed, k => [.destroyQp k, .destroyId k, .finish k]
  | .qpDestroyed, k => [.destroyId k, .finish k]

/-- The client connection is the connection `k` of the handle. -/
structure Mirrors (c : Client) (k : ConnId) (w : Walk T) : Prop where
  todo : w.todo = leaveTodo c.stage k
  started : (w.cm.started k).isSome
  stage : c.stage = .up → w.cm.stage k = .established
  record : c.stage ≠ .freed →
    w.cm.ids k = some k ∧ ∃ args, w.cm.conns k = some ⟨k, some k, .client args k⟩
  freed : c.stage = .freed → w.cm.ids k = none ∧ w.cm.conns k = none
  pool : w.cm.pools k = true ↔ c.stage = .up
  qp : ∀ q, w.cm.qps k = some q ↔ q = c.qp ∧ (c.stage = .up ∨ c.stage = .poolFreed)

section
variable {c c' : Client} {s s' : Client × Mem} {k : ConnId} {w : Walk T} {e : Event}

theorem Mirrors.same (hm : c.Mirrors k w) (hs : c'.stage = c.stage) (hq : c'.qp = c.qp) :
    c'.Mirrors k w := by
  obtain ⟨htodo, hstarted, hstage, hrec, hfreed, hpool, hqp⟩ := hm
  exact ⟨by rw [hs]; exact htodo, hstarted, by rw [hs]; exact hstage, by rw [hs]; exact hrec,
    by rw [hs]; exact hfreed, by rw [hs]; exact hpool, by rw [hs, hq]; exact hqp⟩

/-- The pool goes. -/
theorem mirrors_disconnected (hm : c.Mirrors k w) (h : react c .disconnected = .ok c') :
    ∃ tr w', run Walk.step w tr = .ok w' ∧ c'.Mirrors k w' := by
  obtain ⟨hup, rfl⟩ := react_disconnected h
  obtain ⟨hid, args, hconn⟩ := hm.record (by simp [hup])
  have hstage := hm.stage hup
  have hst := hm.started
  obtain ⟨cm, todo⟩ := w
  obtain rfl : todo = [] := by simpa [hup, leaveTodo] using hm.todo
  have hcall := Cm.step_disconnected (s := cm) hst (by rw [hstage]; rfl) hid hconn
  have hdata := Cm.onDisconnectData_client (s := cm.setStage k .disconnected) hid hconn
    (hm.pool.mpr hup)
  have hnext : Walk.step ⟨cm.setStage k .disconnected, Cm.leaveSteps k k⟩ .next =
      .ok ⟨{ cm.setStage k .disconnected with
          pools := Function.update cm.pools k false
          released := cm.released ++ [(.pool, k)] }, leaveTodo .poolFreed k⟩ := by
    simp only [Walk.step, Cm.leaveSteps, Cm.Micro.exec, hdata, Outcome.ok_bind, Outcome.pure_eq]
    rfl
  refine ⟨[.disconnected k, .next], _,
    Outcome.bind_eq_ok.mpr ⟨_, hcall, run_singleton.trans hnext⟩, rfl, hst, by simp,
    fun _ => ⟨hid, args, hconn⟩, by simp, ?_, fun q => ?_⟩
  · show Function.update cm.pools k false k = true ↔ _
    simp
  · refine (hm.qp q).trans ?_
    simp [hup]

/-- The queue pair goes. -/
theorem mirrors_destroyQp {drop : Bool} (hm : c.Mirrors k w)
    (h : react c (.destroyQp drop) = .ok c') :
    ∃ tr w', run Walk.step w tr = .ok w' ∧ c'.Mirrors k w' := by
  obtain ⟨hpf, rfl⟩ := react_destroyQp h
  have hrec := hm.record (by simp [hpf])
  have hq : w.cm.qps k = some c.qp := (hm.qp c.qp).mpr ⟨rfl, .inr hpf⟩
  have hpool := hm.pool
  have hst := hm.started
  obtain ⟨cm, todo⟩ := w
  obtain rfl : todo = leaveTodo .poolFreed k := by simpa [hpf] using hm.todo
  have hnext : Walk.step ⟨cm, leaveTodo .poolFreed k⟩ .next =
      .ok ⟨{ cm with
          qps := Function.update cm.qps k none
          released := cm.released ++ [(.qp, k)] }, leaveTodo .qpDestroyed k⟩ := by
    simp only [Walk.step, leaveTodo, Cm.Micro.exec, Cm.rdmaDestroyQp_eq hq, Outcome.ok_bind,
      Outcome.pure_eq]
  refine ⟨[.next], _, run_singleton.trans hnext, rfl, hst, by simp, fun _ => hrec, by simp, ?_,
    fun q => ?_⟩
  · refine hpool.trans ?_
    simp [hpf]
  · show Function.update cm.qps k none k = some q ↔ _
    simp

/-- The cm_id and the record go. -/
theorem mirrors_freeConn (hm : c.Mirrors k w) (h : react c .freeConn = .ok c') :
    ∃ tr w', run Walk.step w tr = .ok w' ∧ c'.Mirrors k w' := by
  obtain ⟨hgone, rfl⟩ := react_freeConn h
  obtain ⟨hid, args, hconn⟩ := hm.record (by simp [hgone])
  have hpool := hm.pool
  have hst := hm.started
  have hqp := hm.qp
  obtain ⟨cm, todo⟩ := w
  obtain rfl : todo = leaveTodo .qpDestroyed k := by simpa [hgone] using hm.todo
  obtain ⟨cm', hrun, hcore, -, hqps, hpools, hids, hconns⟩ := Cm.run_last hid hconn
  simp only [Cm.core, Prod.mk.injEq] at hcore
  refine ⟨_, ⟨cm', []⟩, Cm.run_next [] hrun, rfl, by rw [hcore.2.1]; exact hst, by simp,
    fun hne => absurd rfl hne, fun _ => ?_, ?_, fun q => ?_⟩
  · rw [hids, hconns, Function.update_self, Function.update_self]
    exact ⟨rfl, rfl⟩
  · rw [hpools]
    refine hpool.trans ?_
    simp [hgone]
  · rw [hqps]
    refine (hqp q).trans ?_
    simp [hgone]

/-- A step of a client is a run of the handle. -/
theorem mirrors_step (hm : s.1.Mirrors k w) (h : step s e = .ok s') :
    ∃ tr w', run Walk.step w tr = .ok w' ∧ s'.1.Mirrors k w' := by
  have hsame (hs : s'.1.stage = s.1.stage) (hq : s'.1.qp = s.1.qp) :
      ∃ tr w', run Walk.step w tr = .ok w' ∧ s'.1.Mirrors k w' := ⟨[], w, rfl, hm.same hs hq⟩
  obtain ⟨c', mem'⟩ := s'
  rcases step_cases h with ⟨a, pick, rr, rs, -, h⟩ | ⟨h, -⟩
  · obtain ⟨-, -, ele, mp, -, -, hc⟩ := kvRdmaSendReq_eq_ok h
    rcases hc with ⟨-, rfl⟩ | ⟨-, -, rfl⟩ | ⟨-, -, rfl⟩ <;> exact hsame rfl rfl
  · cases e with
    | sendReq a pick rr rs => cases h
    | transmit => obtain ⟨p, sends, -, rfl⟩ := react_transmit h; exact hsame rfl rfl
    | sendDone en => obtain ⟨p, sent, -, rfl⟩ := react_sendDone h; exact hsame rfl rfl
    | sendFail code fields => obtain ⟨p, sends, -, rfl⟩ := react_sendFail h; exact hsame rfl rfl
    | deliver n imm byteLen => obtain ⟨-, rfl⟩ := react_deliver.mp h; exact hsame rfl rfl
    | recvFail code fields => obtain ⟨-, rfl⟩ := react_recvFail h; exact hsame rfl rfl
    | poll t n => obtain rfl := react_poll h; exact hsame rfl rfl
    | handle t =>
        obtain ⟨e, cq, -, ⟨-, -, -, -, ctx, cb, -, -, rfl⟩ | ⟨-, rfl⟩⟩ := react_handle h <;>
          exact hsame rfl rfl
    | put t => obtain ⟨ele, returning, -, -, rfl⟩ := react_put h; exact hsame rfl rfl
    | disconnected => exact mirrors_disconnected hm h
    | destroyQp drop => exact mirrors_destroyQp hm h
    | freeConn => exact mirrors_freeConn hm h

/-- A client connects: the address and the route are resolved, and the connection is established. -/
def connecting (args : Cm.ConnectArgs) (q : QpNum) : List Walk.Event :=
  [.other (.connect args), .other (.event 0 .addrResolved q), .other (.event 0 .routeResolved q),
    .other (.event 0 .established q)]

theorem mirrors_init (T : Uthash QpNum CmId ConnId) (conn : ConnId) {q : QpNum} (buf : Nat)
    (args : Cm.ConnectArgs) (hsmall : q < 2 ^ 24) :
    ∃ w : Walk T, run Walk.step ⟨Cm.init, []⟩ (connecting args q) = .ok w ∧
      (init conn q buf).Mirrors 0 w := by
  have hfresh : (Cm.init.kvRdmaConnect args : Cm T).Fresh q := ⟨hsmall, fun _ _ h => by cases h⟩
  have hresolve : Walk.step (⟨Cm.init.kvRdmaConnect args, []⟩ : Walk T)
      (.other (.event 0 .addrResolved q)) = .ok ⟨{ Cm.init.kvRdmaConnect args with
        qps := Function.update (fun _ => none) 0 (some q)
        conns := Function.update (Cm.init.kvRdmaConnect args : Cm T).conns 0
          (some ⟨0, some 0, .client args 0⟩)
        stage := Function.update (Function.update (Cm.init.kvRdmaConnect args : Cm T).stage 0
          .addrResolved) 0 .resolvingRoute }, []⟩ := by
    have hreq : Outcome.require (((Cm.init.kvRdmaConnect args : Cm T).started 0).isSome ∧
        (RdmaCmEventType.addrResolved = .addrResolved →
          (Cm.init.kvRdmaConnect args : Cm T).Fresh q)) = (.ok () : Outcome Cm.Misuse Unit) :=
      if_pos ⟨rfl, fun _ => hfresh⟩
    rw [Walk.step, Cm.step, hreq]
    rfl
  refine Outcome.ends_iff.mp ?_
  show Outcome.Ends _ (Walk.step ⟨Cm.init.kvRdmaConnect args, []⟩
    (.other (.event 0 .addrResolved q)) >>= fun w => run Walk.step w _)
  rw [hresolve]
  refine ⟨rfl, rfl, fun _ => rfl, fun _ => ⟨rfl, args, rfl⟩, by simp [init], ⟨fun _ => rfl, fun _ => rfl⟩,
    fun q' => ?_⟩
  show some q = some q' ↔ q' = q ∧ _
  simp [init, eq_comm]

/-- **A client's connection is one of a handle**: whatever the client does, a handle it has connected
on can take steps to the same record, queue pair and pool. -/
theorem mirrors_run (T : Uthash QpNum CmId ConnId) {conn : ConnId} {q : QpNum} {buf : Nat} {mem : Mem}
    {tr : List Event} (hsmall : q < 2 ^ 24) (h : run step (init conn q buf, mem) tr = .ok s) :
    ∃ tr' w, run Walk.step (⟨Cm.init, []⟩ : Walk T) tr' = .ok w ∧ s.1.Mirrors 0 w := by
  obtain ⟨w, hw, hm⟩ := mirrors_init T conn buf ⟨none, 0, none, 0⟩ hsmall
  refine run_invariant
    (P := fun s => ∃ tr' w, run Walk.step (⟨Cm.init, []⟩ : Walk T) tr' = .ok w ∧ s.1.Mirrors 0 w)
    (fun s₁ e s₂ ⟨tr₁, w₁, hr₁, hm₁⟩ h => ?_) ⟨_, w, hw, hm⟩ h
  obtain ⟨tr₂, w₂, hr₂, hm₂⟩ := mirrors_step hm₁ h
  exact ⟨tr₁ ++ tr₂, w₂, run_append_eq_ok.mpr ⟨w₁, hr₁, hr₂⟩, hm₂⟩

end

end Client

end RdmaRpc
