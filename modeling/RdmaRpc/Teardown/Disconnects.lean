import RdmaRpc.Teardown.Acks
import RdmaRpc.Cm.Ledger

/-!
# Teardown — Disconnects

The connections of a handle and its teardown, together.  `kv_rdma_disconnect` ends with the event
`DISCONNECTED`, which `rdma_cm_poller` takes, and `cm_poller_unregister` destroys the event channel:
`kv_rdma_fini` does not wait for the event.  A connection that was disconnected is released, and its
callback called, just when the event is taken before `cm_poller_unregister` is
(`disconnect_completes_iff`).

`left` is history: the client connections that were established when `kv_rdma_fini` was called.
-/

namespace RdmaRpc
open Lib

variable {T : Uthash QpNum CmId ConnId}

namespace Cm

/-- The event is a call of the application. -/
def Event.called : Event → Bool
  | .connect _ | .listen .. | .disconnect _ => true
  | .connectRequest .. | .event .. => false

/-- The call makes a cm_id on the event channel. -/
def Event.opens : Event → Bool
  | .connect _ | .listen .. => true
  | _ => false

/-- `rdma_cm_poller` calls `create_connetion` on the event. -/
def Event.creates : Event → Bool
  | .connectRequest .. | .event _ .addrResolved _ => true
  | _ => false

/-- The client connections that are established. -/
def established (s : Cm T) : List ConnId :=
  (List.range s.next).filter fun c => (s.started c).any Started.isClient ∧ s.stage c = .established

/-- The client connection `c` has gone through `on_disconnect`, once: what it held is released, and
its callback has been called. -/
structure Departed (s : Cm T) (c : ConnId) : Prop where
  alive : ∀ kind ∈ [Kind.qp, .cmId, .pool, .record], s.alive c kind = false
  released : ∀ kind ∈ [Kind.qp, .cmId, .pool, .record], s.released.count (kind, c) = 1
  called : ∃ args, s.started c = some (.client args) ∧ s.disconnects.filter (·.conn = c) =
    (args.disconnect.map fun cb => ⟨c, cb, args.disconnectArg⟩).toList

/-- The client connection `c` is established, or was until its disconnect. -/
def Parting (s : Cm T) (c : ConnId) : Prop :=
  ∃ args, s.started c = some (.client args) ∧
    (s.stage c = .established ∨ s.stage c = .disconnected)

section
variable {s s' : Cm T} {c : ConnId} {e : Event}

theorem parting_of_established (h : c ∈ s.established) : s.Parting c := by
  simp only [established, List.mem_filter, decide_eq_true_eq] at h
  obtain ⟨-, hst, hg⟩ := h
  obtain ⟨st, hst, hclient⟩ := (Option.any_eq_true _ _).mp hst
  cases st with
  | client args => exact ⟨args, hst, .inl hg⟩
  | listener | accepted => cases hclient

/-- Nothing but a disconnect comes to an established connection. -/
theorem parting_step (hl : s.Ledger) (hc : s.Parting c) (h : step s e = .ok s') : s'.Parting c := by
  obtain ⟨args, hst, hg⟩ := hc
  have hlt : c < s.next := (hl.known c).mp (by rw [hst]; rfl)
  have hne : c ≠ s.next := Nat.ne_of_lt hlt
  have hnew (hstarted : s'.started c = s.started c) (hstage : s'.stage c = s.stage c) :
      s'.Parting c := ⟨args, hstarted.trans hst, by rwa [hstage]⟩
  cases e with
  | connect args' =>
      cases h
      exact hnew (Function.update_of_ne hne _ _) (Function.update_of_ne hne _ _)
  | listen handler arg =>
      cases h
      exact hnew (Function.update_of_ne hne _ _) (Function.update_of_ne hne _ _)
  | disconnect c' =>
      obtain ⟨_, -, h⟩ := Outcome.bind_eq_ok.mp h
      obtain ⟨_, -, h⟩ := Outcome.bind_eq_ok.mp h
      cases h
      exact hnew rfl rfl
  | connectRequest l q =>
      have hcore := step_connectRequest_core h
      simp only [core, request, setStage, Prod.mk.injEq] at hcore
      obtain ⟨-, hstarted, hstage⟩ := hcore
      exact hnew (by rw [hstarted, Function.update_of_ne hne])
        (by rw [hstage, Function.update_of_ne hne, Function.update_of_ne hne])
  | event id e q =>
      obtain ⟨-, g, hafter, hcore⟩ := step_event_core h
      simp only [core, setStage, Prod.mk.injEq] at hcore
      obtain ⟨-, hstarted, hstage⟩ := hcore
      by_cases hid : c = id
      · subst hid
        refine ⟨args, by rw [hstarted, hst], ?_⟩
        rw [hstage, Function.update_self]
        rcases hg with hg | hg <;> rw [hg] at hafter <;> cases e <;> simp_all [Stage.after, asks]
      · exact hnew (by rw [hstarted]) (by rw [hstage, Function.update_of_ne hid])

/-- Without its queue pair, the connection has departed. -/
theorem Parting.departed (hl : s.Ledger) (hc : s.Parting c) (hq : s.qps c = none) : s.Departed c := by
  obtain ⟨args, hst, hg⟩ := hc
  have hat := hl.conn c _ hst
  have hg : s.stage c = .disconnected := by
    rcases hg with hg | hg
    · have hqp := hat.alive .qp
      simp [alive, hq, hg, acquired, freed, Started.isClient] at hqp
    · exact hg
  refine ⟨fun kind hkind => ?_, fun kind hkind => ?_, args, hst, ?_⟩
  · rw [hat.alive, hg]
    cases kind <;> simp [freed]
  · rw [hat.count, hg]
    cases kind <;> simp_all [acquired, freed, Started.isClient]
  · rw [hat.disconnects, hg]
    rfl

end

end Cm

namespace Teardown

/-- The step is part of the handling of a CM event. -/
def Event.connects : Event → Bool
  | .connect => true
  | _ => false

/-- The threads of a handle, and its connections. -/
structure Handle (T : Uthash QpNum CmId ConnId) where
  app : App
  cm : Cm T
  left : List ConnId

namespace Handle

inductive Event where
  /-- the application calls -/
  | call (e : Cm.Event)
  /-- `rdma_cm_poller` takes an event -/
  | cm (e : Cm.Event)
  /-- any other step of the threads -/
  | thread (e : Teardown.Event)

def init (threadId threadNum : Nat) : Handle T := ⟨Teardown.init threadId threadNum, Cm.init, []⟩

/-- What a step of the threads means for the connections: a call of `kv_rdma_fini` finds some of them
established. -/
def leaving (h : Handle T) : Teardown.Event → List ConnId
  | .fini _ => h.cm.established
  | _ => h.left

def step (h : Handle T) : Event → Outcome (Misuse ⊕ Cm.Misuse) (Handle T)
  | .call e => do
    Outcome.require (e.called ∧ (e.opens → h.app.self.ec))
    let cm ← (Cm.step h.cm e).mapFault .inr
    return { h with cm }
  | .cm e => do
    Outcome.require (e.called = false)
    let app ← (Teardown.step h.app (if e.creates then .connect else .cmPoller)).mapFault .inl
    Outcome.require h.app.self.ec
    let cm ← (Cm.step h.cm e).mapFault .inr
    return { h with app, cm }
  | .thread e => do
    Outcome.require (e.connects = false)
    let app ← (Teardown.step h.app e).mapFault .inl
    return { h with app, left := h.leaving e }

/-- `cm_poller_unregister` finds no queue pair. -/
def Settled (h : Handle T) : Event → Prop
  | .thread (.deliver src dst) => ∀ p ∈ Keyed.pop (src, dst) h.app.msgs,
      p.1 = .cmPollerUnregister → ∀ id < h.cm.next, h.cm.qps id = none
  | _ => True

section
variable {h h' : Handle T} {e : Event} {tr : List Event}

/-! ### What each step does -/

theorem step_call {e : Cm.Event} (hs : step h (.call e) = .ok h') :
    e.called = true ∧ ∃ cm, Cm.step h.cm e = .ok cm ∧ h' = { h with cm } := by
  simp only [step, Outcome.bind_eq_ok, Outcome.require_eq_ok, Outcome.mapFault_eq_ok, Outcome.pure_eq,
    Outcome.ok.injEq] at hs
  obtain ⟨-, ⟨he, -⟩, cm, hcm, rfl⟩ := hs
  exact ⟨he, cm, hcm, rfl⟩

theorem step_cm {e : Cm.Event} (hs : step h (.cm e) = .ok h') :
    h.app.cmRegistered = true ∧ ∃ e' app cm, (e' = .connect ∨ e' = .cmPoller) ∧
      Teardown.step h.app e' = .ok app ∧ Cm.step h.cm e = .ok cm ∧ h' = { h with app, cm } := by
  simp only [step, Outcome.bind_eq_ok, Outcome.require_eq_ok, Outcome.mapFault_eq_ok, Outcome.pure_eq,
    Outcome.ok.injEq] at hs
  obtain ⟨-, -, app, happ, -, -, cm, hcm, rfl⟩ := hs
  split at happ
  · exact ⟨(step_connect happ).1, _, app, cm, .inl rfl, happ, hcm, rfl⟩
  · refine ⟨?_, _, app, cm, .inr rfl, happ, hcm, rfl⟩
    simp only [Teardown.step, Outcome.bind_eq_ok, Outcome.require_eq_ok] at happ
    obtain ⟨-, ⟨hreg, -⟩, -⟩ := happ
    exact hreg

theorem step_thread {e : Teardown.Event} (hs : step h (.thread e) = .ok h') :
    ∃ app, Teardown.step h.app e = .ok app ∧ h' = { h with app, left := h.leaving e } := by
  simp only [step, Outcome.bind_eq_ok, Outcome.require_eq_ok, Outcome.mapFault_eq_ok, Outcome.pure_eq,
    Outcome.ok.injEq] at hs
  obtain ⟨-, -, app, happ, rfl⟩ := hs
  exact ⟨app, happ, rfl⟩

/-! ### The event channel -/

/-- Only `cm_poller_unregister` touches the CM poller. -/
theorem registered_step {s s' : App} {e : Teardown.Event} (h : Teardown.step s e = .ok s') :
    s'.cmRegistered = s.cmRegistered ∨ ∃ src dst msgs, e = .deliver src dst ∧
      Keyed.pop (src, dst) s.msgs = some (.cmPollerUnregister, msgs) ∧
      s'.cmRegistered = if s.self.cmPoller then false else s.cmRegistered := by
  cases e with
  | fini t => obtain ⟨-, -, -, rfl⟩ := step_fini h; exact .inl rfl
  | finiNext =>
      obtain ⟨-, hcase⟩ := kvRdmaFini_eq_ok h
      rcases hcase with ⟨-, rfl⟩ | ⟨-, -, rfl⟩ | ⟨-, -, rfl⟩ | ⟨-, rfl⟩ | ⟨j, -, ⟨-, rfl⟩ | ⟨-, rfl⟩⟩ <;>
        exact .inl rfl
  | connect => obtain ⟨-, -, -, ⟨-, rfl⟩ | ⟨-, rfl⟩⟩ := step_connect h <;> exact .inl rfl
  | createNext =>
      obtain ⟨-, ⟨-, rfl⟩ | ⟨j, -, ⟨-, ps, -, rfl⟩ | ⟨-, rfl⟩⟩⟩ := createConnetion_eq_ok h <;>
        exact .inl rfl
  | cmPoller => exact .inl (by rw [step_cmPoller h])
  | cqPoller i => exact .inl (by rw [step_cqPoller h])
  | deliver src dst =>
      obtain ⟨-, t, msgs, hp, h⟩ := step_deliver h
      cases t with
      | pollerRegister i => obtain ⟨-, ps, -, rfl⟩ := pollerRegister_eq_ok h; exact .inl rfl
      | cqPollerUnregister ctx =>
          obtain ⟨-, i, ps, -, -, -, rfl⟩ := cqPollerUnregister_eq_ok h
          exact .inl rfl
      | cmPollerUnregister =>
          obtain ⟨-, rfl⟩ := cmPollerUnregister_eq_ok h
          exact .inr ⟨src, dst, msgs, rfl, hp, rfl⟩
      | pollerUnregisterDone =>
          obtain ⟨-, ioCnt, -, ⟨-, rfl⟩ | ⟨-, rfl⟩⟩ := pollerUnregisterDone_eq_ok h <;> exact .inl rfl
      | finiCb => cases h; exact .inl rfl

/-- A poller once unregistered is not registered again. -/
theorem cmRegistered_step {s s' : App} {e : Teardown.Event} (hreg : s.cmRegistered = false)
    (h : Teardown.step s e = .ok s') : s'.cmRegistered = false := by
  rcases registered_step h with heq | ⟨_, _, _, -, -, heq⟩
  · rw [heq, hreg]
  · rw [heq, hreg, ite_self]

/-- While the CM poller is registered, the count is right and the CQ is there. -/
def Counts (s : App) : Prop := s.cmRegistered = true → Counted s ∧ s.destroys = 0

theorem counts_step {s s' : App} {e : Teardown.Event} (hc : Counts s)
    (h : Teardown.step s e = .ok s') : Counts s' := by
  intro hreg'
  have hreg : s.cmRegistered = true := by
    by_contra hreg
    rw [cmRegistered_step (by simpa using hreg) h] at hreg'
    cases hreg'
  obtain ⟨hc, hd⟩ := hc hreg
  rcases counted_step hc h with ⟨hc', hd'⟩ | hoff
  · exact ⟨hc', hd'.trans hd⟩
  · rw [hreg'] at hoff
    cases hoff

/-- `cm_poller_unregister` unregisters the CM poller. -/
theorem cmRegistered_of_unregister {src dst : Nat} {p : Task × List ((Nat × Nat) × Task)} {s s' : App}
    (hc : Counts s) (hp : p ∈ Keyed.pop (src, dst) s.msgs) (ht : p.1 = .cmPollerUnregister)
    (h : Teardown.step s (.deliver src dst) = .ok s') : s'.cmRegistered = false := by
  obtain ⟨t, msgs⟩ := p
  obtain rfl : t = .cmPollerUnregister := ht
  obtain ⟨-, t', msgs', hp', h⟩ := step_deliver h
  obtain ⟨rfl, rfl⟩ := Prod.mk.inj (Option.some.inj (hp'.symm.trans hp))
  obtain ⟨-, rfl⟩ := cmPollerUnregister_eq_ok h
  show (if s.self.cmPoller then false else s.cmRegistered) = false
  cases hreg : s.cmRegistered with
  | false => exact ite_self _
  | true => rw [(hc hreg).1.cmPoller, hreg]; rfl

structure Sound (h : Handle T) : Prop where
  ledger : h.cm.Ledger
  counts : Counts h.app
  left : ∀ c ∈ h.left, h.cm.Parting c

theorem sound_init {threadId threadNum : Nat} (hn : threadNum < 2 ^ 32) :
    Sound (init threadId threadNum : Handle T) where
  ledger := Cm.ledger_init
  counts := fun _ => ⟨(init_here threadId hn).counted, rfl⟩
  left := fun _ hc => nomatch hc

theorem sound_step (h : Handle T) (e : Event) (h' : Handle T) (hs : Sound h) (hstep : step h e = .ok h') :
    Sound h' := by
  cases e with
  | call e =>
      obtain ⟨-, cm, hcm, rfl⟩ := step_call hstep
      exact ⟨Cm.ledger_step hs.ledger hcm, hs.counts,
        fun c hc => Cm.parting_step hs.ledger (hs.left c hc) hcm⟩
  | cm e =>
      obtain ⟨-, e', app, cm, -, happ, hcm, rfl⟩ := step_cm hstep
      exact ⟨Cm.ledger_step hs.ledger hcm, counts_step hs.counts happ,
        fun c hc => Cm.parting_step hs.ledger (hs.left c hc) hcm⟩
  | thread e =>
      obtain ⟨app, happ, rfl⟩ := step_thread hstep
      refine ⟨hs.ledger, counts_step hs.counts happ, fun c hc => ?_⟩
      cases e with
      | fini t => exact Cm.parting_of_established hc
      | _ => exact hs.left c hc

/-- Without the CM poller, no queue pair comes or goes. -/
theorem quiet_step (hreg : h.app.cmRegistered = false) (hstep : step h e = .ok h') :
    h'.app.cmRegistered = false ∧ h'.cm.qps = h.cm.qps := by
  cases e with
  | call e =>
      obtain ⟨he, cm, hcm, rfl⟩ := step_call hstep
      refine ⟨hreg, ?_⟩
      cases e with
      | connect args => cases hcm; rfl
      | listen handler arg => cases hcm; rfl
      | disconnect c =>
          obtain ⟨_, -, hcm⟩ := Outcome.bind_eq_ok.mp hcm
          obtain ⟨_, -, hcm⟩ := Outcome.bind_eq_ok.mp hcm
          cases hcm
          rfl
      | connectRequest l q | event id e q => cases he
  | cm e => rw [(step_cm hstep).1] at hreg; cases hreg
  | thread e =>
      obtain ⟨app, happ, rfl⟩ := step_thread hstep
      exact ⟨cmRegistered_step hreg happ, rfl⟩

theorem quiet_run (hreg : h.app.cmRegistered = false) (hr : run step h tr = .ok h') :
    h'.cm.qps = h.cm.qps :=
  (run_invariant (P := fun h₁ => h₁.app.cmRegistered = false ∧ h₁.cm.qps = h.cm.qps)
    (fun _ _ _ hs hstep => ⟨(quiet_step hs.1 hstep).1, (quiet_step hs.1 hstep).2.trans hs.2⟩)
    ⟨hreg, rfl⟩ hr).2

/-! ### Runs -/

/-- There is no queue pair, unless there is the CM poller. -/
def Bare (h : Handle T) : Prop := h.app.cmRegistered = false → ∀ id, h.cm.qps id = none

/-- `cm_poller_unregister` leaves no queue pair behind, if it finds none. -/
theorem bare_step (hs : Sound h) (hb : Bare h) (hq : Settled h e) (hstep : step h e = .ok h') :
    Bare h' := by
  intro hreg'
  cases hreg : h.app.cmRegistered with
  | false =>
      rw [(quiet_step hreg hstep).2]
      exact hb hreg
  | true =>
      have hlost {app : App} {e' : Teardown.Event} (happ : Teardown.step h.app e' = .ok app)
          (hoff : app.cmRegistered = false) : ∃ src dst msgs, e' = .deliver src dst ∧
            Keyed.pop (src, dst) h.app.msgs = some (.cmPollerUnregister, msgs) := by
        rcases registered_step happ with heq | ⟨src, dst, msgs, he, hp, -⟩
        · rw [heq, hreg] at hoff
          cases hoff
        · exact ⟨src, dst, msgs, he, hp⟩
      cases e with
      | call e =>
          obtain ⟨-, cm, -, rfl⟩ := step_call hstep
          rw [show h.app.cmRegistered = false from hreg'] at hreg
          cases hreg
      | cm e =>
          obtain ⟨-, e', app, cm, he', happ, -, rfl⟩ := step_cm hstep
          obtain ⟨src, dst, msgs, rfl, -⟩ := hlost happ hreg'
          rcases he' with he' | he' <;> cases he'
      | thread e =>
          obtain ⟨app, happ, rfl⟩ := step_thread hstep
          obtain ⟨src, dst, msgs, rfl, hp⟩ := hlost happ hreg'
          intro id
          by_cases hid : id < h.cm.next
          · exact hq _ hp rfl id hid
          · simpa [Cm.alive] using (hs.ledger.blank id (Nat.le_of_not_lt hid)).alive .qp

/-- A run that ends without queue pairs has met the condition. -/
theorem settled_of_bare (hs : Sound h) (hr : run step h tr = .ok h')
    (hb : ∀ id, h'.cm.qps id = none) : Along step Settled h tr := by
  induction tr generalizing h with
  | nil => trivial
  | cons e tr ih =>
      obtain ⟨h₁, hstep, hr⟩ := Outcome.bind_eq_ok.mp hr
      refine ⟨?_, fun h₂ hstep₂ => ?_⟩
      · cases e with
        | call e | cm e => trivial
        | thread e =>
            cases e with
            | deliver src dst =>
                intro p hp ht id _
                obtain ⟨app, happ, rfl⟩ := step_thread hstep
                have hoff := cmRegistered_of_unregister hs.counts hp ht happ
                rw [← hb id, quiet_run hoff hr]
            | _ => trivial
      · obtain rfl : h₁ = h₂ := Outcome.ok.inj (hstep.symm.trans hstep₂)
        exact ih (sound_step h e h₁ hs hstep) hr

variable {threadId threadNum : Nat}

/-- **Disconnects complete before teardown**, if they complete before `cm_poller_unregister`.  Once the
CQ is destroyed, the client connections that were established when `kv_rdma_fini` was called have
departed, and no queue pair is left, if and only if `cm_poller_unregister` found no queue pair. -/
theorem disconnect_completes_iff (hn : threadNum < 2 ^ 32)
    (hr : run step (init threadId threadNum : Handle T) tr = .ok h) (hd : h.app.destroys ≠ 0) :
    ((∀ c ∈ h.left, h.cm.Departed c) ∧ ∀ id, h.cm.qps id = none) ↔
      Along step Settled (init threadId threadNum : Handle T) tr := by
  have hs : Sound h := run_invariant sound_step (sound_init hn) hr
  constructor
  · rintro ⟨-, hb⟩
    exact settled_of_bare (sound_init hn) hr hb
  · intro hq
    obtain ⟨-, hb⟩ := run_invariant_along (P := fun h => Sound h ∧ Bare h)
      (fun h₁ e h₂ hs hq hstep => ⟨sound_step h₁ e h₂ hs.1 hstep, bare_step hs.1 hs.2 hq hstep⟩)
      ⟨sound_init hn, fun hreg => nomatch hreg⟩ hq hr
    -- the CQ is destroyed after `cm_poller_unregister`
    have hreg : h.app.cmRegistered = false := by
      by_contra hreg
      exact hd (hs.counts (by simpa using hreg)).2
    exact ⟨fun c hc => (hs.left c hc).departed hs.ledger (hb hreg c), hb hreg⟩

end

/-! ### The client of the sample -/

/-- A client connects, disconnects and calls `kv_rdma_fini`, all on one thread. -/
def echoClient : List Event :=
  [.call (.connect ⟨some 1, 0, some 2, 0⟩), .cm (.event 0 .addrResolved 9), .thread .createNext,
    .thread .createNext, .thread .createNext, .cm (.event 0 .routeResolved 0),
    .cm (.event 0 .established 0), .thread (.deliver 0 0), .call (.disconnect 0), .thread (.fini 0),
    .thread .finiNext, .thread .finiNext, .thread .finiNext, .thread .finiNext, .thread .finiNext]

/-- The messages that end teardown. -/
def unregister : List Event :=
  [.thread (.deliver 0 0), .thread (.deliver 0 0), .thread (.deliver 0 0), .thread (.deliver 0 0)]

/-- The event `DISCONNECTED` comes in time. -/
theorem disconnect_completes_echoClient :
    ∃ h, run step (init 0 1 : Handle (.chained id))
        (echoClient ++ [.cm (.event 0 .disconnected 0)] ++ unregister) = .ok h ∧
      h.left = [0] ∧ (((∀ c ∈ h.left, h.cm.Departed c) ∧ ∀ id, h.cm.qps id = none) ↔
        Along step Settled (init 0 1 : Handle (.chained id))
          (echoClient ++ [.cm (.event 0 .disconnected 0)] ++ unregister)) := by
  obtain ⟨h, hr, hd, hleft⟩ := Outcome.ends_iff.mp (show Outcome.Ends
    (fun h : Handle (.chained id) => h.app.destroys ≠ 0 ∧ h.left = [0])
    (run step (init 0 1 : Handle (.chained id))
      (echoClient ++ [.cm (.event 0 .disconnected 0)] ++ unregister)) from by decide +kernel)
  exact ⟨h, hr, hleft, disconnect_completes_iff (by decide) hr hd⟩

/-- The event channel is destroyed first: the connection keeps its queue pair, its cm_id, its pool and
its record, and the callback is not called. -/
theorem disconnect_lost :
    ∃ h, run step (init 0 1 : Handle (.chained id)) (echoClient ++ unregister) = .ok h ∧
      h.app.destroys = 1 ∧ h.cm.asked = [0] ∧ h.left = [0] ∧ h.cm.qps 0 = some 9 ∧ h.cm.released = [] ∧
      h.cm.disconnects = [] ∧ ¬ h.cm.Departed 0 := by
  obtain ⟨h, hr, hd, hasked, hleft, hqp, hrel, hcalled⟩ := Outcome.ends_iff.mp (show Outcome.Ends
    (fun h : Handle (.chained id) => h.app.destroys = 1 ∧ h.cm.asked = [0] ∧ h.left = [0] ∧
      h.cm.qps 0 = some 9 ∧ h.cm.released = [] ∧ h.cm.disconnects = [])
    (run step (init 0 1 : Handle (.chained id)) (echoClient ++ unregister)) from by decide +kernel)
  refine ⟨h, hr, hd, hasked, hleft, hqp, hrel, hcalled, fun hdep => ?_⟩
  have hcount := hdep.released .qp (by simp)
  rw [hrel] at hcount
  cases hcount

end Handle

end Teardown

end RdmaRpc
