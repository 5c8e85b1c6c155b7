import RdmaRpc.Server.Conservation

/-!
# Server — Lifetimes

Uses of a connection record.  A context points to the record its last request came over, and
`on_write_resp_done` and `kv_rdma_make_resp` read the record through that pointer;
`on_recv_req` looks it up by the queue pair.  `on_disconnect` takes the record out of the table,
destroys the queue pair and frees the record without a look at who still needs it, and the pollers
run on between these steps.

`Orderly` is what the environment has to spare the server: no message is handled once its
connection is out of the table, `rdma_destroy_qp` comes when no request of the connection is left to
be answered, and `kv_free` when no completion is left that reads the record; and it fails a receive
only when the last request of the context came over a connection that is still there, with an opcode
of the server.  Then the records that will be used are live (`Lively`), whatever comes next
(`connSafe_run`).
-/

namespace RdmaRpc
open Lib

namespace Server

/-- Nothing the server does next uses a connection in vain. -/
def ConnSafe (s : Server) : Prop := ∀ e f, step s e = .fault f → f.ofConn = false

/-- The completion is that of a message that has arrived over `q`. -/
def Received (q : QpNum) (wc : Wc Nat) : Prop :=
  wc.opcode = .recv ∧ wc.status = .success ∧ wc.qpNum = q

instance (q : QpNum) : DecidablePred (Received q) := fun _ => inferInstanceAs (Decidable (_ ∧ _))

/-- The step spares the records still needed. -/
def Orderly (s : Server) : Event → Prop
  | .disconnected c => ∀ conn ∈ s.conns c, ∀ q ∈ conn.qp, ∀ p ∈ s.cq.polled, ¬ Received q p.2.wc
  | .poll _ k => ∀ q ∈ s.destroying, ∀ e ∈ s.cq.queue.take k, ¬ Received q e.wc
  | .destroyQp drop => ∀ l ∈ s.leaving, ∀ q ∈ s.destroying,
      (∀ p ∈ s.held, (s.requests p.1).conn ≠ some l.conn) ∧
      (∀ p ∈ s.looked, (s.requests p.2.wc.wrId).conn ≠ some l.conn) ∧
      (drop = false → ∀ e ∈ s.cq.queue, ¬ Received q e.wc)
  | .freeConn => ∀ l ∈ s.leaving, ∀ e ∈ s.cq.all,
      Reposts e.wc → (s.requests e.wc.wrId).conn ≠ some l.conn
  | .arriveFail q _ fields _ _ => fields.opcode ≠ .recvRdmaWithImm ∧
      (Ignored fields.opcode ∨ ∀ t ∈ (Keyed.queue q s.taken).head?, s.LiveConn t.wrId)
  | .writeDone _ (.bad _ fields) => fields.opcode ≠ .recvRdmaWithImm
  | .flush _ _ fields => fields.opcode ≠ .recvRdmaWithImm
  | _ => True

instance (s : Server) (i : Nat) : Decidable (s.LiveConn i) :=
  decidable_of_iff (∃ c ∈ (s.requests i).conn, ∃ conn ∈ s.conns c, conn.isServer = true)
    ⟨fun ⟨c, hc, conn, hconn, hs⟩ => ⟨c, conn, hc, hconn, hs⟩,
      fun ⟨c, conn, hc, hconn, hs⟩ => ⟨c, hc, conn, hconn, hs⟩⟩

instance (s : Server) : DecidablePred s.Orderly
  | .disconnected c => inferInstanceAs (Decidable (∀ conn ∈ s.conns c, ∀ q ∈ conn.qp,
      ∀ p ∈ s.cq.polled, ¬ Received q p.2.wc))
  | .poll _ k => inferInstanceAs (Decidable (∀ q ∈ s.destroying, ∀ e ∈ s.cq.queue.take k,
      ¬ Received q e.wc))
  | .destroyQp drop => inferInstanceAs (Decidable (∀ l ∈ s.leaving, ∀ q ∈ s.destroying,
      (∀ p ∈ s.held, (s.requests p.1).conn ≠ some l.conn) ∧
      (∀ p ∈ s.looked, (s.requests p.2.wc.wrId).conn ≠ some l.conn) ∧
      (drop = false → ∀ e ∈ s.cq.queue, ¬ Received q e.wc)))
  | .freeConn => inferInstanceAs (Decidable (∀ l ∈ s.leaving, ∀ e ∈ s.cq.all,
      Reposts e.wc → (s.requests e.wc.wrId).conn ≠ some l.conn))
  | .arriveFail q _ fields _ _ => inferInstanceAs (Decidable (fields.opcode ≠ .recvRdmaWithImm ∧
      (Ignored fields.opcode ∨ ∀ t ∈ (Keyed.queue q s.taken).head?, s.LiveConn t.wrId)))
  | .writeDone _ (.bad _ fields) | .flush _ _ fields =>
      inferInstanceAs (Decidable (fields.opcode ≠ .recvRdmaWithImm))
  | .writeDone _ .good | .connectRequest _ | .established _ | .take _ | .place .. | .arrive ..
  | .handle _ | .dispatch _ | .handlerWrite .. | .answer .. | .land _ => isTrue trivial

/-- The connection context `i` points to is there, with the queue pair `q`, which is there too. -/
def LiveOn (s : Server) (q : QpNum) (i : Nat) : Prop :=
  q ∈ s.qps ∧ ∃ c conn, (s.requests i).conn = some c ∧ s.conns c = some conn ∧
    conn.isServer = true ∧ conn.qp = some q

/-- The record the completion needs is there, but that of a message. -/
structure Handleable (s : Server) (wc : Wc Nat) : Prop where
  known : wc.opcode ≠ .recvRdmaWithImm
  live : Reposts wc → s.LiveConn wc.wrId

/-- The messages on the queue are of queue pairs that are there, and those polled of connections in
the table. -/
structure Answerable (s : Server) (cq : Completions Nat) : Prop where
  queue : ∀ e ∈ cq.queue, ∀ q, Received q e.wc → q ∈ s.qps
  polled : ∀ p ∈ cq.polled, ∀ q, Received q p.2.wc → ∃ c, (q, c) ∈ s.connections
  all : ∀ e ∈ cq.all, s.Handleable e.wc

/-- Each record that will be used is there. -/
structure Lively (s : Server) : Prop where
  held : ∀ p ∈ s.held, ∃ q, s.LiveOn q p.1
  looked : ∀ p ∈ s.looked, ∃ q, s.LiveOn q p.2.wc.wrId
  cq : s.Answerable s.cq
  writes : ∀ q p, (q, p) ∈ s.sends ∨ (q, p) ∈ s.landed → s.LiveOn q p.wr.wrId

section
variable {s s' : Server} {e : Event} {i : Nat} {q : QpNum} {c : ConnId} {ce : Cqe Nat}
  {cq cq' : Completions Nat} {t : Thread} {k : Nat}

theorem LiveOn.liveConn (h : s.LiveOn q i) : s.LiveConn i := by
  obtain ⟨-, c, conn, hc, hconn, hs, -⟩ := h
  exact ⟨c, conn, hc, hconn, hs⟩

/-! ### The completions -/

theorem Answerable.push (h : s.Answerable cq) (hq : ∀ q, Received q ce.wc → q ∈ s.qps)
    (hh : s.Handleable ce.wc) : s.Answerable (cq.push ce) := by
  refine ⟨fun e he => ?_, h.polled, fun e he => ?_⟩
  · rcases List.mem_append.mp he with he | he
    · exact h.queue e he
    · cases List.mem_singleton.mp he
      exact hq
  · rcases Completions.mem_all_push.mp he with rfl | he
    · exact hh
    · exact h.all e he

theorem Answerable.next (h : s.Answerable cq) (hn : cq.next t = some (ce, cq')) :
    s.Answerable cq' := by
  refine ⟨fun e he => ?_, fun p hp => ?_, fun e he => h.all e (Completions.mem_of_mem_next hn he)⟩
  · rw [Completions.queue_next hn] at he
    exact h.queue e he
  · obtain ⟨r, hr, hr'⟩ := Option.map_eq_some_iff.mp hn
    cases hr'
    exact h.polled p ((Keyed.pop_sublist hr).subset hp)

/-- What is polled is of a connection in the table, unless the table has lost it already. -/
theorem Answerable.poll (h : s.Answerable cq) (hw : s.Wired)
    (ho : ∀ q ∈ s.destroying, ∀ e ∈ cq.queue.take k, ¬ Received q e.wc) :
    s.Answerable (cq.poll t k) := by
  refine ⟨fun e he => h.queue e (List.mem_of_mem_drop he), fun p hp => ?_,
    fun e he => h.all e (Completions.mem_all_poll.mp he)⟩
  rcases List.mem_append.mp hp with hp | hp
  · exact h.polled p hp
  · obtain ⟨e, he, rfl⟩ := List.mem_map.mp hp
    intro q hr
    obtain ⟨c, hc, hne⟩ := (hw.qp q).mp (h.queue e (List.mem_of_mem_take he) q hr)
    refine ⟨c, (hw.entry q c).mpr ⟨hc, fun hmap => ?_⟩⟩
    -- the one connection out of the table whose queue pair is there is being taken down
    obtain ⟨l, hl, heq⟩ := Option.map_eq_some_iff.mp hmap
    obtain ⟨conn, hconn, hq⟩ := hc
    cases l with
    | destroyQp c' =>
        cases heq
        have hconn : s.conns c' = some conn := hconn
        exact ho q (by simp [destroying, hl, hconn, hq]) e he hr
    | free c' =>
        cases heq
        exact hne hl

/-! ### What keeps a record live for a context -/

/-- The context still points where it did, and the record it points to is still there. -/
def Keeps (s s' : Server) (i : Nat) : Prop :=
  (s'.requests i).conn = (s.requests i).conn ∧
    ∀ c, (s.requests i).conn = some c → s'.conns c = s.conns c

theorem Keeps.liveConn (hk : Keeps s s' i) (h : s.LiveConn i) : s'.LiveConn i := by
  obtain ⟨c, conn, hc, hconn, hs⟩ := h
  exact ⟨c, conn, hk.1.trans hc, (hk.2 c hc).trans hconn, hs⟩

theorem Keeps.liveOn (hk : Keeps s s' i) (hq : q ∈ s'.qps) (h : s.LiveOn q i) : s'.LiveOn q i := by
  obtain ⟨-, c, conn, hc, hconn, hs, hqp⟩ := h
  exact ⟨hq, c, conn, hk.1.trans hc, (hk.2 c hc).trans hconn, hs, hqp⟩

/-- A step that changes no record and moves contexts only. -/
theorem Lively.frame (hreq : ∀ j, (s'.requests j).conn = (s.requests j).conn)
    (hconns : s'.conns = s.conns) (hqps : s'.qps = s.qps) (htab : s'.connections = s.connections)
    (hheld : ∀ p ∈ s'.held, ∃ q, s.LiveOn q p.1)
    (hlook : ∀ p ∈ s'.looked, ∃ q, s.LiveOn q p.2.wc.wrId) (hcq : s.Answerable s'.cq)
    (hw : ∀ q p, (q, p) ∈ s'.sends ∨ (q, p) ∈ s'.landed → s.LiveOn q p.wr.wrId) : s'.Lively := by
  have hk : ∀ j, Keeps s s' j := fun j => ⟨hreq j, fun _ _ => by rw [hconns]⟩
  have hon : ∀ {q j}, s.LiveOn q j → s'.LiveOn q j := fun h => (hk _).liveOn (hqps ▸ h.1) h
  refine ⟨fun p hp => (hheld p hp).imp fun _ => hon, fun p hp => (hlook p hp).imp fun _ => hon,
    ⟨fun e he q hr => ?_, fun p hp q hr => ?_, fun e he => ?_⟩, fun q p hp => hon (hw q p hp)⟩
  · exact hqps ▸ hcq.queue e he q hr
  · exact htab ▸ hcq.polled p hp q hr
  · have := hcq.all e he
    exact ⟨this.known, fun hr => (hk _).liveConn (this.live hr)⟩

/-- A completion that failed is of no message. -/
theorem not_received_bad {code : Nat} {fields : WcFields} {q' : QpNum} :
    ¬ Received q' ((Ending.bad code fields).wc i q fields) := by
  rintro ⟨-, hst, -⟩
  cases hst

/-- A completion that failed, on a context whose record is there. -/
theorem handleable_bad {code : Nat} {fields : WcFields} (hop : fields.opcode ≠ .recvRdmaWithImm)
    (hl : Ignored fields.opcode ∨ s.LiveConn i) :
    s.Handleable ((Ending.bad code fields).wc i q fields) := by
  refine ⟨hop, fun hr => hl.resolve_left fun hig => ?_⟩
  simp only [Reposts, Ending.wc] at hr
  rcases hig with hs | ⟨code, ho⟩
  · simp [hs] at hr
  · simp [ho] at hr

/-! ### One step -/

theorem lively_connectRequest (hl : s.Lively) (hw : s.Wired) (hs : s.Started)
    (h : step s (.connectRequest q) = .ok s') : s'.Lively := by
  obtain ⟨-, -, hs'⟩ := step_connectRequest h
  obtain ⟨hheld, hlook, hcq, hsends, hlanded⟩ : s'.held = s.held ∧ s'.looked = s.looked ∧
      s'.cq = s.cq ∧ s'.sends = s.sends ∧ s'.landed = s.landed := by
    obtain ⟨-, -, -, -, -, -, -, -, -, h₁, h₂, h₃, h₄, h₅, -⟩ := withRequests_frame s
    rw [hs']
    exact ⟨h₅, h₄, h₃, h₁, h₂⟩
  cases hr : s.hasRequests with
  | false =>
      -- there is nothing yet that could need a record
      have hp := hs hr
      simp only [places, ctxsDone, ctxsOf, List.append_eq_nil_iff, List.map_eq_nil_iff] at hp
      obtain ⟨⟨⟨⟨⟨-, h₁⟩, h₂⟩, h₃⟩, h₄⟩, h₅⟩ := hp
      simp only [Completions.all, List.append_eq_nil_iff, List.map_eq_nil_iff] at h₁
      refine ⟨?_, ?_, ⟨?_, ?_, ?_⟩, ?_⟩ <;>
        simp [hheld, hlook, hcq, hsends, hlanded, Completions.all, h₁, h₂, h₃, h₄, h₅]
  | true =>
      have hwr : s.withRequests = s := by simp [withRequests, hr]
      rw [hwr] at hs'
      have hqps : ∀ {q'}, q' ∈ s.qps → q' ∈ s'.qps := fun h => by
        rw [hs']
        exact List.mem_cons_of_mem _ h
      have hk : ∀ j, s.LiveConn j → Keeps s s' j := by
        rintro j ⟨c, conn, hc, hconn, -⟩
        refine ⟨by rw [hs'], fun c' hc' => ?_⟩
        obtain rfl : c = c' := Option.some.inj (hc.symm.trans hc')
        rw [hs']
        refine Function.update_of_ne ?_ _ _
        rintro rfl
        -- the new record is at the next place of the heap
        rw [hw.fresh _ (Nat.le_refl _)] at hconn
        cases hconn
      have hon : ∀ {q' j}, s.LiveOn q' j → s'.LiveOn q' j := fun h =>
        (hk _ h.liveConn).liveOn (hqps h.1) h
      refine ⟨fun p hp => ?_, fun p hp => ?_, ⟨fun e he q' hr => ?_, fun p hp q' hr => ?_,
        fun e he => ?_⟩, fun q' p hp => ?_⟩
      · exact (hl.held p (hheld ▸ hp)).imp fun _ => hon
      · exact (hl.looked p (hlook ▸ hp)).imp fun _ => hon
      · exact hqps (hl.cq.queue e (hcq ▸ he) q' hr)
      · obtain ⟨c, hc⟩ := hl.cq.polled p (hcq ▸ hp) q' hr
        rw [hs']
        exact ⟨c, List.mem_cons_of_mem _ hc⟩
      · have := hl.cq.all e (hcq ▸ he)
        exact ⟨this.known, fun hr => (hk _ (this.live hr)).liveConn (this.live hr)⟩
      · rw [hsends, hlanded] at hp
        exact hon (hl.writes q' p hp)

/-- The table loses the entry when no message over the connection has been polled. -/
theorem lively_disconnected (hl : s.Lively) (hw : s.Wired) (ho : s.Orderly (.disconnected c))
    (h : step s (.disconnected c) = .ok s') : s'.Lively := by
  obtain ⟨-, -, rfl⟩ := hw.disconnected h
  refine ⟨hl.held, hl.looked, ⟨hl.cq.queue, fun p hp q hr => ?_, fun e he => ?_⟩, hl.writes⟩
  swap
  · exact ⟨(hl.cq.all e he).known, (hl.cq.all e he).live⟩
  obtain ⟨c', hc'⟩ := hl.cq.polled p hp q hr
  refine ⟨c', List.mem_filter.mpr ⟨hc', decide_eq_true fun heq => ?_⟩⟩
  have heq : c' = c := heq
  obtain ⟨conn, hconn, hq, -⟩ := hw.exists_record hc'
  exact ho conn (heq ▸ hconn) q hq p hp hr

/-- The queue pair goes when no request of the connection is left to be answered. -/
theorem lively_destroyQp {drop : Bool} (hl : s.Lively) (hw : s.Wired)
    (ho : s.Orderly (.destroyQp drop)) (h : step s (.destroyQp drop) = .ok s') : s'.Lively := by
  obtain ⟨c, conn, q, hleave, hc, hq, hs'⟩ := step_destroyQp h
  obtain ⟨hheld, hlook, hqueue⟩ := ho _ hleave q (by simp [destroying, hleave, hc, hq])
  have hqps : ∀ {q'}, q' ∈ s.qps → q' ≠ q → q' ∈ s'.qps := fun h hne => by
    rw [hs']
    exact List.mem_filter.mpr ⟨h, decide_eq_true hne⟩
  have hk : ∀ j, Keeps s s' j := fun j => ⟨by rw [hs']; rfl, fun _ _ => by rw [hs']; rfl⟩
  -- the queue pair is that of no other record
  have hon : ∀ {q' j}, s.LiveOn q' j → (s.requests j).conn ≠ some c → s'.LiveOn q' j := by
    intro q' j h hne
    refine (hk j).liveOn (hqps h.1 ?_) h
    rintro rfl
    obtain ⟨-, c', conn', hc', hconn', -, hq'⟩ := h
    exact hne (hc'.trans (congrArg some (hw.inj c' c q' ⟨conn', hconn', hq'⟩ ⟨conn, hc, hq⟩)))
  have hcq : ∀ e ∈ s'.cq.queue, e ∈ s.cq.queue ∧ ¬ (drop ∧ e.wc.qpNum = q) := fun e he => by
    rw [hs'] at he
    exact (List.mem_filter.mp he).imp_right of_decide_eq_true
  have hpol : s'.cq.polled = s.cq.polled := by rw [hs']; rfl
  refine ⟨fun p hp => ?_, fun p hp => ?_, ⟨fun e he q' hr => ?_, fun p hp q' hr => ?_, fun e he => ?_⟩,
    fun q' p hp => ?_⟩
  · have hp : p ∈ s.held := by rw [hs'] at hp; exact hp
    exact (hl.held p hp).imp fun _ h => hon h (hheld p hp)
  · have hp : p ∈ s.looked := by rw [hs'] at hp; exact hp
    exact (hl.looked p hp).imp fun _ h => hon h (hlook p hp)
  · obtain ⟨he, hnot⟩ := hcq e he
    refine hqps (hl.cq.queue e he q' hr) ?_
    rintro rfl
    cases hd : drop with
    | false => exact hqueue hd e he hr
    | true => exact hnot ⟨hd, hr.2.2⟩
  · rw [hpol] at hp
    rw [hs']
    exact hl.cq.polled p hp q' hr
  · have he : e ∈ s.cq.all := by
      rcases List.mem_append.mp he with he | he
      · exact List.mem_append_left _ (hcq e he).1
      · exact List.mem_append_right _ (hpol ▸ he)
    have := hl.cq.all e he
    exact ⟨this.known, fun hr => (hk _).liveConn (this.live hr)⟩
  · -- the writes of the queue pair are discarded
    have hp : ((q', p) ∈ s.sends ∨ (q', p) ∈ s.landed) ∧ q' ≠ q := by
      rw [hs'] at hp
      simp only [rdmaDestroyQp, List.mem_filter, decide_eq_true_eq] at hp
      rcases hp with ⟨hp, hne⟩ | ⟨hp, hne⟩
      · exact ⟨.inl hp, hne⟩
      · exact ⟨.inr hp, hne⟩
    have := hl.writes q' p hp.1
    exact (hk _).liveOn (hqps this.1 hp.2) this

/-- The record goes when no completion is left that reads it. -/
theorem lively_freeConn (hl : s.Lively) (hw : s.Wired) (ho : s.Orderly .freeConn)
    (h : step s .freeConn = .ok s') : s'.Lively := by
  obtain ⟨c, hleave, hs'⟩ := step_freeConn h
  have hrec := ho _ hleave
  have hk : ∀ {j}, (s.requests j).conn ≠ some c → Keeps s s' j := by
    intro j hne
    refine ⟨by rw [hs'], fun c' hc' => ?_⟩
    rw [hs']
    refine Function.update_of_ne ?_ _ _
    rintro rfl
    exact hne hc'
  -- a queue pair that is there is not that of the record
  have hon : ∀ {q' j}, s.LiveOn q' j → s'.LiveOn q' j := by
    intro q' j h
    refine (hk fun hc => ?_).liveOn (by rw [hs']; exact h.1) h
    obtain ⟨hmem, c', conn', hc', hconn', -, hq'⟩ := h
    obtain ⟨c₁, hc₁, hne⟩ := (hw.qp q').mp hmem
    obtain rfl : c' = c := Option.some.inj (hc'.symm.trans hc)
    exact hne (by rw [hleave, hw.inj c' c₁ q' ⟨conn', hconn', hq'⟩ hc₁])
  refine ⟨fun p hp => ?_, fun p hp => ?_, ⟨fun e he q' hr => ?_, fun p hp q' hr => ?_, fun e he => ?_⟩,
    fun q' p hp => ?_⟩
  · exact (hl.held p (by rw [hs'] at hp; exact hp)).imp fun _ => hon
  · exact (hl.looked p (by rw [hs'] at hp; exact hp)).imp fun _ => hon
  · rw [hs'] at he ⊢
    exact hl.cq.queue e he q' hr
  · rw [hs'] at hp ⊢
    exact hl.cq.polled p hp q' hr
  · have he : e ∈ s.cq.all := by rw [hs'] at he; exact he
    have := hl.cq.all e he
    exact ⟨this.known, fun hr => (hk (hrec e he hr)).liveConn (this.live hr)⟩
  · exact hon (hl.writes q' p (by rw [hs'] at hp; exact hp))

/-- `on_recv_req` points the context at the live record of the queue pair, and no other place
names the context. -/
theorem lively_find (hl : s.Lively) (hw : s.Wired)
    (hnd : s.places.Nodup) (hn : s.cq.next t = some (ce, cq)) (hop : ce.wc.opcode = .recv)
    (hst : ce.wc.status = .success)
    (hs' : s' = { s with
      cq
      requests := Function.update s.requests ce.wc.wrId
        { s.requests ce.wc.wrId with conn := s.connections.lookup ce.wc.qpNum }
      looked := s.looked ++ [(t, ce)] }) : s'.Lively := by
  have hpol : ∃ p ∈ s.cq.polled, p.2 = ce := by
    obtain ⟨r, hr, hr'⟩ := Option.map_eq_some_iff.mp hn
    cases hr'
    exact ⟨_, Keyed.mem_of_pop hr, rfl⟩
  obtain ⟨p, hp, rfl⟩ := hpol
  obtain ⟨c, hmem⟩ := hl.cq.polled p hp _ ⟨hop, hst, rfl⟩
  obtain ⟨conn, hconn, hqp, hsrv⟩ := hw.exists_record hmem
  -- the context is in one place only, so the contexts elsewhere keep theirs
  have hcount := List.nodup_iff_count_le_one.mp hnd p.2.wc.wrId
  rw [count_places, count_ctxsDone_next hn, List.count_singleton_self] at hcount
  have hk : ∀ l : List Nat, l.count p.2.wc.wrId = 0 → ∀ j ∈ l, Keeps s s' j := by
    intro l h0 j hj
    refine ⟨?_, fun _ _ => by rw [hs']⟩
    rw [hs']
    refine congrArg ServerReqCtx.conn (Function.update_of_ne ?_ _ _)
    rintro rfl
    exact absurd hj (List.count_eq_zero.mp h0)
  have hqps : s'.qps = s.qps := by rw [hs']
  have hcq := hl.cq.next hn
  refine ⟨fun p' hp' => ?_, fun p' hp' => ?_, ⟨fun e he q' hr => ?_, fun p' hp' q' hr => ?_,
    fun e he => ?_⟩, fun q' p' hp' => ?_⟩
  · have hp' : p' ∈ s.held := by rw [hs'] at hp'; exact hp'
    exact (hl.held p' hp').imp fun _ h =>
      (hk (s.held.map Prod.fst) (by omega) _ (List.mem_map_of_mem hp')).liveOn (hqps ▸ h.1) h
  · have hp' : p' ∈ s.looked ++ [(t, p.2)] := by rw [hs'] at hp'; exact hp'
    rcases List.mem_append.mp hp' with hp' | hp'
    · exact (hl.looked p' hp').imp fun _ h => (hk (ctxsDone (s.looked.map Prod.snd)) (by omega) _
        (List.mem_map_of_mem (List.mem_map_of_mem hp'))).liveOn (hqps ▸ h.1) h
    · cases List.mem_singleton.mp hp'
      rw [hs']
      refine ⟨p.2.wc.qpNum, hw.mem_qps hmem, c, conn, ?_, hconn, hsrv, hqp⟩
      simp only [Function.update_self]
      exact hw.lookup_eq_some.mpr hmem
  · rw [hs'] at he ⊢
    exact hcq.queue e he q' hr
  · rw [hs'] at hp' ⊢
    exact hcq.polled p' hp' q' hr
  · have he : e ∈ cq.all := by rw [hs'] at he; exact he
    have hh := hcq.all e he
    exact ⟨hh.known, fun hr =>
      (hk (ctxsDone cq.all) (by omega) _ (List.mem_map_of_mem he)).liveConn (hh.live hr)⟩
  · have hp' : (q', p') ∈ s.sends ∨ (q', p') ∈ s.landed := by rw [hs'] at hp'; exact hp'
    have hon := hl.writes q' p' hp'
    refine Keeps.liveOn ?_ (hqps ▸ hon.1) hon
    rcases hp' with hp' | hp'
    · exact hk (ctxsOf s.sends) (by omega) _ (List.mem_map_of_mem hp')
    · exact hk (ctxsOf s.landed) (by omega) _ (List.mem_map_of_mem hp')

theorem lively_step (hl : s.Lively) (hw : s.Wired) (hlive : s.WorkLive) (hs : s.Started)
    (hnd : s.places.Nodup) (ho : s.Orderly e) (h : step s e = .ok s') : s'.Lively := by
  cases e with
  | connectRequest q => exact lively_connectRequest hl hw hs h
  | established c => obtain rfl := step_established h; exact hl
  | disconnected c => exact lively_disconnected hl hw ho h
  | destroyQp drop => exact lively_destroyQp hl hw ho h
  | freeConn => exact lively_freeConn hl hw ho h
  | take q =>
      obtain ⟨-, -, i, sge, srq, -, rfl⟩ := step_take.mp h
      exact Lively.frame (s := s) (fun _ => rfl) rfl rfl rfl hl.held hl.looked hl.cq hl.writes
  | place q bytes =>
      obtain ⟨t, taken, -, -, rfl⟩ := step_place.mp h
      exact Lively.frame (s := s) (fun _ => rfl) rfl rfl rfl hl.held hl.looked hl.cq hl.writes
  | arrive q imm origin =>
      obtain ⟨t, taken, hp, rfl⟩ := step_arrive.mp h
      refine Lively.frame (s := s) (fun _ => rfl) rfl rfl rfl hl.held hl.looked
        (hl.cq.push (fun q' hr => ?_) ⟨nofun, ?_⟩) hl.writes
      · obtain rfl : q = q' := hr.2.2
        exact hlive.taken q t (Keyed.mem_of_pop hp)
      · rintro (hop | ⟨-, hst⟩) <;> contradiction
  | arriveFail q code fields junk origin =>
      obtain ⟨t, taken, hp, rfl⟩ := step_arriveFail h
      refine Lively.frame (s := s) (fun _ => rfl) rfl rfl rfl hl.held hl.looked
        (hl.cq.push (fun q' hr => absurd hr not_received_bad) ?_) hl.writes
      refine handleable_bad ho.1 (ho.2.imp_right fun hlive => hlive t ?_)
      rw [Keyed.queue_of_pop hp]
      rfl
  | poll t k =>
      obtain rfl := step_poll h
      exact Lively.frame (s := s) (fun _ => rfl) rfl rfl rfl hl.held hl.looked (hl.cq.poll hw ho)
        hl.writes
  | handle t =>
      obtain ⟨-, ce, cq, hn, h⟩ := step_handle h
      rcases onCompletion_eq_ok h with ⟨-, -, rfl⟩ | ⟨hop, hst, -, -, hs'⟩ | ⟨-, rfl⟩
      · exact Lively.frame (s := s) (fun _ => rfl) rfl rfl rfl hl.held hl.looked (hl.cq.next hn)
          hl.writes
      · exact lively_find hl hw hnd hn hop hst hs'
      · exact Lively.frame (s := s) (fun _ => rfl) rfl rfl rfl hl.held hl.looked (hl.cq.next hn)
          hl.writes
  | dispatch t =>
      obtain ⟨e, looked, c, conn, hpop, -, -, -, rfl⟩ := step_dispatch h
      refine Lively.frame (s := s) (fun j => ?_) rfl rfl rfl (fun p hp => ?_)
        (fun p hp => hl.looked p ((Keyed.pop_sublist hpop).subset hp)) hl.cq hl.writes
      · by_cases hj : j = e.wc.wrId
        · simp only [hj, Function.update_self]
        · exact congrArg ServerReqCtx.conn (Function.update_of_ne hj _ _)
      · rcases List.mem_append.mp hp with hp | hp
        · exact hl.held p hp
        · cases List.mem_singleton.mp hp
          exact hl.looked _ (Keyed.mem_of_pop hpop)
  | handlerWrite i addr bytes =>
      obtain ⟨-, -, -, rfl⟩ := step_handlerWrite h
      exact Lively.frame (s := s) (fun _ => rfl) rfl rfl rfl hl.held hl.looked hl.cq hl.writes
  | answer i resp respSz =>
      obtain ⟨hd, held, c, conn, q, hpop, hc, hconn, hq, hmem, rfl⟩ := step_answer h
      refine Lively.frame (s := s) (fun _ => rfl) rfl rfl rfl
        (fun p hp => hl.held p ((Keyed.pop_sublist hpop).subset hp)) hl.looked hl.cq fun q' p hp => ?_
      simp only [List.mem_append, List.mem_singleton, Prod.mk.injEq] at hp
      rcases hp with (hp | ⟨rfl, rfl⟩) | hp
      · exact hl.writes q' p (.inl hp)
      · exact ⟨hmem, c, conn, hc, hconn, (hw.server c conn hconn).1, hq⟩
      · exact hl.writes q' p (.inr hp)
  | land q =>
      obtain ⟨p₁, sends, hpop, rfl⟩ := step_land h
      refine Lively.frame (s := s) (fun _ => rfl) rfl rfl rfl hl.held hl.looked hl.cq fun q' p hp => ?_
      simp only [List.mem_append, List.mem_singleton, Prod.mk.injEq] at hp
      rcases hp with hp | hp | ⟨rfl, rfl⟩
      · exact hl.writes q' p (.inl ((Keyed.pop_sublist hpop).subset hp))
      · exact hl.writes q' p (.inr hp)
      · exact hl.writes q' p (.inl (Keyed.mem_of_pop hpop))
  | writeDone q en =>
      obtain ⟨p₁, landed, hpop, rfl⟩ := step_writeDone h
      -- the record is still there, for a response was to be written
      have hlive := (hl.writes q p₁ (.inr (Keyed.mem_of_pop hpop))).liveConn
      refine Lively.frame (s := s) (fun _ => rfl) rfl rfl rfl hl.held hl.looked
        (hl.cq.push (fun q' hr => ?_) ?_) fun q' p hp =>
          hl.writes q' p (hp.imp_right ((Keyed.pop_sublist hpop).subset ·))
      · cases en with
        | good => cases hr.1
        | bad code fields => exact absurd hr not_received_bad
      · cases en with
        | good => exact ⟨nofun, fun _ => hlive⟩
        | bad code fields => exact handleable_bad ho (.inr hlive)
  | flush q code fields =>
      obtain ⟨p₁, sends, hpop, rfl⟩ := step_flush h
      have hlive := (hl.writes q p₁ (.inl (Keyed.mem_of_pop hpop))).liveConn
      exact Lively.frame (s := s) (fun _ => rfl) rfl rfl rfl hl.held hl.looked
        (hl.cq.push (fun q' hr => absurd hr not_received_bad) (handleable_bad ho (.inr hlive)))
        fun q' p hp => hl.writes q' p (hp.imp_left ((Keyed.pop_sublist hpop).subset ·))

/-! ### No use in vain -/

theorem onWriteRespDone_ne_fault {wc : Wc Nat} {f : Fault} (h : s.LiveConn wc.wrId) :
    onWriteRespDone s wc ≠ .fault f := by
  rw [onWriteRespDone_eq_ok.mpr ⟨h, rfl⟩]
  nofun

theorem onCompletion_fault {f : Fault} (hh : s.Handleable ce.wc)
    (h : onCompletion s t ce = .fault f) : f.ofConn = false := by
  unfold onCompletion rdmaCqPoller at h
  cases hop : ce.wc.opcode with
  | recv =>
      simp only [hop, onRecvReq] at h
      split at h
      · rename_i hst
        have hlive := hh.live (.inr ⟨hop, hst⟩)
        exact absurd h (onWriteRespDone_ne_fault hlive)
      · simp only [onRecvReqFind, Outcome.bind_eq_fault, Outcome.check_eq_fault, Outcome.pure_eq,
          reduceCtorEq, and_false, exists_false, or_false] at h
        rcases h with ⟨-, rfl⟩ | ⟨-, -, -, rfl⟩ <;> rfl
  | rdmaWrite =>
      simp only [hop] at h
      exact absurd h (onWriteRespDone_ne_fault (hh.live (.inl hop)))
  | recvRdmaWithImm => exact absurd hop hh.known
  | send => simp [hop] at h
  | other code => simp [hop] at h

theorem takeRecv_ne_fault {f : Fault} : takeRecv s ≠ .fault f := by
  unfold takeRecv
  split
  · nofun
  · simp [Outcome.bind_eq_fault]

/-- The steps of a disconnect find the record they need. -/
theorem Wired.step_ne_fault (hw : s.Wired) {f : Fault} (he : e.cm = true) : step s e ≠ .fault f := by
  intro h
  cases e with
  | connectRequest q => simp [step, Outcome.bind_eq_fault] at h
  | disconnected c =>
      simp only [step, onDisconnectData, Outcome.bind_eq_fault, Outcome.require_ne_fault,
        Outcome.require_eq_ok, Outcome.deref_eq_fault, Outcome.pure_eq, false_or, reduceCtorEq,
        and_false, exists_false, or_false] at h
      obtain ⟨-, ⟨hsome, -⟩, hnone, -⟩ := h
      simp [hnone] at hsome
  | destroyQp drop =>
      simp only [step] at h
      split at h
      · rename_i c hl
        obtain ⟨conn, hc⟩ := Option.isSome_iff_exists.mp (hw.leaving _ hl)
        have hc : s.conns c = some conn := hc
        obtain ⟨-, q, hq⟩ := hw.server c conn hc
        simp [onDisconnectQp, Outcome.bind_eq_fault, hc, hq] at h
      · cases h
  | freeConn =>
      simp only [step] at h
      split at h
      · rename_i c hl
        obtain ⟨conn, hc⟩ := Option.isSome_iff_exists.mp (hw.leaving _ hl)
        have hc : s.conns c = some conn := hc
        simp [onDisconnectConn, Outcome.bind_eq_fault, hc] at h
      · cases h
  | _ => cases he

/-- Where the records that will be used are there, every use is sound. -/
theorem Lively.connSafe (hl : s.Lively) (hw : s.Wired) : s.ConnSafe := by
  intro e f h
  cases e with
  | connectRequest q => exact absurd h (hw.step_ne_fault rfl)
  | disconnected c => exact absurd h (hw.step_ne_fault rfl)
  | destroyQp drop => exact absurd h (hw.step_ne_fault rfl)
  | freeConn => exact absurd h (hw.step_ne_fault rfl)
  | handle t =>
      obtain ⟨ce, cq, hn, h⟩ := step_handle_eq_fault h
      have hh := hl.cq.all ce (Completions.mem_of_next hn)
      have hh' : Handleable { s with cq } ce.wc := ⟨hh.known, hh.live⟩
      exact onCompletion_fault hh' h
  | dispatch t =>
      simp only [step, onRecvReqCall, Outcome.bind_eq_fault, Outcome.choose_ne_fault,
        Outcome.choose_eq_ok, Outcome.deref_eq_fault, Outcome.deref_eq_ok, Outcome.check_eq_fault,
        Outcome.check_eq_ok, Outcome.pure_eq, false_or, Prod.exists, reduceCtorEq, and_false,
        exists_false, or_false] at h
      obtain ⟨e, looked, hpop, h⟩ := h
      obtain ⟨q, hon⟩ := hl.looked _ (Keyed.mem_of_pop hpop)
      obtain ⟨c, conn, hc, hconn, hsrv⟩ := hon.liveConn
      rcases h with ⟨hnone, -⟩ | ⟨c', hc', ⟨hnone, -⟩ | ⟨conn', hconn', hno, -⟩⟩
      · rw [hc] at hnone; cases hnone
      · rw [hc, Option.some.injEq] at hc'
        rw [← hc', hconn] at hnone
        cases hnone
      · exact absurd (hw.server _ _ hconn').1 hno
  | answer i resp respSz =>
      simp only [step, kvRdmaMakeResp, Outcome.bind_eq_fault, Outcome.choose_ne_fault,
        Outcome.choose_eq_ok, Outcome.deref_eq_fault, Outcome.deref_eq_ok, Outcome.check_eq_fault,
        Outcome.check_eq_ok, Outcome.pure_eq, false_or, Prod.exists, reduceCtorEq, and_false,
        exists_false, or_false] at h
      obtain ⟨hd, held, hpop, h⟩ := h
      obtain ⟨q, hq, c, conn, hc, hconn, hsrv, hqp⟩ := hl.held _ (Keyed.mem_of_pop hpop)
      rcases h with ⟨hnone, -⟩ | ⟨c', hc', h⟩
      · rw [hc] at hnone; cases hnone
      · rw [hc, Option.some.injEq] at hc'
        rw [← hc', hconn] at h
        -- the record has its queue pair, and the queue pair is there
        rcases h with ⟨hnone, -⟩ | ⟨conn', hconn', ⟨hnone, -⟩ | ⟨q', hq', hno, -⟩⟩
        · cases hnone
        · cases hconn'
          rw [hqp] at hnone; cases hnone
        · cases hconn'
          rw [hqp, Option.some.injEq] at hq'
          exact absurd (hq' ▸ hq) hno
  | established c =>
      simp only [step, onEstablished, Outcome.bind_eq_fault, Outcome.require_ne_fault,
        Outcome.require_eq_ok, Outcome.deref_eq_fault, Outcome.pure_eq, false_or, reduceCtorEq,
        and_false, exists_false, or_false] at h
      obtain ⟨-, ⟨hsome, -⟩, hnone, -⟩ := h
      simp [hnone] at hsome
  | _ => simp [step, Outcome.bind_eq_fault, takeRecv_ne_fault] at h

end

/-! ### Runs -/

section
variable {cfg : ServerCfg} {mem : Mem} {tr : List Event} {s : Server}

theorem lively_init : (init cfg mem).Lively where
  held := by simp [init]
  looked := by simp [init]
  cq := ⟨by simp [init, Completions.empty], by simp [init, Completions.empty], by simp [init]⟩
  writes := by simp [init]

theorem lively_run (ho : Along step Orderly (init cfg mem) tr)
    (h : run step (init cfg mem) tr = .ok s) : s.Lively := by
  have hinv : s.Lively ∧ ∃ tr, run step (init cfg mem) tr = .ok s := by
    refine run_invariant_along (P := fun s => s.Lively ∧ ∃ tr, run step (init cfg mem) tr = .ok s)
      ?_ ⟨lively_init, [], rfl⟩ ho h
    rintro s₁ e s₂ ⟨hl, tr₁, hr⟩ ho hs
    refine ⟨?_, tr₁ ++ [e], run_snoc_eq_ok.mpr ⟨s₁, hr, hs⟩⟩
    have hst : s₁.Started :=
      run_invariant (P := Started) (fun _ _ _ hP hs => started_step hP hs) started_init hr
    exact lively_step hl (wired_run hr) (workLive_run hr) hst (places_nodup hr) ho hs
  exact hinv.1

/-- **Lifetimes, on the server.**  After an orderly run no use of a connection can go wrong. -/
theorem connSafe_run (ho : Along step Orderly (init cfg mem) tr)
    (h : run step (init cfg mem) tr = .ok s) : s.ConnSafe :=
  (lively_run ho h).connSafe (wired_run h)

end

end Server

end RdmaRpc
