import RdmaRpc.Server.Slots

/-!
# Server — Ownership

Who owns a context.  Each context is in at most one of six hands: a receive posted on the
shared queue, a receive taken for a message in progress, a completion of a receive still to be
handled, a call of the handler, a response write, a completion of a response write still to be
handled.  This is `places_nodup`, sorted by the kind of a completion (`owners_subperm`).

What follows for the slots does not follow from the ownership of contexts alone, because a
start-up receive runs over the slots behind its own.  But those slots belong to contexts whose
start-up receives are still queued behind it, and so to no one else (`closed_of_owned`).
-/

namespace RdmaRpc
open Lib

namespace Server

/-- The completions still to be handled. -/
def pending (s : Server) : List (Cqe Nat) := s.cq.all ++ s.looked.map Prod.snd

/-- The contexts of the receives on the shared queue. -/
def recvPosted (s : Server) : List Nat := s.srq.map RecvWr.wrId

/-- The contexts of the receives taken for messages in progress. -/
def receiving (s : Server) : List Nat := ctxsTaken s.taken

/-- The contexts of the receive completions still to be handled. -/
def recvPending (s : Server) : List Nat := ctxsDone (s.pending.filter (·.kind = .serverRecv))

/-- The contexts the handler holds. -/
def heldCtxs (s : Server) : List Nat := s.held.map Prod.fst

/-- The contexts of the response writes not completed. -/
def writesOut (s : Server) : List Nat := ctxsOf s.sends ++ ctxsOf s.landed

/-- The contexts of the write completions still to be handled. -/
def writePending (s : Server) : List Nat := ctxsDone (s.pending.filter (·.kind = .respWrite))

/-- The contexts of the response writes that take up room in the send queue of `q`: a write does
so until its completion has been polled. -/
def writesOn (s : Server) (q : QpNum) : List Nat :=
  ctxsOf (s.sends.filter (·.1 = q)) ++ ctxsOf (s.landed.filter (·.1 = q)) ++
    ctxsDone (s.pending.filter fun e => e.kind = .respWrite ∧ e.wc.qpNum = q)

/-- The contexts that are not open for a message. -/
def owned (s : Server) : List Nat :=
  s.receiving ++ s.recvPending ++ s.heldCtxs ++ s.writesOut ++ s.writePending

/-- A new message can change the byte at `x`. -/
def Open (s : Server) (x : Nat) : Prop :=
  ∃ wr ∈ s.srq, ∃ sge, wr.sge = some sge ∧ sge.addr ≤ x ∧ x < sge.addr + sge.length ∧
    s.mrs.mr.addr ≤ x ∧ x < s.regionEnd

/-- Each context has one owner; a slot owned is not open; and there is room for the posts of
`on_write_resp_done` and `kv_rdma_make_resp`. -/
structure Exclusive (s : Server) : Prop where
  nodup : (s.recvPosted ++ s.owned).Nodup
  closed : ∀ i ∈ s.owned, ∀ x, InSlot s.cfg i x → ¬ s.Open x
  srq_le : s.srq.length ≤ s.cfg.conReqNum
  writes_le : ∀ q, (s.writesOn q).length ≤ s.cfg.conReqNum
  room_srq : s.pending ≠ [] → s.srq.length < maxQNum
  room_sq : s.held ≠ [] → ∀ q, (s.writesOn q).length < maxQNum

/-! ### The owners among the places -/

section
variable {s : Server} {i : Nat}

theorem count_ctxsDone_sublist {l l' : List (Cqe Nat)} (h : l.Sublist l') :
    (ctxsDone l).count i ≤ (ctxsDone l').count i :=
  (h.map _).count_le i

/-- A completion has one kind. -/
theorem count_ctxsDone_kinds (l : List (Cqe Nat)) :
    (ctxsDone (l.filter (·.kind = .serverRecv))).count i +
      (ctxsDone (l.filter (·.kind = .respWrite))).count i ≤ (ctxsDone l).count i := by
  have h := count_map_filter (i := i) (fun e : Cqe Nat => e.wc.wrId)
    (fun e => e.kind = .serverRecv) l
  have hsub : (l.filter (·.kind = .respWrite)).Sublist (l.filter fun e => !(e.kind = .serverRecv)) :=
    List.monotone_filter_right l fun e he => by simp_all
  have := count_ctxsDone_sublist (i := i) hsub
  simp only [ctxsDone] at *
  omega

theorem count_ctxsDone_pending :
    (ctxsDone s.pending).count i =
      (ctxsDone s.cq.all).count i + (ctxsDone (s.looked.map Prod.snd)).count i := by
  simp only [pending, ctxsDone, List.map_append, List.count_append]

/-- The six hands are places apart. -/
theorem owners_subperm : (s.recvPosted ++ s.owned).Subperm s.places := by
  refine List.subperm_iff_count.mpr fun i => ?_
  have hk := count_ctxsDone_kinds (i := i) s.pending
  rw [count_ctxsDone_pending] at hk
  simp only [owned, recvPosted, receiving, recvPending, heldCtxs, writesOut, writePending,
    List.count_append, count_places]
  omega

/-- A context posted again leaves room for itself. -/
theorem pending_subperm {e : Cqe Nat} (he : e ∈ s.pending) :
    (e.wc.wrId :: s.recvPosted).Subperm s.places := by
  refine List.subperm_iff_count.mpr fun i => ?_
  have hp := count_ctxsDone_sublist (i := i) (List.singleton_sublist.mpr he)
  rw [count_ctxsDone_pending] at hp
  simp only [ctxsDone, List.map_cons, List.map_nil] at hp
  rw [← List.singleton_append, List.count_append, count_places, recvPosted]
  simp only [ctxsDone]
  omega

theorem count_writesOn (q : QpNum) :
    (s.writesOn q).count i ≤ (ctxsOf s.sends).count i + (ctxsOf s.landed).count i +
      (ctxsDone s.pending).count i := by
  have hsub : ∀ l : List (QpNum × Posted), (ctxsOf (l.filter (·.1 = q))).count i ≤ (ctxsOf l).count i :=
    fun l => (List.filter_sublist.map _).count_le i
  have h₁ := hsub s.sends
  have h₂ := hsub s.landed
  have h₃ := count_ctxsDone_sublist (i := i) ((List.filter_sublist :
    (s.pending.filter fun e => e.kind = .respWrite ∧ e.wc.qpNum = q).Sublist s.pending))
  simp only [writesOn, List.count_append]
  omega

theorem writesOn_subperm (q : QpNum) : (s.writesOn q).Subperm s.places := by
  refine List.subperm_iff_count.mpr fun i => ?_
  have := count_writesOn (s := s) (i := i) q
  rw [count_ctxsDone_pending] at this
  rw [count_places]
  omega

/-- A response leaves room for itself. -/
theorem held_subperm {i : Nat} (hi : i ∈ s.heldCtxs) (q : QpNum) :
    (i :: s.writesOn q).Subperm s.places := by
  refine List.subperm_iff_count.mpr fun j => ?_
  have hw := count_writesOn (s := s) (i := j) q
  have hh := (List.singleton_sublist.mpr hi).count_le j
  rw [count_ctxsDone_pending] at hw
  rw [← List.singleton_append, List.count_append, count_places, ← heldCtxs]
  omega

end

/-! ### Runs -/

section
variable {cfg : ServerCfg} {mem : Mem} {tr : List Event} {s : Server}

theorem owners_nodup (h : run step (init cfg mem) tr = .ok s) :
    (s.recvPosted ++ s.owned).Nodup := by
  obtain ⟨l, hp, hsub⟩ := owners_subperm (s := s)
  exact hp.nodup_iff.mp (hsub.nodup (places_nodup h))

/-- **A slot owned is not open.**  The receive that could run over it is a start-up receive of an
earlier context, and then the start-up receive of the slot's own context is still posted. -/
theorem closed_of_owned (h : run step (init cfg mem) tr = .ok s) (hreg : regionSz cfg < 2 ^ 64)
    {i x : Nat} (hi : i ∈ s.owned) (hx : InSlot cfg i x) : ¬ s.Open x := by
  rintro ⟨wr, hwr, sge, hsge, hlo, hhi, -, -⟩
  have hcfg : s.cfg = cfg := cfg_run h
  have hinv := slotInv_run h
  have hnd := List.nodup_append.mp (owners_nodup h)
  have hlt : ∀ j ∈ s.recvPosted ++ s.owned, j < cfg.conReqNum :=
    fun j hj => lt_of_mem_places h (owners_subperm.subset hj)
  have hposted : ∀ wr ∈ s.srq, wr.wrId ∈ s.recvPosted := fun wr hwr => List.mem_map_of_mem hwr
  have hn := hlt i (List.mem_append_right _ hi)
  have hr := hinv.started.hasRequests_of_mem (owners_subperm.subset (List.mem_append_right _ hi))
  obtain ⟨l, hl⟩ := hinv.srq hr
  rw [hcfg] at hl
  have hmem := hwr
  rw [hl, List.mem_append, List.mem_map, List.mem_map] at hmem
  rcases hmem with ⟨j, hj, rfl⟩ | ⟨j, -, rfl⟩
  · -- the start-up receives of the contexts from `takes` on are posted, so `i` is below
    obtain ⟨m, hm, rfl⟩ := List.mem_iff_getElem.mp hj
    simp only [List.length_drop, List.length_range] at hm
    simp only [List.getElem_drop, List.getElem_range, startupWr, Option.some.injEq] at hsge
    subst hsge
    have hik : i < s.takes := by
      by_contra hge
      have hin : startupWr cfg i ∈ s.srq := by
        rw [hl]
        refine List.mem_append_left _ (List.mem_map_of_mem (List.mem_iff_getElem.mpr ?_))
        exact ⟨i - s.takes, by simp only [List.length_drop, List.length_range]; omega,
          by simp only [List.getElem_drop, List.getElem_range]; omega⟩
      exact hnd.2.2 i (hposted _ hin) i hi rfl
    have := slot_end_le (i := i) (j := s.takes + m) hreg (by omega) (by omega)
    have := hx.2
    have hlo : (slot cfg (s.takes + m)).addr ≤ x := hlo
    omega
  · -- a reposted receive is the slot of another context
    have hne : j ≠ i := fun he => hnd.2.2 j (hposted _ hwr) i hi he
    have hj := hlt j (List.mem_append_left _ (hposted _ hwr))
    simp only [repostWr, Option.some.injEq] at hsge
    subst hsge
    have := u32_le (slot cfg j).length
    rcases Nat.lt_or_gt_of_ne hne with hji | hij
    · have := slot_end_le hreg hn hji
      have := hx.1
      simp only at hhi
      omega
    · have := slot_end_le hreg hj hij
      have := hx.2
      simp only at hlo
      omega

theorem regionSz_lt (hn : cfg.conReqNum ≤ maxQNum) : regionSz cfg < 2 ^ 64 := by
  have hsz : slotSz cfg = cfg.maxMsgSz + headerSize := slotSz_eq
  have hmax := cfg.maxMsgSz_lt
  have hle : slotSz cfg * cfg.conReqNum ≤ (2 ^ 32 + 12) * 4096 :=
    Nat.mul_le_mul (by simp only [headerSize] at hsz; omega) hn
  exact Nat.lt_of_le_of_lt hle (by decide)

/-- **Exclusive ownership.**  At most `MAX_Q_NUM` contexts are owned exclusively, in every state
the server reaches. -/
theorem exclusive_run (hn : cfg.conReqNum ≤ maxQNum) (h : run step (init cfg mem) tr = .ok s) :
    Exclusive s := by
  have hcfg : s.cfg = cfg := cfg_run h
  have hsrq : (s.recvPosted).Subperm s.places :=
    (List.sublist_append_left _ _).subperm.trans owners_subperm
  refine ⟨owners_nodup h, fun i hi x hx => ?_, ?_, fun q => ?_, fun hne => ?_, fun hne q => ?_⟩
  · exact closed_of_owned h (regionSz_lt hn) hi (hcfg ▸ hx)
  · rw [hcfg, ← List.length_map RecvWr.wrId]
    exact length_le_of_subperm h hsrq
  · rw [hcfg]
    exact length_le_of_subperm h (writesOn_subperm q)
  · obtain ⟨e, he⟩ := List.exists_mem_of_ne_nil _ hne
    have := length_le_of_subperm h (pending_subperm he)
    simp only [recvPosted, List.length_cons, List.length_map] at this
    omega
  · obtain ⟨p, hp⟩ := List.exists_mem_of_ne_nil _ hne
    have := length_le_of_subperm h (held_subperm (List.mem_map_of_mem hp) q)
    simp only [List.length_cons] at this
    omega

/-- Three clients connect.  The request of one is answered, and this client disconnects.  Of the
requests that follow, one has its write completion polled by the other thread, one is answered, one
is held by the handler, one has landed, and one is landing. -/
def busyRun : List Event :=
  [.connectRequest 7, .connectRequest 8, .connectRequest 9] ++ oneRound 9 0 ++
    [.disconnected 2, .destroyQp true, .freeConn] ++ upToDone 7 1 ++ [.poll 1 1] ++ upToCall 8 ++
    [.answer 2 4140 4] ++ upToCall 7 ++
    [.take 7, .place 7 (List.replicate 16 0), .arrive 7 (some 0) ⟨7, 2⟩, .take 8,
      .place 8 (List.replicate 8 0)]

/-- Six contexts, each in another hand, are owned exclusively. -/
theorem exclusive_sixContexts :
    ∃ s, run step (init sixContexts fun _ => 0) busyRun = .ok s ∧ s.recvPosted = [0] ∧
      s.receiving = [5] ∧ s.recvPending = [4] ∧ s.heldCtxs = [3] ∧ s.writesOut = [2] ∧
      s.writePending = [1] ∧ Exclusive s := by
  have h : run step (init sixContexts fun _ => 0) busyRun = .ok _ := rfl
  exact ⟨_, h, rfl, rfl, rfl, rfl, rfl, rfl, exclusive_run (by decide) h⟩

end

end Server

end RdmaRpc
