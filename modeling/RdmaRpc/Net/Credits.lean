import RdmaRpc.Net.Requests

/-!
# Net — Credits

How many requests the server takes.  Each request in the server occupies a context, and so does each
message in progress, so the shared queue is as long as `con_req_num` less these (`length_srq`).  The
server gives the receive back when it handles the completion of the response write; the client counts
the request as finished when its callback is called, and the two are not ordered.

So the requests outstanding may number one and the queue still be empty when the next message
comes, which then fails (`srq_empty_on_arrival`).  What keeps a receive for each message is a bound on
the requests outstanding together with those called back whose receive has not been given back
(`srq_ne_nil_of_credits`).
-/

namespace RdmaRpc
open Lib

namespace Net
open Client (smallReq)

/-- The accepted requests, of all clients. -/
def requests (n : Net) : List Origin :=
  n.server.qps.flatMap fun q => (n.clients q).elim [] fun c => c.accepted.map (Origin.mk q)

/-- The callback of the request has been called. -/
def Called (n : Net) (o : Origin) : Prop :=
  o.call ∈ (n.clients o.qp).elim [] fun c => c.called.map Callback.call

/-- The requests that are on the wire, or occupy a context. -/
def serving (n : Net) : List Origin :=
  n.wire.map (·.2.origin) ++ n.server.asked ++ n.server.served

instance (n : Net) : DecidablePred n.Called := fun _ => inferInstanceAs (Decidable (_ ∈ _))

/-- The requests from their call until their callback is called. -/
def outstanding (n : Net) : List Origin := n.requests.filter fun o => ¬ n.Called o

/-- The requests called back whose receive the server has not given back. -/
def uncredited (n : Net) : List Origin := n.requests.filter fun o => n.Called o ∧ o ∈ n.serving

section
variable {n : Net} {o : Origin} {q : QpNum} {cfg : ServerCfg} {mem : Mem} {hosts : Nat → Mem} {tr : List Event}

theorem mem_accepted {c : Client} {k : Nat} : k ∈ c.accepted ↔ (c.ticket k).isSome := by
  rw [ticket_isSome, Client.accepted, List.mem_filter, List.mem_range, Option.any_eq_true]
  constructor
  · exact fun ⟨_, h⟩ => h
  · rintro ⟨call, hc, ha⟩
    exact ⟨Client.lt_of_getElem? hc, call, hc, ha⟩

theorem Linked.mem_requests (hl : n.Linked) : o ∈ n.requests ↔ (n.ticket o).isSome := by
  obtain ⟨q, k⟩ := o
  simp only [requests, List.mem_flatMap, ← hl.known, ticket]
  constructor
  · rintro ⟨q', hq', ho⟩
    obtain ⟨c, hc⟩ := Option.isSome_iff_exists.mp hq'
    rw [hc, Option.elim_some, List.mem_map] at ho
    obtain ⟨k', hk', heq⟩ := ho
    cases heq
    rw [hc, Option.bind_some]
    exact mem_accepted.mp hk'
  · intro h
    cases hc : n.clients q with
    | none => simp [hc] at h
    | some c =>
        rw [hc, Option.bind_some] at h
        exact ⟨q, by simp [hc], by
          rw [hc, Option.elim_some]
          exact List.mem_map_of_mem (mem_accepted.mpr h)⟩

/-- What is in service was requested, and once. -/
theorem Linked.serving_subperm (hl : n.Linked) : n.serving.Nodup ∧ ∀ o ∈ n.serving, o ∈ n.requests := by
  have hle : ∀ o, n.serving.count o ≤ (n.ticket o).elim 0 fun _ => 1 := fun o => by
    have h₁ := hl.law o
    have h₂ := hl.served o
    simp only [copies] at h₁
    simp only [serving, List.count_append]
    omega
  refine ⟨List.nodup_iff_count_le_one.mpr fun o => (hle o).trans ?_, fun o ho => ?_⟩
  · cases n.ticket o <;> simp
  · have hpos := List.count_pos_iff.mpr ho
    have := hle o
    rw [hl.mem_requests]
    cases ht : n.ticket o with
    | none => rw [ht, Option.elim_none] at this; omega
    | some t => rfl

/-- The requests in service are no more than those outstanding and those uncredited. -/
theorem Linked.length_serving (hl : n.Linked) :
    n.serving.length ≤ n.outstanding.length + n.uncredited.length := by
  obtain ⟨hnd, hsub⟩ := hl.serving_subperm
  rw [← List.length_append]
  refine (List.subperm_of_subset hnd fun o ho => ?_).length_le
  rw [List.mem_append, outstanding, uncredited, List.mem_filter, List.mem_filter]
  by_cases hc : n.Called o
  · exact .inr ⟨hsub o ho, by simp [hc, ho]⟩
  · exact .inl ⟨hsub o ho, by simp [hc]⟩

/-- **Each request in the server occupies a receive, each message in progress does, and nothing
else.** -/
theorem length_srq (h : run step (init cfg mem hosts) tr = .ok n) (hr : n.server.hasRequests = true) :
    n.server.srq.length + n.server.taken.length + (n.server.asked ++ n.server.served).length =
      cfg.conReqNum := by
  obtain ⟨tr', hrun, hg⟩ := server_run h
  have hperm := (Server.places_perm hg hrun).length_eq
  have hcfg : n.server.cfg = cfg := Server.cfg_run hrun
  rw [Server.length_places (Server.smooth_run hg hrun), Server.supply, if_pos hr, hcfg,
    List.length_range] at hperm
  exact hperm.symm

/-- The first connection sets the queue up. -/
theorem hasRequests_of_known (h : run step (init cfg mem hosts) tr = .ok n) (hq : n.server.qps ≠ []) :
    n.server.hasRequests = true := by
  obtain ⟨tr', hrun, hg⟩ := server_run h
  refine run_invariant_along (P := fun s : Server => s.qps ≠ [] → s.hasRequests = true)
    (fun s e s' hP hg hs hne => ?_) (fun hne => absurd rfl hne)
    (along_of_forall fun _ e he => hg e he) hrun hq
  cases hcm : e.cm with
  | false =>
      rw [(Server.step_cm hcm hs).2.2.1] at hne
      exact (Server.step_frame hs).2 (hP hne)
  | true =>
      cases e with
      | connectRequest q =>
          obtain ⟨-, -, rfl⟩ := Server.step_connectRequest hs
          exact (Server.withRequests_frame s).2.1
      | disconnected c => exact hg.elim
      | destroyQp drop => exact hg.elim
      | freeConn => exact hg.elim
      | _ => cases hcm

/-- A message is on the wire of a connection. -/
theorem Linked.qps_ne_nil (hl : n.Linked) (hw : n.wire ≠ []) : n.server.qps ≠ [] := by
  obtain ⟨⟨q, m⟩, hm⟩ := List.exists_mem_of_ne_nil _ hw
  have hserv : m.origin ∈ n.serving := by
    simp only [serving, List.mem_append]
    exact .inl (.inl (List.mem_map_of_mem hm))
  have hreq := hl.serving_subperm.2 _ hserv
  rw [requests, List.mem_flatMap] at hreq
  obtain ⟨q', hq', -⟩ := hreq
  exact List.ne_nil_of_mem hq'

/-- The messages in progress are on the wire, and so is one of a queue pair that has none in
progress. -/
theorem Linked.length_taken_lt (hl : n.Linked) (hlive : n.server.WorkLive)
    (hw : Keyed.queue q n.wire ≠ []) (hidle : Keyed.queue q n.server.taken = []) :
    n.server.taken.length < n.wire.length := by
  have hnew : q ∉ n.server.taken.map Prod.fst := by
    intro hq
    obtain ⟨p, hp, rfl⟩ := List.mem_map.mp hq
    exact Keyed.queue_eq_nil.mp hidle p hp rfl
  have hsub : ∀ q' ∈ q :: n.server.taken.map Prod.fst, q' ∈ n.wire.map Prod.fst := by
    have hmem : ∀ {q'}, Keyed.queue q' n.wire ≠ [] → q' ∈ n.wire.map Prod.fst := by
      intro q' hne
      obtain ⟨m, hm⟩ := List.exists_mem_of_ne_nil _ hne
      exact List.mem_map.mpr ⟨(q', m), Keyed.mem_queue.mp hm, rfl⟩
    intro q' hq'
    rcases List.mem_cons.mp hq' with rfl | hq'
    · exact hmem hw
    · obtain ⟨⟨q', t⟩, ht, rfl⟩ := List.mem_map.mp hq'
      exact hmem (hl.busy q' t ht)
  have hle := (List.subperm_of_subset (List.nodup_cons.mpr ⟨hnew, hlive.single⟩) hsub).length_le
  rw [List.length_cons, List.length_map, List.length_map] at hle
  exact hle

/-- **Admission.**  As long as the requests outstanding, and those called back whose receive has not
been given back, number at most `con_req_num`, a message that has not taken a receive finds one. -/
theorem srq_ne_nil_of_credits (h : run step (init cfg mem hosts) tr = .ok n)
    (hw : n.server.taken.length < n.wire.length)
    (hc : n.outstanding.length + n.uncredited.length ≤ cfg.conReqNum) : n.server.srq ≠ [] := by
  have hl := linked_run h
  have hne : n.wire ≠ [] := fun hnil => by simp [hnil] at hw
  have hlen := length_srq h (hasRequests_of_known h (hl.qps_ne_nil hne))
  have hserv := hl.length_serving
  rw [serving, List.append_assoc, List.length_append, List.length_map] at hserv
  intro hnil
  rw [hnil, List.length_nil] at hlen
  omega

end

/-! ### One context -/

/-- The first message finds the one receive. -/
theorem srq_ne_nil_oneContext :
    ∃ tr n, run step (init oneContext (fun _ => 0) fun _ _ => 0) tr = .ok n ∧
      n.server.taken.length < n.wire.length ∧ n.server.srq ≠ [] := by
  have hend : Outcome.Ends
      (fun n : Net => n.server.taken.length < n.wire.length ∧
        n.outstanding.length + n.uncredited.length ≤ oneContext.conReqNum)
      (run step oneClient [.sendReq 7 smallReq 0, .transmit 7]) := by decide +kernel
  obtain ⟨n, hn, hw, hc⟩ := Outcome.ends_iff.mp hend
  have hrun := run_append_eq_ok.mpr ⟨_, run_connect, hn⟩
  exact ⟨_, n, hrun, hw, srq_ne_nil_of_credits hrun hw hc⟩

/-- One request after the other: the second is sent when the callback of the first has been
called, and the server has not handled the completion of the first response write. -/
def nextAtOnce : List Event :=
  [.sendReq 7 smallReq 0, .transmit 7, .take 7, .place 7 16, .arrive 7, .server (.poll 0 1),
    .server (.handle 0), .server (.dispatch 0), .answer 0 4108 4, .land 7, .client 7 (.poll 0 1),
    .client 7 (.handle 0), .sendReq 7 smallReq 0, .transmit 7]

/-- There is never more than one request outstanding, and the second finds no receive and fails. -/
theorem srq_empty_on_arrival :
    ∃ tr n, run step (init oneContext (fun _ => 0) fun _ _ => 0) tr = .ok n ∧
      Along step (fun n _ => n.outstanding.length ≤ oneContext.conReqNum)
        (init oneContext (fun _ => 0) fun _ _ => 0) tr ∧
      n.outstanding.length ≤ oneContext.conReqNum ∧ n.server.taken.length < n.wire.length ∧
      n.server.srq = [] ∧ step n (.take 7) = .fault .receiverNotReady := by
  have hend : Outcome.Ends
      (fun n : Net => n.outstanding.length ≤ oneContext.conReqNum ∧
        n.server.taken.length < n.wire.length ∧ n.server.srq = [] ∧
        step n (.take 7) = .fault .receiverNotReady)
      (run step oneClient nextAtOnce) := by decide +kernel
  have halong : Along step (fun n _ => n.outstanding.length ≤ oneContext.conReqNum) oneClient
      nextAtOnce := by decide +kernel
  obtain ⟨n, hn, h₁, h₂, h₃, h₄⟩ := Outcome.ends_iff.mp hend
  exact ⟨[.connect 7 0 8192] ++ nextAtOnce, n, run_append_eq_ok.mpr ⟨_, run_connect, hn⟩,
    along_connect (Nat.zero_le _) halong, h₁, h₂, h₃, h₄⟩

end Net

end RdmaRpc
