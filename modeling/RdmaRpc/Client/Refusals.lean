import RdmaRpc.Client.Answers

/-!
# Client — Refusals

A call of `kv_rdma_send_req` in which a post is refused.  The caller hears of it, but nothing the
call took is given back: the element goes to `kv_free` instead of `kv_mempool_put`, and a receive
posted before the send was refused stays posted (`sendReq_refused`).
-/

namespace RdmaRpc
open Lib

namespace Client

/-- The pool, the posted receives and the posted sends are what they were, and nothing has been
passed to `kv_free` that `kv_malloc` did not return. -/
structure LeavesAsFound (c c' : Client) : Prop where
  free : c'.mp.free.Perm c.mp.free
  recvs : c'.recvs = c.recvs
  sends : c'.sends = c.sends
  freed : c'.badFrees = c.badFrees

section
variable {c c' : Client} {mem mem' : Mem} {a : SendReq} {pick : Nat} {refuseRecv refuseSend : Bool}

/-- The callbacks of a refused call: one, with `success` false, if there is one to call. -/
def refusal (c : Client) (a : SendReq) : List Callback :=
  match a.cb with
  | some cb => [⟨cb, c.conn, false, a.req, a.resp, a.cbArg, c.calls.length⟩]
  | none => []

/-- What a refused call leaves behind. -/
theorem sendReq_refused (hr : refuseRecv = true ∨ refuseSend = true)
    (h : kvRdmaSendReq c mem a pick refuseRecv refuseSend = .ok (c', mem')) :
    c'.called = c.called ++ c.refusal a ∧ c'.sends = c.sends ∧
      c'.recvs = (if refuseRecv then c.recvs else c.recvs + 1) ∧
      ∃ ele, c.mp.free.Perm (ele :: c'.mp.free) ∧ c'.badFrees = c.badFrees ++ [ele] := by
  obtain ⟨-, -, ele, mp, hget, -, ⟨h₁, hc⟩ | ⟨h₁, -, hc⟩ | ⟨h₁, h₂, -⟩⟩ := kvRdmaSendReq_eq_ok h
  · rw [hc, h₁]
    exact ⟨rfl, rfl, rfl, ele, (kvMempoolGet_eq_some hget).1, rfl⟩
  · rw [hc, h₁]
    exact ⟨rfl, rfl, rfl, ele, (kvMempoolGet_eq_some hget).1, rfl⟩
  · rw [h₁, h₂] at hr
    simp at hr

/-- **Refusals.**  No refused call leaves the connection as it found it. -/
theorem refused_not_leavesAsFound (hr : refuseRecv = true ∨ refuseSend = true)
    (h : kvRdmaSendReq c mem a pick refuseRecv refuseSend = .ok (c', mem')) :
    ¬ LeavesAsFound c c' := by
  obtain ⟨-, -, -, ele, hperm, -⟩ := sendReq_refused hr h
  intro hl
  have h₁ := hperm.length_eq
  have h₂ := hl.free.length_eq
  rw [List.length_cons] at h₁
  omega

/-- Every refused call costs the pool an element: when as many have been refused as it has, the
next call writes through `NULL`. -/
theorem refusals_drain {reqs : List (SendReq × Nat × Bool)} {s s' : Client × Mem}
    (h : run step s (reqs.map fun r => .sendReq r.1 r.2.1 r.2.2 true) = .ok s') :
    s'.1.mp.free.length + reqs.length = s.1.mp.free.length := by
  induction reqs generalizing s with
  | nil => cases h; rfl
  | cons r reqs ih =>
      obtain ⟨s₁, h₁, h⟩ := Outcome.bind_eq_ok.mp h
      obtain ⟨-, -, -, ele, hperm, -⟩ := sendReq_refused (.inr rfl) h₁
      have := ih h
      have := hperm.length_eq
      simp only [List.length_cons] at this ⊢
      omega

end

/-- The send of the first request is refused: an element is gone, and a receive is posted that no
request will use. -/
theorem refused_smallReq :
    ∃ s, run step (init 0 7 4096, fun _ => 0) [.sendReq smallReq 0 false true] = .ok s ∧
      s.1.mp.free.length + 1 = (init 0 7 4096).mp.free.length ∧ s.1.badFrees ≠ [] ∧
      s.1.recvs = 1 ∧ s.1.sends = [] ∧ ¬ LeavesAsFound (init 0 7 4096) s.1 := by
  obtain ⟨c', mem', h⟩ : ∃ c' mem',
      kvRdmaSendReq (init 0 7 4096) (fun _ => 0) smallReq 0 false true = .ok (c', mem') :=
    ⟨_, _, kvRdmaSendReq_posted true rfl (get_init 0 7 4096) (by decide)⟩
  obtain ⟨-, hsends, hrecvs, ele, hperm, hfrees⟩ := sendReq_refused (.inr rfl) h
  have hlen := hperm.length_eq
  rw [List.length_cons] at hlen
  refine ⟨(c', mem'), run_singleton.trans h, hlen.symm, by simp [hfrees], hrecvs, hsends, fun hl => ?_⟩
  have := hl.recvs
  rw [hrecvs] at this
  cases this

/-- The connection with its first send refused is not as it was. -/
theorem refused_init :
    ∃ s, run step (init 0 7 4096, fun _ => 0) [.sendReq smallReq 0 false true] = .ok s ∧
      ¬ LeavesAsFound (init 0 7 4096) s.1 := by
  have h : kvRdmaSendReq (init 0 7 4096) (fun _ => 0) smallReq 0 false true = .ok _ :=
    kvRdmaSendReq_posted true rfl (get_init 0 7 4096) (by decide)
  exact ⟨_, run_singleton.trans h, refused_not_leavesAsFound (.inr rfl) h⟩

end Client

end RdmaRpc
