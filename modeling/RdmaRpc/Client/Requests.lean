import RdmaRpc.Client.Machine
import Mathlib.Data.List.Nodup

/-!
# Client — Requests

What keeps a client's requests apart.  A call waits from the moment its posts are accepted until
its callback is called; meanwhile its pool element is taken by no other call, and holds what the
call stored there (`Owns`).  So a response that carries the id of the element calls the callback
of its own call.

`Sound` is the invariant.  It needs of the environment that a response is delivered at most once,
for a call that was accepted, with the id of that call, and that no failed receive is handed to
`on_recv_resp` (`Proper`).
-/

namespace RdmaRpc
open Lib

namespace Client

/-- What `kv_rdma_send_req` stores in the element. -/
def ctxOf (conn : ConnId) (a : SendReq) : ClientReqCtx := ⟨conn, a.cb, a.cbArg, a.req, a.resp⟩

/-- The immediate value of the response to a call that took the element `ele`. -/
def respImm (mp : KvMempool) (ele : Nat) : BitVec 32 := BitVec.ofInt 32 (kvMempoolGetId mp ele)

/-- The call `k` was accepted and its callback has not been called. -/
structure Waiting (c : Client) (k : Nat) (call : Call) : Prop where
  recorded : c.calls[k]? = some call
  accepted : call.accepted = true
  uncalled : k ∉ c.called.map Callback.call

/-- The element of the call is its own. -/
structure Owns (c : Client) (k : Nat) (call : Call) : Prop where
  element : call.ele ∈ c.mp.elements
  taken : call.ele ∉ c.mp.free ++ c.returning.map Prod.snd
  owner : c.owner call.ele = k
  ctx : c.ctxs call.ele = some (ctxOf c.conn call.args)

/-- `on_recv_resp` takes the completion for a response. -/
def Responds (wc : Wc ClientWrId) : Bool :=
  match wc.wrId with
  | .conn _ => wc.opcode = .recvRdmaWithImm
  | .ctx _ => false

/-- The calls with a response still to be handled. -/
def responses (c : Client) : List Nat :=
  (c.cq.all.filter fun e => Responds e.wc).map fun e => e.origin.call

/-- The callback of a call. -/
def callbackOf (conn : ConnId) (call : Call) (cb k : Nat) : Callback :=
  ⟨cb, conn, call.accepted, call.args.req, call.args.resp, call.args.cbArg, k⟩

/-- The elements of the waiting calls are their own, and each callback called is the right one. -/
structure Sound (c : Client) : Prop where
  count : c.mp.count = poolCount
  size : c.mp.eleSize = ctxSize
  nodup : (c.mp.free ++ c.returning.map Prod.snd).Nodup
  sub : ∀ ele ∈ c.mp.free ++ c.returning.map Prod.snd, ele ∈ c.mp.elements
  owns : ∀ k call, c.Waiting k call → c.Owns k call
  responses_nodup : c.responses.Nodup
  response : ∀ e ∈ c.cq.all, Responds e.wc = true → e.wc.status = .success ∧ e.wc.withImm = true ∧
    e.origin.call ∈ c.delivered ∧
    ∃ call, c.Waiting e.origin.call call ∧ e.wc.immData = respImm c.mp call.ele
  called_nodup : (c.called.map Callback.call).Nodup
  right : ∀ r ∈ c.called, ∃ call cb, c.calls[r.call]? = some call ∧ call.args.cb = some cb ∧
    r = callbackOf c.conn call cb r.call ∧ (call.accepted = true → r.call ∈ c.delivered)
  answered : c.stage = .up → ∀ k ∈ c.delivered, k ∈ c.responses ∨ k ∈ c.called.map Callback.call

/-- The environment answers a call at most once, after it was accepted and with the id of its
element, and no failed receive is handed to `on_recv_resp`. -/
def Proper (c : Client) : Event → Prop
  | .deliver k imm _ => k ∉ c.delivered ∧
      ∃ call, c.calls[k]? = some call ∧ call.accepted = true ∧ imm = respImm c.mp call.ele
  | .recvFail _ fields => fields.opcode ≠ .recvRdmaWithImm
  | _ => True

/-! ### Frames -/

section
variable {c c' : Client} {s s' : Client × Mem} {k : Nat} {call : Call} {e : Event}

theorem getElem?_snoc {α : Type} {l : List α} {x y : α} {k : Nat} :
    (l ++ [x])[k]? = some y ↔ l[k]? = some y ∨ k = l.length ∧ x = y := by
  rcases Nat.lt_trichotomy k l.length with hk | rfl | hk
  · simp [List.getElem?_append_left hk, Nat.ne_of_lt hk]
  · simp
  · rw [List.getElem?_eq_none (by simp; omega), List.getElem?_eq_none (by omega)]
    simp [Nat.ne_of_gt hk]

theorem lt_of_getElem? {α : Type} {l : List α} {x : α} {k : Nat} (h : l[k]? = some x) :
    k < l.length := (List.getElem?_eq_some_iff.mp h).1

theorem responses_push {e : Cqe ClientWrId} (h : c'.cq = c.cq.push e) :
    c'.responses.Perm ((if Responds e.wc then [e.origin.call] else []) ++ c.responses) := by
  rw [responses, h]
  have hp := (Completions.all_push (c := c.cq) (e := e)).filter fun e => Responds e.wc
  refine (hp.map _).trans ?_
  rw [List.filter_cons]
  split <;> simp [responses]

theorem responses_next {e : Cqe ClientWrId} {t : Thread} (h : c.cq.next t = some (e, c'.cq)) :
    c.responses.Perm ((if Responds e.wc then [e.origin.call] else []) ++ c'.responses) := by
  have hp := (Completions.all_next h).filter fun e => Responds e.wc
  refine (hp.map _).trans ?_
  rw [List.filter_cons]
  split <;> simp [responses]

theorem not_responds_ctx {en : Ending} {ele qp : Nat} {fields : WcFields} :
    Responds (en.wc (.ctx ele) qp fields) = false := by
  simp [Responds]

/-- A step that changes neither the pool nor the calls nor the callbacks, and takes no response
away. -/
theorem Sound.frame (hs : c.Sound) (hmp : c'.mp = c.mp) (hret : c'.returning = c.returning)
    (hconn : c'.conn = c.conn) (hctx : c'.ctxs = c.ctxs) (hown : c'.owner = c.owner)
    (hcalls : c'.calls = c.calls) (hcalled : c'.called = c.called)
    (hdel : c'.delivered = c.delivered) (hstage : c'.stage = c.stage)
    (hcq : c'.responses.Perm c.responses)
    (hmem : ∀ e ∈ c'.cq.all, Responds e.wc = true → e ∈ c.cq.all) : c'.Sound where
  count := hmp ▸ hs.count
  size := hmp ▸ hs.size
  nodup := by rw [hmp, hret]; exact hs.nodup
  sub := by rw [hmp, hret]; exact hs.sub
  owns := fun k call hw => by
    have := hs.owns k call ⟨hcalls ▸ hw.recorded, hw.accepted, hcalled ▸ hw.uncalled⟩
    exact ⟨hmp ▸ this.element, by rw [hmp, hret]; exact this.taken, hown ▸ this.owner,
      by rw [hctx, hconn]; exact this.ctx⟩
  responses_nodup := hcq.nodup_iff.mpr hs.responses_nodup
  response := fun e he hr => by
    obtain ⟨h₁, h₂, h₃, call, hw, h₄⟩ := hs.response e (hmem e he hr) hr
    exact ⟨h₁, h₂, hdel ▸ h₃, call, ⟨hcalls ▸ hw.recorded, hw.accepted, hcalled ▸ hw.uncalled⟩, hmp ▸ h₄⟩
  called_nodup := hcalled ▸ hs.called_nodup
  right := by rw [hcalled, hcalls, hconn, hdel]; exact hs.right
  answered := by
    rw [hstage, hdel, hcalled]
    exact fun hl k hk => (hs.answered hl k hk).imp_left hcq.mem_iff.mpr

/-- A completion that is no response. -/
theorem Sound.push (hs : c.Sound) {e : Cqe ClientWrId} (he : Responds e.wc = false)
    (hcq : c'.cq = c.cq.push e) (hmp : c'.mp = c.mp) (hret : c'.returning = c.returning)
    (hconn : c'.conn = c.conn) (hctx : c'.ctxs = c.ctxs) (hown : c'.owner = c.owner)
    (hcalls : c'.calls = c.calls) (hcalled : c'.called = c.called)
    (hdel : c'.delivered = c.delivered) (hstage : c'.stage = c.stage) : c'.Sound := by
  refine hs.frame hmp hret hconn hctx hown hcalls hcalled hdel hstage ?_ fun e' he' hr => ?_
  · simpa [he] using responses_push hcq
  · rw [hcq, Completions.mem_all_push] at he'
    rcases he' with rfl | he'
    · rw [he] at hr; cases hr
    · exact he'

/-! ### The calls -/

/-- An element taken leaves the pool, and belongs to no waiting call. -/
theorem Sound.get (hs : c.Sound) {pick ele : Nat} {mp : KvMempool}
    (hget : kvMempoolGet c.mp pick = some (ele, mp)) :
    mp.elements = c.mp.elements ∧ (∀ e, respImm mp e = respImm c.mp e) ∧
      ele ∈ c.mp.elements ∧ (mp.free ++ c.returning.map Prod.snd).Nodup ∧
      (∀ x ∈ mp.free ++ c.returning.map Prod.snd, x ∈ c.mp.free ++ c.returning.map Prod.snd) ∧
      ele ∉ mp.free ++ c.returning.map Prod.snd ∧
      ∀ k call, c.Waiting k call → call.ele ≠ ele := by
  obtain ⟨hperm, hbuf, hcount, hsize⟩ := kvMempoolGet_eq_some hget
  have hall : (c.mp.free ++ c.returning.map Prod.snd).Perm
      (ele :: (mp.free ++ c.returning.map Prod.snd)) := hperm.append_right _
  have hnd := List.nodup_cons.mp (hall.nodup_iff.mp hs.nodup)
  have hmem : ele ∈ c.mp.free ++ c.returning.map Prod.snd := hall.mem_iff.mpr List.mem_cons_self
  refine ⟨by simp only [KvMempool.elements, hbuf, hcount, hsize], fun e => ?_, hs.sub _ hmem, hnd.2,
    fun x hx => hall.mem_iff.mpr (List.mem_cons_of_mem _ hx), hnd.1, fun k call hw heq => ?_⟩
  · simp only [respImm, kvMempoolGetId, hbuf]
  · exact (hs.owns k call hw).taken (heq ▸ hmem)

/-- A call recorded leaves the other calls as they are. -/
theorem waiting_snoc {new : Call} {cbs : List Callback} (hcalls : c'.calls = c.calls ++ [new])
    (hcalled : c'.called = c.called ++ cbs) (hw : c'.Waiting k call) :
    c.Waiting k call ∨ k = c.calls.length ∧ new = call := by
  have hcall := hw.recorded
  rw [hcalls, getElem?_snoc] at hcall
  refine hcall.imp_left fun h => ⟨h, hw.accepted, fun hk => hw.uncalled ?_⟩
  rw [hcalled, List.map_append]
  exact List.mem_append_left _ hk

theorem waiting_mono {new : Call} {cbs : List Callback} (hcalls : c'.calls = c.calls ++ [new])
    (hcalled : c'.called = c.called ++ cbs) (hcbs : ∀ r ∈ cbs, r.call = c.calls.length)
    (hw : c.Waiting k call) : c'.Waiting k call := by
  refine ⟨?_, hw.accepted, ?_⟩
  · rw [hcalls, getElem?_snoc]; exact .inl hw.recorded
  · rw [hcalled, List.map_append, List.mem_append]
    rintro (hk | hk)
    · exact hw.uncalled hk
    · obtain ⟨r, hr, rfl⟩ := List.mem_map.mp hk
      exact absurd (lt_of_getElem? hw.recorded) (by rw [hcbs r hr]; exact Nat.lt_irrefl _)

/-- A call takes an element and is recorded, with the callback of the branch `fail` if it comes
to that. -/
theorem Sound.record (hs : c.Sound) {pick ele : Nat} {mp : KvMempool} {a : SendReq} {acc : Bool}
    {cbs : List Callback} (hget : kvMempoolGet c.mp pick = some (ele, mp)) (hmp : c'.mp = mp)
    (hret : c'.returning = c.returning) (hconn : c'.conn = c.conn)
    (hctx : c'.ctxs = Function.update c.ctxs ele (some (ctxOf c.conn a)))
    (hown : c'.owner = Function.update c.owner ele c.calls.length)
    (hcalls : c'.calls = c.calls ++ [⟨a, ele, acc⟩]) (hcalled : c'.called = c.called ++ cbs)
    (hcbs : acc = true ∧ cbs = [] ∨ acc = false ∧ (cbs = [] ∨
      ∃ cb, a.cb = some cb ∧ cbs = [callbackOf c.conn ⟨a, ele, acc⟩ cb c.calls.length]))
    (hdel : c'.delivered = c.delivered) (hstage : c'.stage = c.stage) (hcq : c'.cq = c.cq) :
    c'.Sound := by
  obtain ⟨hels, himm, hele, hnd, hsub, hnew, hne⟩ := hs.get hget
  obtain ⟨-, -, hcount, hsize⟩ := kvMempoolGet_eq_some hget
  have hnum : ∀ r ∈ cbs, r.call = c.calls.length := by
    rcases hcbs with ⟨-, rfl⟩ | ⟨-, rfl | ⟨cb, -, rfl⟩⟩ <;> simp [callbackOf]
  have hlt : ∀ r ∈ c.called, r.call < c.calls.length := fun r hr => by
    obtain ⟨call, cb, hc, -⟩ := hs.right r hr
    exact lt_of_getElem? hc
  refine ⟨by rw [hmp, hcount, hs.count], by rw [hmp, hsize, hs.size], by rw [hmp, hret]; exact hnd,
    fun x hx => ?_, fun k call hw => ?_, ?_, fun e he hr => ?_, ?_, fun r hr => ?_, ?_⟩
  · rw [hmp, hret] at hx
    rw [hmp, hels]
    exact hs.sub x (hsub x hx)
  · -- the element of an earlier call is not the one just taken
    rcases waiting_snoc hcalls hcalled hw with hw | ⟨rfl, rfl⟩
    · have ho := hs.owns k call hw
      have hne := hne k call hw
      refine ⟨by rw [hmp, hels]; exact ho.element, fun hx => ho.taken (hsub _ ?_), ?_, ?_⟩
      · rwa [hmp, hret] at hx
      · rw [hown, Function.update_of_ne hne]; exact ho.owner
      · rw [hctx, hconn, Function.update_of_ne hne]; exact ho.ctx
    · refine ⟨by rw [hmp, hels]; exact hele, by rw [hmp, hret]; exact hnew, ?_, ?_⟩
      · rw [hown, Function.update_self]
      · rw [hctx, hconn, Function.update_self]
  · rw [responses, hcq]; exact hs.responses_nodup
  · rw [hcq] at he
    obtain ⟨h₁, h₂, h₃, call, hw, h₄⟩ := hs.response e he hr
    exact ⟨h₁, h₂, hdel ▸ h₃, call, waiting_mono hcalls hcalled hnum hw, by rw [hmp, himm]; exact h₄⟩
  · rw [hcalled, List.map_append, List.nodup_append]
    refine ⟨hs.called_nodup, ?_, fun x hx y hy => ?_⟩
    · rcases hcbs with ⟨-, rfl⟩ | ⟨-, rfl | ⟨cb, -, rfl⟩⟩ <;> simp
    · obtain ⟨r, hr, rfl⟩ := List.mem_map.mp hx
      obtain ⟨r', hr', rfl⟩ := List.mem_map.mp hy
      have := hlt r hr
      rw [hnum r' hr']
      omega
  · rw [hcalled, List.mem_append] at hr
    rcases hr with hr | hr
    · obtain ⟨call, cb, hc, hcb, heq, hd⟩ := hs.right r hr
      exact ⟨call, cb, by rw [hcalls, getElem?_snoc]; exact .inl hc, hcb, by rw [hconn]; exact heq,
        by rw [hdel]; exact hd⟩
    · rcases hcbs with ⟨-, rfl⟩ | ⟨hacc, rfl | ⟨cb, hcb, rfl⟩⟩
      · cases hr
      · cases hr
      · cases List.mem_singleton.mp hr
        refine ⟨⟨a, ele, acc⟩, cb, ?_, hcb, by rw [hconn]; rfl, fun h => ?_⟩
        · rw [hcalls, getElem?_snoc]; exact .inr ⟨rfl, rfl⟩
        · rw [hacc] at h; cases h
  · rw [hstage, hdel, hcalled, List.map_append, responses, hcq]
    exact fun hl k hk => (hs.answered hl k hk).imp_right (List.mem_append_left _)

theorem sound_sendReq (hs : s.1.Sound) {a : SendReq} {pick : Nat} {rr rs : Bool}
    (h : kvRdmaSendReq s.1 s.2 a pick rr rs = .ok s') : s'.1.Sound := by
  obtain ⟨-, -, ele, mp, hget, -, hcase⟩ := kvRdmaSendReq_eq_ok h
  have hfail : ∀ c₁ : Client, c₁.calls = s.1.calls → c₁.conn = s.1.conn → c₁.called = s.1.called →
      ∃ cbs, (c₁.sendReqFail a ele).called = s.1.called ++ cbs ∧ (cbs = [] ∨ ∃ cb, a.cb = some cb ∧
        cbs = [callbackOf s.1.conn ⟨a, ele, false⟩ cb s.1.calls.length]) := by
    intro c₁ h₁ h₂ h₃
    cases hcb : a.cb with
    | none => exact ⟨[], by simp [sendReqFail, hcb, h₃], .inl rfl⟩
    | some cb => exact ⟨_, by simp only [sendReqFail, hcb, h₁, h₂, h₃]; rfl, .inr ⟨cb, rfl, rfl⟩⟩
  rcases hcase with ⟨-, hc⟩ | ⟨-, -, hc⟩ | ⟨-, -, hc⟩
  · obtain ⟨cbs, hcalled, hcbs⟩ := hfail (s.1.take a ele mp) rfl rfl rfl
    rw [hc]
    exact hs.record hget rfl rfl rfl rfl rfl rfl hcalled (.inr ⟨rfl, hcbs⟩) rfl rfl rfl
  · obtain ⟨cbs, hcalled, hcbs⟩ := hfail { s.1.take a ele mp with recvs := s.1.recvs + 1 } rfl rfl rfl
    rw [hc]
    exact hs.record hget rfl rfl rfl rfl rfl rfl hcalled (.inr ⟨rfl, hcbs⟩) rfl rfl rfl
  · rw [hc]
    exact hs.record hget rfl rfl rfl rfl rfl rfl (List.append_nil _).symm (.inl ⟨rfl, rfl⟩) rfl rfl rfl

/-! ### Responses -/

theorem sound_deliver (hs : c.Sound) {imm : BitVec 32} {byteLen : Nat}
    (hp : c.Proper (.deliver k imm byteLen)) (h : react c (.deliver k imm byteLen) = .ok c') :
    c'.Sound := by
  obtain ⟨-, hc'⟩ := react_deliver.mp h
  obtain ⟨hnew, call, hcall, hacc, himm⟩ := hp
  have hperm : c'.responses.Perm (k :: c.responses) := by
    have hcq : c'.cq = c.cq.push ⟨⟨.conn c.conn, .success, .recvRdmaWithImm, byteLen, imm, true, c.qp⟩,
        .clientRecv, ⟨c.qp, k⟩⟩ := by rw [hc']
    exact responses_push hcq
  -- a response is delivered once, so none of this call is in flight or handled
  have hres : k ∉ c.responses := by
    intro hk
    obtain ⟨e, he, rfl⟩ := List.mem_map.mp hk
    obtain ⟨he, hr⟩ := List.mem_filter.mp he
    exact hnew (hs.response e he hr).2.2.1
  have huncalled : k ∉ c.called.map Callback.call := by
    intro hk
    obtain ⟨r, hr, rfl⟩ := List.mem_map.mp hk
    obtain ⟨call', cb, hc, -, -, hd⟩ := hs.right r hr
    rw [hcall, Option.some.injEq] at hc
    exact hnew (hd (hc ▸ hacc))
  have hnd : c'.responses.Nodup :=
    hperm.nodup_iff.mpr (List.nodup_cons.mpr ⟨hres, hs.responses_nodup⟩)
  have hanswered : c.stage = .up → ∀ k' ∈ c.delivered ++ [k],
      k' ∈ c'.responses ∨ k' ∈ c.called.map Callback.call := by
    intro hl k' hk'
    rw [hperm.mem_iff, List.mem_cons]
    rcases List.mem_append.mp hk' with hk' | hk'
    · exact (hs.answered hl k' hk').imp_left .inr
    · exact .inl (.inl (List.mem_singleton.mp hk'))
  subst hc'
  refine ⟨hs.count, hs.size, hs.nodup, hs.sub, fun k' call' hw => ?_, hnd, fun e he hr => ?_,
    hs.called_nodup, fun r hr => ?_, hanswered⟩
  · have ho := hs.owns k' call' ⟨hw.recorded, hw.accepted, hw.uncalled⟩
    exact ⟨ho.element, ho.taken, ho.owner, ho.ctx⟩
  · rw [Completions.mem_all_push] at he
    rcases he with rfl | he
    · exact ⟨rfl, rfl, by simp, call, ⟨hcall, hacc, huncalled⟩, himm⟩
    · obtain ⟨h₁, h₂, h₃, call', hw, h₄⟩ := hs.response e he hr
      exact ⟨h₁, h₂, List.mem_append_left _ h₃, call', ⟨hw.recorded, hw.accepted, hw.uncalled⟩, h₄⟩
  · obtain ⟨call', cb, h₁, h₂, h₃, h₄⟩ := hs.right r hr
    exact ⟨call', cb, h₁, h₂, h₃, fun ha => List.mem_append_left _ (h₄ ha)⟩

/-- **The callback called is that of the call the response belongs to.** -/
theorem Sound.callback (hs : c.Sound) {e : Cqe ClientWrId} (he : e ∈ c.cq.all)
    (hr : Responds e.wc = true) : ∃ call, c.Waiting e.origin.call call ∧
      kvMempoolGetEle c.mp e.wc.immData.toInt = call.ele ∧ c.Owns e.origin.call call := by
  obtain ⟨-, -, -, call, hw, himm⟩ := hs.response e he hr
  have ho := hs.owns _ _ hw
  refine ⟨call, hw, ?_, ho⟩
  rw [himm]
  refine kvMempoolGetEle_imm ?_ ?_ ho.element
  · rw [hs.count, hs.size]; decide
  · rw [hs.size]; decide

/-- What `on_recv_resp` reads in the context is what the call stored there. -/
theorem Sound.callback_eq (hs : c.Sound) {e : Cqe ClientWrId} (he : e ∈ c.cq.all)
    (hr : Responds e.wc = true) {ctx : ClientReqCtx} {cb : Nat}
    (hctx : c.ctxs (kvMempoolGetEle c.mp e.wc.immData.toInt) = some ctx) (hcb : ctx.cb = some cb) :
    ∃ call, c.Waiting e.origin.call call ∧ kvMempoolGetEle c.mp e.wc.immData.toInt = call.ele ∧
      c.Owns e.origin.call call ∧ call.args.cb = some cb ∧
      (⟨cb, ctx.conn, e.wc.status = .success, ctx.req, ctx.resp, ctx.cbArg,
        c.owner (kvMempoolGetEle c.mp e.wc.immData.toInt)⟩ : Callback) =
        callbackOf c.conn call cb e.origin.call := by
  obtain ⟨hst, -, -, -⟩ := hs.response e he hr
  obtain ⟨call, hw, hele, ho⟩ := hs.callback he hr
  obtain rfl : ctx = ctxOf c.conn call.args := by
    rw [hele, ho.ctx, Option.some.injEq] at hctx
    exact hctx.symm
  refine ⟨call, hw, hele, ho, hcb, ?_⟩
  simp only [hele, ho.owner, hst, hw.accepted, callbackOf, ctxOf, decide_true]

/-- A response handled: its call is called back, and the element waits to be put back. -/
theorem sound_handle_response (hs : c.Sound) {t : Thread} {e : Cqe ClientWrId}
    {cq : Completions ClientWrId} {ctx : ClientReqCtx} {cb : Nat} (hn : c.cq.next t = some (e, cq))
    (hr : Responds e.wc = true)
    (hctx : c.ctxs (kvMempoolGetEle c.mp e.wc.immData.toInt) = some ctx) (hcb : ctx.cb = some cb)
    (hc' : c' = { c with
      cq
      called := c.called ++ [⟨cb, ctx.conn, e.wc.status = .success, ctx.req, ctx.resp,
        ctx.cbArg, c.owner (kvMempoolGetEle c.mp e.wc.immData.toInt)⟩]
      returning := c.returning ++ [(t, kvMempoolGetEle c.mp e.wc.immData.toInt)] }) : c'.Sound := by
  have hmem : ∀ e', e' ∈ c.cq.all ↔ e' = e ∨ e' ∈ cq.all := fun e' => by
    rw [(Completions.all_next hn).mem_iff, List.mem_cons]
  obtain ⟨-, -, hdel, -⟩ := hs.response e ((hmem e).mpr (.inl rfl)) hr
  obtain ⟨call, hw, hele, ho, hcb, hcb'⟩ := hs.callback_eq ((hmem e).mpr (.inl rfl)) hr hctx hcb
  rw [hcb', hele] at hc'
  have hperm : c.responses.Perm (e.origin.call :: c'.responses) := by
    have hnext : c.responses.Perm ((if Responds e.wc then [e.origin.call] else []) ++ c'.responses) :=
      responses_next (by rw [hc']; exact hn)
    rwa [if_pos hr] at hnext
  have hnd := List.nodup_cons.mp (hperm.nodup_iff.mp hs.responses_nodup)
  -- the element goes from the call to the pollers that put it back
  have hpool : (c'.mp.free ++ c'.returning.map Prod.snd).Perm
      (call.ele :: (c.mp.free ++ c.returning.map Prod.snd)) := by
    rw [hc']
    simp only [List.map_append, ← List.append_assoc]
    exact List.perm_append_singleton _ _
  have hwait : ∀ {k' call'}, c.Waiting k' call' → k' ≠ e.origin.call → c'.Waiting k' call' := by
    intro k' call' hw hne
    rw [hc']
    refine ⟨hw.recorded, hw.accepted, fun hk => ?_⟩
    rw [List.map_append, List.mem_append, List.map_singleton, List.mem_singleton] at hk
    exact hk.elim hw.uncalled hne
  have hback : ∀ {k' call'}, c'.Waiting k' call' → c.Waiting k' call' ∧ k' ≠ e.origin.call := by
    intro k' call' hw
    rw [hc'] at hw
    have hun := hw.uncalled
    rw [List.map_append, List.mem_append, List.map_singleton, List.mem_singleton, not_or] at hun
    exact ⟨⟨hw.recorded, hw.accepted, hun.1⟩, hun.2⟩
  have hnodup := hpool.nodup_iff.mpr (List.nodup_cons.mpr ⟨ho.taken, hs.nodup⟩)
  have hsub : ∀ x ∈ c'.mp.free ++ c'.returning.map Prod.snd, x ∈ c.mp.elements := by
    intro x hx
    rcases List.mem_cons.mp (hpool.mem_iff.mp hx) with rfl | hx
    · exact ho.element
    · exact hs.sub x hx
  -- two waiting calls have two elements, for `owner` tells them apart
  have htaken : ∀ k' call', c'.Waiting k' call' →
      call'.ele ∉ c'.mp.free ++ c'.returning.map Prod.snd := by
    intro k' call' hw' hx
    obtain ⟨hw', hne⟩ := hback hw'
    have ho' := hs.owns k' call' hw'
    rcases List.mem_cons.mp (hpool.mem_iff.mp hx) with heq | hx
    · exact hne (ho'.owner.symm.trans (heq ▸ ho.owner))
    · exact ho'.taken hx
  have hresp : ∀ e' ∈ cq.all, Responds e'.wc = true → e'.wc.status = .success ∧
      e'.wc.withImm = true ∧ e'.origin.call ∈ c.delivered ∧
      ∃ call, c'.Waiting e'.origin.call call ∧ e'.wc.immData = respImm c.mp call.ele := by
    intro e' he' hr'
    obtain ⟨h₁, h₂, h₃, call', hw', h₄⟩ := hs.response e' ((hmem e').mpr (.inr he')) hr'
    refine ⟨h₁, h₂, h₃, call', hwait hw' fun heq => hnd.1 ?_, h₄⟩
    rw [← heq, hc']
    exact List.mem_map_of_mem (List.mem_filter.mpr ⟨he', hr'⟩)
  have howns : ∀ k' call', c'.Waiting k' call' → c.Owns k' call' := fun k' call' hw' =>
    hs.owns k' call' (hback hw').1
  have hanswered : c.stage = .up → ∀ k' ∈ c.delivered,
      k' ∈ c'.responses ∨ k' ∈ c'.called.map Callback.call := by
    intro hl k' hk'
    rw [hc', List.map_append, List.mem_append, ← hc']
    rcases hs.answered hl k' hk' with hk | hk
    · rcases List.mem_cons.mp (hperm.mem_iff.mp hk) with rfl | hk
      · exact .inr (.inr List.mem_cons_self)
      · exact .inl hk
    · exact .inr (.inl hk)
  -- this call was waiting, so it has not been called back before
  have hcalled : (c.called.map Callback.call ++ [e.origin.call]).Nodup :=
    List.nodup_append.mpr ⟨hs.called_nodup, List.nodup_singleton _, fun x hx y hy => by
      rw [List.mem_singleton.mp hy]
      rintro rfl
      exact hw.uncalled hx⟩
  have hnd' := hnd.2
  subst hc'
  refine ⟨hs.count, hs.size, hnodup, hsub, fun k' call' hw' => ?_, hnd', hresp, ?_, fun r hr' => ?_,
    hanswered⟩
  · have ho' := howns k' call' hw'
    exact ⟨ho'.element, htaken k' call' hw', ho'.owner, ho'.ctx⟩
  · rw [List.map_append]
    exact hcalled
  · rcases List.mem_append.mp hr' with hr' | hr'
    · exact hs.right r hr'
    · cases List.mem_singleton.mp hr'
      exact ⟨call, cb, hw.recorded, hcb, rfl, fun _ => hdel⟩

theorem sound_handle (hs : c.Sound) {t : Thread} (h : react c (.handle t) = .ok c') : c'.Sound := by
  obtain ⟨e, cq, hn, ⟨hop, ⟨n, hid⟩, -, -, ctx, cb, hctx, hcb, hc'⟩ | ⟨hop, hc'⟩⟩ := react_handle h
  · exact sound_handle_response hs hn (by simp [Responds, hid, hop]) hctx hcb hc'
  · have hr : Responds e.wc = false := by
      unfold Responds
      split
      · simpa using hop
      · rfl
    have hperm : c.responses.Perm ((if Responds e.wc then [e.origin.call] else []) ++ c'.responses) :=
      responses_next (by rw [hc']; exact hn)
    rw [hr] at hperm
    rw [hc'] at hperm ⊢
    refine hs.frame rfl rfl rfl rfl rfl rfl rfl rfl rfl hperm.symm fun e' he' _ => ?_
    rw [(Completions.all_next hn).mem_iff, List.mem_cons]
    exact .inr he'

/-- A completion handled calls the callback of a waiting call whose response was delivered, or
none. -/
theorem Sound.called_handle (hs : c.Sound) {t : Thread} (h : react c (.handle t) = .ok c') :
    c'.called = c.called ∨ ∃ k call cb, c.Waiting k call ∧ k ∈ c.delivered ∧
      call.args.cb = some cb ∧ c'.called = c.called ++ [callbackOf c.conn call cb k] := by
  obtain ⟨e, cq, hn, ⟨hop, ⟨n, hid⟩, -, -, ctx, cb, hctx, hcb, hc'⟩ | ⟨-, hc'⟩⟩ := react_handle h
  · have he : e ∈ c.cq.all := (Completions.all_next hn).mem_iff.mpr List.mem_cons_self
    have hr : Responds e.wc = true := by simp [Responds, hid, hop]
    obtain ⟨call, hw, -, -, hcb, heq⟩ := hs.callback_eq he hr hctx hcb
    refine .inr ⟨_, call, cb, hw, (hs.response e he hr).2.2.1, hcb, ?_⟩
    rw [hc', ← heq]
  · exact .inl (by rw [hc'])

theorem sound_put (hs : c.Sound) {t : Thread} (h : react c (.put t) = .ok c') : c'.Sound := by
  obtain ⟨ele, returning, hpop, -, rfl⟩ := react_put h
  have hpool : (c.mp.free ++ [ele] ++ returning.map Prod.snd).Perm
      (c.mp.free ++ c.returning.map Prod.snd) := by
    rw [List.append_assoc]
    exact ((Keyed.pop_perm hpop).map Prod.snd).symm.append_left _
  refine ⟨hs.count, hs.size, hpool.nodup_iff.mpr hs.nodup, fun x hx => hs.sub x (hpool.mem_iff.mp hx),
    fun k' call' hw => ?_, hs.responses_nodup, fun e he hr => ?_, hs.called_nodup, hs.right,
    hs.answered⟩
  · have ho := hs.owns k' call' ⟨hw.recorded, hw.accepted, hw.uncalled⟩
    exact ⟨ho.element, fun hx => ho.taken (hpool.mem_iff.mp hx), ho.owner, ho.ctx⟩
  · obtain ⟨h₁, h₂, h₃, call, hw, h₄⟩ := hs.response e he hr
    exact ⟨h₁, h₂, h₃, call, ⟨hw.recorded, hw.accepted, hw.uncalled⟩, h₄⟩

/-- A step of the disconnect changes no record of the calls; completions may go. -/
theorem Sound.less (hs : c.Sound) {stage : Stage} {recvs : Nat} {sends sent : List Sent}
    {cq : Completions ClientWrId} (hsub : cq.all.Sublist c.cq.all) (hdown : stage ≠ .up) :
    Sound { c with stage, recvs, sends, sent, cq } := by
  refine ⟨hs.count, hs.size, hs.nodup, hs.sub, fun k call hw => ?_,
    ((hsub.filter _).map _).nodup hs.responses_nodup, fun e he hr => ?_, hs.called_nodup, hs.right,
    fun hup => absurd hup hdown⟩
  · have ho := hs.owns k call ⟨hw.recorded, hw.accepted, hw.uncalled⟩
    exact ⟨ho.element, ho.taken, ho.owner, ho.ctx⟩
  · obtain ⟨h₁, h₂, h₃, call, hw, h₄⟩ := hs.response e (hsub.subset he) hr
    exact ⟨h₁, h₂, h₃, call, ⟨hw.recorded, hw.accepted, hw.uncalled⟩, h₄⟩

theorem all_drop_sublist {drop : Bool} :
    (if drop then { c.cq with queue := [] } else c.cq).all.Sublist c.cq.all := by
  cases drop
  · exact List.Sublist.refl _
  · exact List.sublist_append_right _ _

theorem sound_step (hs : s.1.Sound) (hp : s.1.Proper e) (h : step s e = .ok s') : s'.1.Sound := by
  rcases step_cases h with ⟨a, pick, rr, rs, rfl, h⟩ | ⟨h, -⟩
  · exact sound_sendReq hs h
  · cases e with
    | sendReq a pick rr rs => cases h
    | transmit =>
        obtain ⟨p, sends, -, hc⟩ := react_transmit h
        rw [hc]
        exact hs.frame rfl rfl rfl rfl rfl rfl rfl rfl rfl (.refl _) fun e he _ => he
    | sendDone en =>
        obtain ⟨p, sent, -, hc⟩ := react_sendDone h
        rw [hc]
        exact hs.push not_responds_ctx rfl rfl rfl rfl rfl rfl rfl rfl rfl rfl
    | sendFail code fields =>
        obtain ⟨p, sends, -, hc⟩ := react_sendFail h
        have hr : Responds ((Ending.bad code fields).wc (.ctx p.wr.wrId) s.1.qp fields) = false :=
          not_responds_ctx
        rw [hc]
        exact hs.push hr rfl rfl rfl rfl rfl rfl rfl rfl rfl rfl
    | deliver k imm byteLen => exact sound_deliver hs hp h
    | recvFail code fields =>
        obtain ⟨-, hc⟩ := react_recvFail h
        have hr : Responds ((Ending.bad code fields).wc (.conn s.1.conn) s.1.qp fields) = false :=
          decide_eq_false hp
        rw [hc]
        exact hs.push hr rfl rfl rfl rfl rfl rfl rfl rfl rfl rfl
    | poll t k =>
        rw [react_poll h]
        refine hs.frame rfl rfl rfl rfl rfl rfl rfl rfl rfl ?_ fun e he _ => ?_
        · exact (Completions.all_poll.filter _).map _
        · exact Completions.mem_all_poll.mp he
    | handle t => exact sound_handle hs h
    | put t => exact sound_put hs h
    | disconnected =>
        obtain ⟨-, hc⟩ := react_disconnected h
        rw [hc]
        exact hs.less (.refl _) nofun
    | destroyQp drop =>
        obtain ⟨-, hc⟩ := react_destroyQp h
        rw [hc]
        exact hs.less all_drop_sublist nofun
    | freeConn =>
        obtain ⟨-, hc⟩ := react_freeConn h
        rw [hc]
        exact hs.less (.refl _) nofun

end

end Client

end RdmaRpc
