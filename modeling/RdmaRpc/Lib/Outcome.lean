import Mathlib.Algebra.GroupWithZero.Nat
import Mathlib.Data.List.Basic

/-!
# Lib — Outcome

Steps that can go wrong, and runs of them.  A step of a program gives a new state, or is
`blocked` (the environment cannot take it in this state), or ends in a `fault`: a failed
assertion, an exit, or behaviour the language leaves undefined.

`run step s tr` takes the events of `tr` in order from `s`.  The rules below carry a property
along a run: `run_invariant` from a step lemma, `run_invariant_along` from a step lemma that
also uses a condition on each step (`Along`), and `run_project` from a simulation of each step
by a run of another machine.
-/

namespace RdmaRpc.Lib

/-- What a step gives: a state, `blocked` when the environment cannot take it, or a fault. -/
inductive Outcome (φ α : Type) where
  | ok (a : α)
  | blocked
  | fault (f : φ)

namespace Outcome

variable {φ ψ α β : Type}

protected def bind : Outcome φ α → (α → Outcome φ β) → Outcome φ β
  | .ok a, k => k a
  | .blocked, _ => .blocked
  | .fault f, _ => .fault f

instance : Monad (Outcome φ) where
  pure := .ok
  bind := Outcome.bind

@[simp] theorem ok_bind (a : α) (k : α → Outcome φ β) : (Outcome.ok a >>= k) = k a := rfl
@[simp] theorem blocked_bind (k : α → Outcome φ β) : (Outcome.blocked >>= k) = .blocked := rfl
@[simp] theorem fault_bind (f : φ) (k : α → Outcome φ β) :
    (Outcome.fault f >>= k) = .fault f := rfl
@[simp] theorem pure_eq (a : α) : (pure a : Outcome φ α) = .ok a := rfl

theorem bind_eq_ok {x : Outcome φ α} {k : α → Outcome φ β} {b : β} :
    (x >>= k) = .ok b ↔ ∃ a, x = .ok a ∧ k a = .ok b := by
  cases x <;> simp

theorem bind_eq_fault {x : Outcome φ α} {k : α → Outcome φ β} {f : φ} :
    (x >>= k) = .fault f ↔ x = .fault f ∨ ∃ a, x = .ok a ∧ k a = .fault f := by
  cases x <;> simp

theorem bind_eq_blocked {x : Outcome φ α} {k : α → Outcome φ β} :
    (x >>= k) = .blocked ↔ x = .blocked ∨ ∃ a, x = .ok a ∧ k a = .blocked := by
  cases x <;> simp

/-- What is neither blocked nor a fault is a state. -/
theorem exists_ok {x : Outcome φ α} (hb : x ≠ .blocked) (hf : ∀ f, x ≠ .fault f) :
    ∃ a, x = .ok a := by
  cases x with
  | ok a => exact ⟨a, rfl⟩
  | blocked => exact absurd rfl hb
  | fault f => exact absurd rfl (hf f)

/-- A guard of the environment. -/
def require (p : Prop) [Decidable p] : Outcome φ Unit := if p then .ok () else .blocked

/-- A check of the program: it faults with `f` unless `p`. -/
def check (p : Prop) [Decidable p] (f : φ) : Outcome φ Unit := if p then .ok () else .fault f

/-- A choice the environment has only when there is something to choose. -/
def choose : Option α → Outcome φ α
  | some a => .ok a
  | none => .blocked

/-- A read through a pointer: it faults with `f` when nothing is there. -/
def deref (f : φ) : Option α → Outcome φ α
  | some a => .ok a
  | none => .fault f

/-- The result is a state with `p`. -/
def Ends (p : α → Prop) : Outcome φ α → Prop
  | .ok a => p a
  | _ => False

/-- The faults of a part, as faults of the whole. -/
def mapFault (g : φ → ψ) : Outcome φ α → Outcome ψ α
  | .ok a => .ok a
  | .blocked => .blocked
  | .fault f => .fault (g f)

@[simp] theorem mapFault_eq_ok {g : φ → ψ} {x : Outcome φ α} {a : α} :
    x.mapFault g = .ok a ↔ x = .ok a := by
  cases x <;> simp [mapFault]

instance (p : α → Prop) [DecidablePred p] : DecidablePred (Ends p : Outcome φ α → Prop)
  | .ok a => inferInstanceAs (Decidable (p a))
  | .blocked => isFalse id
  | .fault _ => isFalse id

instance [DecidableEq φ] (f : φ) : DecidablePred fun x : Outcome φ α => x = .fault f
  | .ok _ => isFalse nofun
  | .blocked => isFalse nofun
  | .fault g => decidable_of_iff (g = f) (by simp)

theorem ends_iff {p : α → Prop} {x : Outcome φ α} : Ends p x ↔ ∃ a, x = .ok a ∧ p a := by
  cases x <;> simp [Ends]

section
variable {p : Prop} [Decidable p] {f g : φ} {x : Option α} {a : α} {u : Unit}

@[simp] theorem require_eq_ok : (require p : Outcome φ Unit) = .ok u ↔ p := by
  unfold require; split <;> simp_all

@[simp] theorem require_ne_fault : (require p : Outcome φ Unit) = .fault f ↔ False := by
  unfold require; split <;> simp

@[simp] theorem require_eq_blocked : (require p : Outcome φ Unit) = .blocked ↔ ¬ p := by
  unfold require; split <;> simp_all

@[simp] theorem check_eq_ok : check p f = .ok u ↔ p := by
  unfold check; split <;> simp_all

@[simp] theorem check_eq_fault : check p f = .fault g ↔ ¬ p ∧ f = g := by
  unfold check; split <;> simp_all

@[simp] theorem check_ne_blocked : check p f = .blocked ↔ False := by
  unfold check; split <;> simp

@[simp] theorem choose_eq_ok : (choose x : Outcome φ α) = .ok a ↔ x = some a := by
  cases x <;> simp [choose]

@[simp] theorem choose_ne_fault : (choose x : Outcome φ α) = .fault f ↔ False := by
  cases x <;> simp [choose]

@[simp] theorem choose_eq_blocked : (choose x : Outcome φ α) = .blocked ↔ x = none := by
  cases x <;> simp [choose]

@[simp] theorem deref_eq_ok : deref f x = .ok a ↔ x = some a := by
  cases x <;> simp [deref]

@[simp] theorem deref_eq_fault : deref f x = .fault g ↔ x = none ∧ f = g := by
  cases x <;> simp [deref]

@[simp] theorem deref_ne_blocked : deref f x = .blocked ↔ False := by
  cases x <;> simp [deref]

end

end Outcome

/-! ### Runs -/

variable {φ σ ε α : Type}

/-- The events of a list, taken in order. -/
def run (step : σ → ε → Outcome φ σ) : σ → List ε → Outcome φ σ
  | s, [] => .ok s
  | s, e :: tr => step s e >>= fun s' => run step s' tr

section
variable {step : σ → ε → Outcome φ σ} {s s' : σ} {e : ε} {tr tr' : List ε}

@[simp] theorem run_nil : run step s [] = .ok s := rfl

@[simp] theorem run_cons : run step s (e :: tr) = (step s e >>= fun s' => run step s' tr) := rfl

theorem run_singleton : run step s [e] = step s e := by
  rw [run_cons]
  cases step s e <;> rfl

theorem run_append :
    run step s (tr ++ tr') = (run step s tr >>= fun s' => run step s' tr') := by
  induction tr generalizing s with
  | nil => rfl
  | cons e tr ih =>
      simp only [List.cons_append, run_cons]
      cases step s e <;> simp [ih]

theorem run_append_eq_ok :
    run step s (tr ++ tr') = .ok s' ↔ ∃ s₁, run step s tr = .ok s₁ ∧ run step s₁ tr' = .ok s' := by
  rw [run_append, Outcome.bind_eq_ok]

theorem run_snoc_eq_ok :
    run step s (tr ++ [e]) = .ok s' ↔ ∃ s₁, run step s tr = .ok s₁ ∧ step s₁ e = .ok s' := by
  rw [run_append_eq_ok]
  simp [Outcome.bind_eq_ok]

/-- **The invariant rule.** -/
theorem run_invariant {P : σ → Prop} (hstep : ∀ s e s', P s → step s e = .ok s' → P s')
    (h : P s) (hr : run step s tr = .ok s') : P s' := by
  induction tr generalizing s with
  | nil => cases hr; exact h
  | cons e tr ih =>
      obtain ⟨s₁, h₁, hr⟩ := Outcome.bind_eq_ok.mp hr
      exact ih (hstep s e s₁ h h₁) hr

/-- **The invariant rule, with the events so far.** -/
theorem run_invariant_trace {P : List ε → σ → Prop}
    (hstep : ∀ tr s e s', P tr s → step s e = .ok s' → P (tr ++ [e]) s') {tr₀ : List ε} (h : P tr₀ s)
    (hr : run step s tr = .ok s') : P (tr₀ ++ tr) s' := by
  induction tr generalizing s tr₀ with
  | nil => cases hr; simpa using h
  | cons e tr ih =>
      obtain ⟨s₁, h₁, hr⟩ := Outcome.bind_eq_ok.mp hr
      simpa using ih (hstep tr₀ s e s₁ h h₁) hr

/-- `Q` holds of every step of the run, at the state before the step. -/
def Along (step : σ → ε → Outcome φ σ) (Q : σ → ε → Prop) : σ → List ε → Prop
  | _, [] => True
  | s, e :: tr => Q s e ∧ ∀ s', step s e = .ok s' → Along step Q s' tr

theorem along_of_forall {Q : σ → ε → Prop} (h : ∀ s, ∀ e ∈ tr, Q s e) : Along step Q s tr := by
  induction tr generalizing s with
  | nil => trivial
  | cons e tr ih =>
      exact ⟨h s e List.mem_cons_self, fun _ _ => ih fun s a ha => h s a (List.mem_cons_of_mem e ha)⟩

theorem Along.imp {Q R : σ → ε → Prop} (hQR : ∀ s e, Q s e → R s e) (h : Along step Q s tr) :
    Along step R s tr := by
  induction tr generalizing s with
  | nil => trivial
  | cons e tr ih => exact ⟨hQR s e h.1, fun s' hs => ih (h.2 s' hs)⟩

theorem along_append {Q : σ → ε → Prop} :
    Along step Q s (tr ++ tr') ↔
      Along step Q s tr ∧ ∀ s', run step s tr = .ok s' → Along step Q s' tr' := by
  induction tr generalizing s with
  | nil => simp [Along]
  | cons e tr ih =>
      simp only [List.cons_append, Along, ih, run_cons, Outcome.bind_eq_ok]
      constructor
      · rintro ⟨h, ht⟩
        exact ⟨⟨h, fun s' hs => (ht s' hs).1⟩, fun s' ⟨s₁, h₁, hr⟩ => (ht s₁ h₁).2 s' hr⟩
      · rintro ⟨⟨h, ht⟩, hr⟩
        exact ⟨h, fun s' hs => ⟨ht s' hs, fun s'' hr' => hr s'' ⟨s', hs, hr'⟩⟩⟩

instance Along.decidable {Q : σ → ε → Prop} [∀ s e, Decidable (Q s e)] :
    ∀ s tr, Decidable (Along step Q s tr)
  | _, [] => isTrue trivial
  | s, e :: tr =>
    match hs : step s e with
    | .ok s' =>
      have := Along.decidable (Q := Q) s' tr
      decidable_of_iff (Q s e ∧ Along step Q s' tr)
        (and_congr_right fun _ => by simp [hs])
    | .blocked => decidable_of_iff (Q s e) (by simp [Along, hs])
    | .fault _ => decidable_of_iff (Q s e) (by simp [Along, hs])

/-- **The invariant rule, under a condition on each step.** -/
theorem run_invariant_along {P : σ → Prop} {Q : σ → ε → Prop}
    (hstep : ∀ s e s', P s → Q s e → step s e = .ok s' → P s') (h : P s)
    (hQ : Along step Q s tr) (hr : run step s tr = .ok s') : P s' := by
  induction tr generalizing s with
  | nil => cases hr; exact h
  | cons e tr ih =>
      obtain ⟨s₁, h₁, hr⟩ := Outcome.bind_eq_ok.mp hr
      exact ih (hstep s e s₁ h hQ.1 h₁) (hQ.2 s₁ h₁) hr

/-- A condition that holds under an invariant, of the events that keep it. -/
theorem along_of_invariant {P : σ → Prop} {R : ε → Prop} {Q : σ → ε → Prop}
    (hstep : ∀ s e s', P s → R e → step s e = .ok s' → P s') (hQ : ∀ s e, P s → R e → Q s e)
    (h : P s) (hR : ∀ e ∈ tr, R e) : Along step Q s tr := by
  induction tr generalizing s with
  | nil => trivial
  | cons e tr ih =>
      have he := hR e List.mem_cons_self
      exact ⟨hQ s e h he, fun s' hs => ih (hstep s e s' h he hs) fun a ha =>
        hR a (List.mem_cons_of_mem e ha)⟩

/-- Two conditions that come to the same under an invariant. -/
theorem along_congr {P : σ → Prop} {Q R : σ → ε → Prop}
    (hstep : ∀ s e s', P s → step s e = .ok s' → P s') (hQR : ∀ s e, P s → (Q s e ↔ R s e))
    (h : P s) : Along step Q s tr ↔ Along step R s tr := by
  induction tr generalizing s with
  | nil => exact Iff.rfl
  | cons e tr ih =>
      exact and_congr (hQR s e h) (forall_congr' fun s' => forall_congr' fun hs => ih (hstep s e s' h hs))

/-- What the steps of a run give off, in order. -/
def emitted (step : σ → ε → Outcome φ σ) (f : σ → ε → List α) : σ → List ε → List α
  | _, [] => []
  | s, e :: tr =>
      f s e ++ match step s e with
        | .ok s' => emitted step f s' tr
        | _ => []

theorem emitted_eq_nil {f : σ → ε → List α} (hr : run step s tr = .ok s') :
    emitted step f s tr = [] ↔ Along step (fun s e => f s e = []) s tr := by
  induction tr generalizing s with
  | nil => simp [emitted, Along]
  | cons e tr ih =>
      obtain ⟨s₁, h₁, hr⟩ := Outcome.bind_eq_ok.mp hr
      simp [emitted, Along, h₁, ih hr]

end

/-- **Projection.**  If each step of a machine is followed by a run of another at the image
under `π`, so is each run, and what holds of the events of those runs holds of all. -/
theorem run_project {φ' σ' ε' : Type} {step : σ → ε → Outcome φ σ}
    {step' : σ' → ε' → Outcome φ' σ'} {π : σ → σ'} {R : ε' → Prop}
    (hstep : ∀ s e s₁, step s e = .ok s₁ →
      ∃ tr', run step' (π s) tr' = .ok (π s₁) ∧ ∀ e' ∈ tr', R e')
    {s s₁ : σ} {tr : List ε} (hr : run step s tr = .ok s₁) :
    ∃ tr', run step' (π s) tr' = .ok (π s₁) ∧ ∀ e' ∈ tr', R e' := by
  induction tr generalizing s with
  | nil => cases hr; exact ⟨[], rfl, by simp⟩
  | cons e tr ih =>
      obtain ⟨s₂, h₂, hr⟩ := Outcome.bind_eq_ok.mp hr
      obtain ⟨tr₁, hr₁, hR₁⟩ := hstep s e s₂ h₂
      obtain ⟨tr₂, hr₂, hR₂⟩ := ih hr
      refine ⟨tr₁ ++ tr₂, run_append_eq_ok.mpr ⟨_, hr₁, hr₂⟩, fun e' he' => ?_⟩
      rcases List.mem_append.mp he' with h | h
      · exact hR₁ e' h
      · exact hR₂ e' h

end RdmaRpc.Lib
