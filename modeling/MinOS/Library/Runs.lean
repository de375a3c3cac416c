import Mathlib.Data.Nat.Notation
import Mathlib.Logic.Basic

/-!
Runs of a transition system whose steps are labelled with operations, the induction rule for what
every reachable state satisfies, and simulations between two systems.
-/

namespace Library.Runs

variable {State Op : Type*}

/-- `Run step s ops t`: the operations `ops`, in this order, lead from `s` to `t`. -/
inductive Run (step : State → Op → State → Prop) (s : State) : List Op → State → Prop
  | nil : Run step s [] s
  | snoc {ops : List Op} {t : State} {op : Op} {u : State} :
      Run step s ops t → step t op u → Run step s (ops ++ [op]) u

variable {step step' : State → Op → State → Prop} {s t u : State} {ops ops' : List Op} {op : Op}

theorem Run.invariant {I : State → Prop} (hrun : Run step s ops t) (h0 : I s)
    (hstep : ∀ {t op u}, I t → step t op u → I u) : I t := by
  induction hrun with
  | nil => exact h0
  | snoc _ h ih => exact hstep ih h

theorem Run.single (h : step s op t) : Run step s [op] t := by
  have hrun : Run step s ([] ++ [op]) t := Run.nil.snoc h
  exact hrun

theorem Run.append (hrun : Run step s ops t) (hrun' : Run step t ops' u) :
    Run step s (ops ++ ops') u := by
  induction hrun' with
  | nil => rwa [List.append_nil]
  | snoc _ h ih =>
    rw [← List.append_assoc]
    exact ih.snoc h

theorem Run.cons (h : step s op t) (hrun : Run step t ops u) : Run step s (op :: ops) u :=
  (Run.single h).append hrun

theorem Run.mono (hrun : Run step s ops t) (hstep : ∀ {t op u}, step t op u → step' t op u) :
    Run step' s ops t := by
  induction hrun with
  | nil => exact .nil
  | snoc _ h ih => exact ih.snoc (hstep h)

theorem Run.simulation {State' : Type*} {step' : State' → Op → State' → Prop} {s' : State'}
    {R : State → State' → Prop} (hrun : Run step s ops t) (h0 : R s s')
    (hstep : ∀ {t t' op u}, R t t' → step t op u → ∃ u', step' t' op u' ∧ R u u') :
    ∃ t', Run step' s' ops t' ∧ R t t' := by
  induction hrun with
  | nil => exact ⟨s', .nil, h0⟩
  | snoc _ h ih =>
    obtain ⟨t', hrun', ht⟩ := ih
    obtain ⟨u', hu, hR⟩ := hstep ht h
    exact ⟨u', hrun'.snoc hu, hR⟩

theorem Run.reaches (hrun : Run step s ops t) (P : State → Prop) :
    (∃ before rest u, ops = before ++ rest ∧ before ≠ [] ∧ Run step s before u ∧ P u) ∨
      Run (fun s op t => step s op t ∧ ¬ P t) s ops t := by
  induction hrun with
  | nil => exact .inr .nil
  | @snoc ops t op u hrun hstep ih =>
    rcases ih with ⟨before, rest, v, rfl, hne, hv, hP⟩ | hnone
    · exact .inl ⟨before, rest ++ [op], v, List.append_assoc .., hne, hv, hP⟩
    · by_cases hP : P u
      · exact .inl ⟨ops ++ [op], [], u, (List.append_nil _).symm, by simp, hrun.snoc hstep, hP⟩
      · exact .inr (hnone.snoc ⟨hstep, hP⟩)

theorem Run.potential {I : State → Prop} {φ : State → ℕ} {p q : Op → Bool} {k : ℕ} (hrun : Run step s ops t)
    (h0 : I s) (hstep : ∀ {t op u}, I t → step t op u →
      I u ∧ φ u + (if p op then 1 else 0) ≤ φ t + if q op then k else 0) :
    I t ∧ φ t + ops.countP p ≤ φ s + k * ops.countP q := by
  induction hrun with
  | nil => exact ⟨h0, Nat.le_refl _⟩
  | @snoc ops t op u _ h ih =>
    obtain ⟨ht, hsum⟩ := ih
    obtain ⟨hu, hless⟩ := hstep ht h
    have hgain : k * (if q op then 1 else 0) = if q op then k else 0 := by
      cases q op with
      | true => exact Nat.mul_one k
      | false => exact Nat.mul_zero k
    refine ⟨hu, ?_⟩
    rw [List.countP_append, List.countP_append, List.countP_singleton, List.countP_singleton, Nat.mul_add,
      hgain]
    omega

end Library.Runs
