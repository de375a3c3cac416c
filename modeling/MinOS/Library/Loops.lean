import Mathlib.Algebra.Ring.Nat

namespace Library.Loops

variable {σ ρ : Type*}

def loop (body : σ → σ ⊕ ρ) : ℕ → σ → Option ρ
  | 0, _ => none
  | fuel + 1, s =>
    match body s with
    | .inl t => loop body fuel t
    | .inr r => some r

def Ends (body : σ → σ ⊕ ρ) (s : σ) (r : ρ) : Prop := ∃ fuel, loop body fuel s = some r

variable {body : σ → σ ⊕ ρ} {s t : σ} {r r' : ρ} {fuel fuel' : ℕ}

theorem loop_mono (h : loop body fuel s = some r) (hle : fuel ≤ fuel') : loop body fuel' s = some r := by
  induction fuel generalizing s fuel' with
  | zero => cases h
  | succ fuel ih =>
    obtain ⟨fuel', rfl⟩ : ∃ k, fuel' = k + 1 := Nat.exists_eq_succ_of_ne_zero (by omega)
    rw [loop] at h ⊢
    cases hbody : body s with
    | inl t =>
      rw [hbody] at h
      exact ih h (by omega)
    | inr r =>
      rw [hbody] at h
      exact h

theorem Ends.unique (h : Ends body s r) (h' : Ends body s r') : r = r' := by
  obtain ⟨fuel, hr⟩ := h
  obtain ⟨fuel', hr'⟩ := h'
  have hmax := loop_mono hr (Nat.le_max_left fuel fuel')
  rw [loop_mono hr' (Nat.le_max_right fuel fuel')] at hmax
  exact (Option.some.inj hmax).symm

theorem ends_of_inl (h : body s = .inl t) : Ends body s r ↔ Ends body t r := by
  constructor
  · rintro ⟨fuel, hr⟩
    cases fuel with
    | zero => cases hr
    | succ fuel =>
      rw [loop, h] at hr
      exact ⟨fuel, hr⟩
  · rintro ⟨fuel, hr⟩
    refine ⟨fuel + 1, ?_⟩
    rw [loop, h]
    exact hr

theorem ends_of_inr (h : body s = .inr r) : Ends body s r := by
  refine ⟨1, ?_⟩
  rw [loop, h]

theorem not_ends {I : σ → Prop} (hstep : ∀ s, I s → ∃ t, body s = .inl t ∧ I t) (hs : I s) :
    ¬ Ends body s r := by
  rintro ⟨fuel, hr⟩
  induction fuel generalizing s with
  | zero => cases hr
  | succ fuel ih =>
    obtain ⟨t, hbody, ht⟩ := hstep s hs
    rw [loop, hbody] at hr
    exact ih ht hr

end Library.Loops
