import Mathlib.Data.List.Shortlex

namespace Library.Comparisons

variable {α : Type*} {r : α → α → Prop} {x y z : α} {m n : ℤ}

inductive Compares (r : α → α → Prop) (x y : α) : ℤ → Prop
  | lt : r x y → Compares r x y (-1)
  | eq : x = y → Compares r x y 0
  | gt : r y x → Compares r x y 1

namespace Compares

theorem swap (h : Compares r x y n) : Compares r y x (-n) := by
  cases h with
  | lt h => exact .gt h
  | eq h => exact .eq h.symm
  | gt h => exact .lt h

theorem eq_zero_iff [Std.Irrefl r] (h : Compares r x y n) : n = 0 ↔ x = y := by
  have hne : ∀ {a b}, r a b → a ≠ b := fun hab heq => Std.Irrefl.irrefl _ (heq ▸ hab)
  cases h with
  | lt h => exact iff_of_false (by decide) (hne h)
  | eq h => exact iff_of_true rfl h
  | gt h => exact iff_of_false (by decide) (hne h).symm

theorem neg_iff [Std.Asymm r] (h : Compares r x y n) : n < 0 ↔ r x y := by
  cases h with
  | lt h => exact iff_of_true (by decide) h
  | eq h =>
    subst h
    exact iff_of_false (by decide) (Std.Irrefl.irrefl x)
  | gt h => exact iff_of_false (by decide) (Std.Asymm.asymm _ _ h)

theorem bounds (h : Compares r x y n) : -1 ≤ n ∧ n ≤ 1 := by
  cases h <;> decide

theorem unique [Std.Asymm r] (hm : Compares r x y m) (hn : Compares r x y n) : m = n := by
  have hneg := hm.neg_iff.trans hn.neg_iff.symm
  have hzero := hm.eq_zero_iff.trans hn.eq_zero_iff.symm
  have hm' := hm.bounds
  have hn' := hn.bounds
  omega

end Compares

instance isTrans_shortlex [IsTrans α r] : IsTrans (List α) (List.Shortlex r) where
  trans := by
    intro s t u hst htu
    have htrans : ∀ {a b c : α}, r a b → r b c → r a c := fun hab hbc => Trans.trans hab hbc
    rw [List.shortlex_def] at hst htu ⊢
    rcases hst with hst | ⟨hst, hlex⟩
    · left
      omega
    · rcases htu with htu | ⟨htu, hlex'⟩
      · left
        omega
      · right
        exact ⟨hst.trans htu, List.lex_trans htrans hlex hlex'⟩

end Library.Comparisons
