import Mathlib.Algebra.Order.Group.Int
import Mathlib.Algebra.Ring.Int.Defs

namespace Library.RoundRobin

variable {n c k a b : ℤ}

def turns (n c a : ℤ) : ℤ := (a - c - 1) % n + 1

theorem turns_pos (hn : 0 < n) : 0 < turns n c a := by
  have := Int.emod_nonneg (a - c - 1) hn.ne'
  unfold turns
  omega

theorem turns_le (hn : 0 < n) : turns n c a ≤ n := by
  have := Int.emod_lt_of_pos (a - c - 1) hn
  unfold turns
  omega

theorem add_turns_emod : (c + turns n c a) % n = a % n := by
  have hsum : c + turns n c a = c + 1 + (a - c - 1) % n := by
    unfold turns
    omega
  have hplace : c + 1 + (a - c - 1) = a := by omega
  rw [hsum, Int.add_emod_emod, hplace]

theorem turns_add {d : ℤ} (hd : 0 < d) (hdn : d ≤ n) : turns n c ((c + d) % n) = d := by
  have hsum : (c + d) % n - c - 1 = (c + d) % n - (c + 1) := by omega
  have hplace : c + d - (c + 1) = d - 1 := by omega
  rw [turns, hsum, Int.emod_sub_emod, hplace, Int.emod_eq_of_lt (by omega) (by omega)]
  omega

theorem turns_self (hn : 0 < n) (ha : 0 ≤ a) (han : a < n) : turns n a a = n := by
  have hself := turns_add (n := n) (c := a) hn le_rfl
  rwa [Int.add_emod_right, Int.emod_eq_of_lt ha han] at hself

theorem turns_inj (ha : 0 ≤ a) (han : a < n) (hb : 0 ≤ b) (hbn : b < n)
    (h : turns n c a = turns n c b) : a = b := by
  have hplaces : a % n = b % n := by rw [← add_turns_emod (c := c), h, add_turns_emod]
  rwa [Int.emod_eq_of_lt ha han, Int.emod_eq_of_lt hb hbn] at hplaces

theorem turns_sub (hn : 0 < n) (hlt : turns n c k < turns n c a) :
    turns n k a = turns n c a - turns n c k := by
  have hk := turns_pos (c := c) (a := k) hn
  have ha := turns_le (c := c) (a := a) hn
  have hmod : (a - k - 1) % n = (turns n c a - turns n c k - 1) % n := by
    have hsplit : a - k - 1 = (a - c - 1) - (k - c - 1) - 1 := by omega
    have hturns : turns n c a - turns n c k - 1 = (a - c - 1) % n - (k - c - 1) % n - 1 := by
      unfold turns
      omega
    rw [hsplit, hturns, Int.sub_emod (_ - _) 1, Int.sub_emod (a - c - 1), ← Int.sub_emod]
  rw [turns, hmod, Int.emod_eq_of_lt (by omega) (by omega)]
  omega

structure Next (n : ℤ) (ready : ℤ → Prop) (c k : ℤ) : Prop where
  nonneg : 0 ≤ k
  lt : k < n
  is_ready : ready k
  first : ∀ a, 0 ≤ a → a < n → ready a → turns n c k ≤ turns n c a

theorem Next.ahead {ready : ℤ → Prop} (h : Next n ready c k) (hb : 0 ≤ b) (hbn : b < n)
    (hready : ready b) (hne : k ≠ b) (hlt : turns n c b < turns n c a) :
    turns n k b < turns n k a := by
  have hn : 0 < n := by omega
  have hle := h.first b hb hbn hready
  have hkb : turns n c k ≠ turns n c b := by
    intro heq
    exact hne (turns_inj h.nonneg h.lt hb hbn heq)
  rw [turns_sub hn (by omega : turns n c k < turns n c b),
    turns_sub hn (by omega : turns n c k < turns n c a)]
  omega

theorem alternate {ready : ℕ → ℤ → Prop} {cur : ℕ → ℤ} {i j : ℕ} (hne : a ≠ b)
    (ha : 0 ≤ a) (han : a < n) (hb : 0 ≤ b) (hbn : b < n)
    (hnext : ∀ m, i ≤ m → m < j → Next n (ready m) (cur m) (cur (m + 1)))
    (hready : ∀ m, i ≤ m → m < j → ready m a ∧ ready m b)
    (hij : i < j) (hi : cur i = a) (hj : cur j = a) : ∃ l, i < l ∧ l < j ∧ cur l = b := by
  by_contra hnone
  have hahead : ∀ d, i + d < j → turns n (cur (i + d)) b < turns n (cur (i + d)) a := by
    intro d
    induction d with
    | zero =>
      intro _
      have hle := turns_le (n := n) (c := a) (a := b) (by omega)
      have hab : turns n a b ≠ n := by
        intro heq
        exact hne (turns_inj ha han hb hbn ((turns_self (by omega) ha han).trans heq.symm))
      rw [Nat.add_zero, hi, turns_self (by omega) ha han]
      omega
    | succ d ih =>
      intro hlt
      apply (hnext (i + d) (by omega) (by omega)).ahead hb hbn (hready (i + d) (by omega) (by omega)).2
      · intro hk
        exact hnone ⟨i + d + 1, by omega, hlt, hk⟩
      · exact ih (by omega)
  have hlast := hnext (j - 1) (by omega) (by omega)
  have hfirst := hlast.first b hb hbn (hready (j - 1) (by omega) (by omega)).2
  have hbehind := hahead (j - 1 - i) (by omega)
  have hidx : i + (j - 1 - i) = j - 1 := by omega
  have hsucc : j - 1 + 1 = j := by omega
  rw [hidx] at hbehind
  rw [hsucc, hj] at hfirst
  omega

end Library.RoundRobin
