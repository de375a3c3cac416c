import Mathlib.Algebra.Ring.Nat
import Mathlib.Data.List.Basic
import Mathlib.Logic.Function.Basic

namespace Library.Images

section Bytes

def bytesAt (d : ℕ → BitVec 8) (p : ℕ) : ℕ → List (BitVec 8)
  | 0 => []
  | n + 1 => d p :: bytesAt d (p + 1) n

def number : List (BitVec 8) → ℕ
  | [] => 0
  | b :: bs => b.toNat + 256 * number bs

def slice (bs : List (BitVec 8)) (k n : ℕ) : List (BitVec 8) := (bs.drop k).take n

variable {d d' : ℕ → BitVec 8} {p q k m n : ℕ}

theorem drop_bytesAt (d : ℕ → BitVec 8) (p k n : ℕ) :
    (bytesAt d p (k + n)).drop k = bytesAt d (p + k) n := by
  induction k generalizing p with
  | zero =>
    rw [Nat.zero_add]
    rfl
  | succ k ih =>
    have hp : p + (k + 1) = p + 1 + k := by omega
    rw [Nat.succ_add, bytesAt, List.drop_succ_cons, ih, hp]

theorem take_bytesAt (d : ℕ → BitVec 8) (p m n : ℕ) :
    (bytesAt d p (m + n)).take m = bytesAt d p m := by
  induction m generalizing p with
  | zero => rw [List.take_zero, bytesAt]
  | succ m ih => rw [Nat.succ_add, bytesAt, List.take_succ_cons, ih, bytesAt]

theorem slice_bytesAt (h : k + m ≤ n) : slice (bytesAt d p n) k m = bytesAt d (p + k) m := by
  obtain ⟨r, rfl⟩ := Nat.exists_eq_add_of_le h
  rw [slice, Nat.add_assoc, drop_bytesAt, take_bytesAt]

theorem bytesAt_eq_iff : bytesAt d p n = bytesAt d' q n ↔ ∀ i, i < n → d (p + i) = d' (q + i) := by
  induction n generalizing p q with
  | zero => simp [bytesAt]
  | succ n ih =>
    rw [bytesAt, bytesAt, List.cons.injEq, ih]
    constructor
    · rintro ⟨hfirst, hrest⟩ i hi
      cases i with
      | zero => exact hfirst
      | succ i =>
        have hnext := hrest i (by omega)
        rwa [Nat.add_right_comm, Nat.add_right_comm q] at hnext
    · intro h
      refine ⟨h 0 (by omega), fun i hi => ?_⟩
      have hnext := h (i + 1) (by omega)
      rwa [Nat.add_right_comm, Nat.add_right_comm q]

theorem number_lt (bs : List (BitVec 8)) : number bs < 256 ^ bs.length := by
  induction bs with
  | nil => decide
  | cons b bs ih =>
    have hb := b.isLt
    rw [number, List.length_cons, Nat.pow_succ]
    omega

theorem number_slice_lt (bs : List (BitVec 8)) (k n : ℕ) : number (slice bs k n) < 256 ^ n := by
  have hlength : (slice bs k n).length ≤ n := List.length_take_le n _
  exact Nat.lt_of_lt_of_le (number_lt _) (Nat.pow_le_pow_right (by decide) hlength)

end Bytes

section Filling

variable {α : Type*}

def written (table : ℕ → α) (ws : List (ℕ × α)) : ℕ → α :=
  ws.foldl (fun t w => Function.update t w.1 w.2) table

theorem written_append (table : ℕ → α) (ws ws' : List (ℕ × α)) :
    written table (ws ++ ws') = written (written table ws) ws' := List.foldl_append

theorem foldl_update {index : ℕ → ℕ} {base n : ℕ} (hindex : ∀ j, j < n → index j = base + j)
    (f : ℕ → α) (table : ℕ → α) (k : ℕ) :
    (List.range n).foldl (fun t j => Function.update t (index j) (f j)) table k =
      if base ≤ k ∧ k < base + n then f (k - base) else table k := by
  induction n with
  | zero =>
    rw [if_neg (by omega)]
    rfl
  | succ n ih =>
    rw [List.range_succ, List.foldl_append, List.foldl_cons, List.foldl_nil, hindex n (by omega)]
    by_cases hk : k = base + n
    · subst hk
      rw [Function.update_self, if_pos (by omega), Nat.add_sub_cancel_left]
    · rw [Function.update_of_ne hk, ih (fun j hj => hindex j (by omega))]
      by_cases hin : base ≤ k ∧ k < base + n
      · rw [if_pos hin, if_pos (by omega)]
      · rw [if_neg hin, if_neg (by omega)]

theorem written_range (f : ℕ → α) (table : ℕ → α) (n k : ℕ) :
    written table ((List.range n).map (fun j => (j, f j))) k = if k < n then f k else table k := by
  have hfold := foldl_update (n := n) (fun j _ => (Nat.zero_add j).symm) f table k
  rw [written, List.foldl_map, hfold, Nat.zero_add, Nat.sub_zero]
  simp only [Nat.zero_le, true_and]

end Filling

end Library.Images
