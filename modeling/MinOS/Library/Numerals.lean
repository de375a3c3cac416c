import Mathlib.Algebra.Ring.Nat
import Mathlib.Data.List.Basic

namespace Library.Numerals

def hexChar (d : ℕ) : Char := "0123456789abcdef".toList.getD d '0'

def hexValue (c : Char) : Option ℕ :=
  if '0' ≤ c ∧ c ≤ '9' then some (c.toNat - '0'.toNat)
  else if 'a' ≤ c ∧ c ≤ 'f' then some (c.toNat - 'a'.toNat + 10)
  else none

def readDigits : ℕ → List Char → Option ℕ
  | acc, [] => some acc
  | acc, c :: cs => (hexValue c).bind (fun d => readDigits (16 * acc + d) cs)

def readHex : List Char → Option ℕ
  | '0' :: 'x' :: cs => readDigits 0 cs
  | _ => none

def digits (n x : ℕ) : List Char := (List.range n).reverse.map (fun k => hexChar (x / 16 ^ k % 16))

def numeral (n x : ℕ) : List Char := '0' :: 'x' :: digits n x

theorem hexValue_hexChar {d : ℕ} (h : d < 16) : hexValue (hexChar d) = some d := by
  have hall : ∀ d : Fin 16, hexValue (hexChar d) = some d.val := by decide
  exact hall ⟨d, h⟩

theorem readDigits_digits (n x acc : ℕ) : readDigits acc (digits n x) = some (16 ^ n * acc + x % 16 ^ n) := by
  induction n generalizing acc with
  | zero => simp [digits, readDigits, Nat.mod_one]
  | succ n ih =>
    have hdigits : digits (n + 1) x = hexChar (x / 16 ^ n % 16) :: digits n x := by
      rw [digits, List.range_succ, List.reverse_append]
      rfl
    rw [hdigits, readDigits, hexValue_hexChar (Nat.mod_lt _ (by decide)), Option.bind_some, ih,
      Nat.mod_pow_succ, Nat.pow_succ, Nat.mul_add, Nat.mul_assoc, Nat.add_assoc,
      Nat.add_comm (x % 16 ^ n)]

theorem readHex_numeral (n x : ℕ) : readHex (numeral n x) = some (x % 16 ^ n) := by
  rw [numeral, readHex, readDigits_digits, Nat.mul_zero, Nat.zero_add]

end Library.Numerals
