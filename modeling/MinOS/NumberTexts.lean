import MinOS.Library.Images
import MinOS.Library.Numerals
import MinOS.Library.Words

namespace MinOS

open Library.Images Library.Numerals Library.Words

def mypow (num p : Word) : Word := (List.range p.toNat).foldl (fun ans _ => ans * num) 1

def nul : Char := Char.ofNat 0

def stringIn (n : ℕ) (chars : ℕ → Char) : List Char :=
  ((List.range n).map chars).takeWhile (fun c => c ≠ nul)

def numarr (num : Word) (i : ℕ) : Word :=
  let i : Word := .ofNat 64 i
  (num &&& (mypow 2 (0 + i * 4) + mypow 2 (1 + i * 4) + mypow 2 (2 + i * 4) + mypow 2 (3 + i * 4))) >>>
    (i * 4)

def chainChar (d : Word) : Option Char :=
  if d = 0x0 then some '0' else if d = 0x1 then some '1' else if d = 0x2 then some '2'
  else if d = 0x3 then some '3' else if d = 0x4 then some '4' else if d = 0x5 then some '5'
  else if d = 0x6 then some '6' else if d = 0x7 then some '7' else if d = 0x8 then some '8'
  else if d = 0x9 then some '9' else if d = 0xa then some 'a' else if d = 0xb then some 'b'
  else if d = 0xc then some 'c' else if d = 0xd then some 'd' else if d = 0xe then some 'e'
  else if d = 0xf then some 'f' else none

def storeDigit (num : Word) (x : (ℕ → Char) × List (List Char)) (i : ℕ) :
    (ℕ → Char) × List (List Char) :=
  match chainChar (numarr num i) with
  | some c => (Function.update x.1 (17 - i) c, x.2)
  | none => (x.1, x.2 ++ ["Invalid token".toList])

def printnum (init : ℕ → Char) (num : Word) : List (List Char) :=
  let numchararr := Function.update (Function.update (Function.update init 0 '0') 1 'x') 18 nul
  let x := (List.range 16).foldl (storeDigit num) (numchararr, [])
  x.2 ++ [stringIn 19 x.1]

def hex : List Char := "0123456789abcdef".toList

def sendDigit (x : (ℕ → Char) × Word) (i : ℕ) : (ℕ → Char) × Word :=
  (Function.update x.1 (17 - i) (hex.getD (x.2 &&& 15).toNat nul), x.2 >>> 4)

def putnSerial (n : Word) : List Char :=
  let buf : ℕ → Char := fun i => "0x".toList.getD i nul
  let buf := Function.update buf 18 nul
  let x := (List.range 16).foldl sendDigit (buf, n)
  stringIn 19 x.1

variable {num : Word} {i k n : ℕ}

theorem mypow_two (p : Word) : mypow 2 p = (1 : Word) <<< p.toNat := by
  have hdouble : ∀ x : Word, x * (2 : Word) = x <<< 1 := by
    intro x
    apply BitVec.eq_of_toNat_eq
    simp [Nat.shiftLeft_eq]
  rw [mypow]
  generalize p.toNat = n
  induction n with
  | zero => rfl
  | succ n ih =>
    rw [List.range_succ, List.foldl_append, ih, List.foldl_cons, List.foldl_nil, hdouble,
      BitVec.shiftLeft_add]

theorem mask_eq (hi : i < 16) : mypow 2 (0 + .ofNat 64 i * 4) + mypow 2 (1 + .ofNat 64 i * 4) +
    mypow 2 (2 + .ofNat 64 i * 4) + mypow 2 (3 + .ofNat 64 i * 4) = (15 : Word) <<< (4 * i) := by
  have hexp : ∀ j : Word, j.toNat < 4 → (j + .ofNat 64 i * 4).toNat = j.toNat + 4 * i := by
    intro j hj
    bv_omega
  rw [mypow_two, mypow_two, mypow_two, mypow_two, hexp 0 (by decide), hexp 1 (by decide),
    hexp 2 (by decide), hexp 3 (by decide)]
  simp only [BitVec.shiftLeft_add, ← BitVec.shiftLeft_add_distrib]
  rfl

theorem numarr_eq (hi : i < 16) : numarr num i = num >>> (4 * i) &&& 15 := by
  have hshift : (BitVec.ofNat 64 i * 4).toNat = 4 * i := by bv_omega
  have hback : ((15 : Word) <<< (4 * i)) >>> (4 * i) = 15 := by
    have hall : ∀ i : Fin 16, ((15 : Word) <<< (4 * i.val)) >>> (4 * i.val) = 15 := by decide
    exact hall ⟨i, hi⟩
  rw [numarr, mask_eq hi, BitVec.ushiftRight_eq', hshift, BitVec.ushiftRight_and_distrib, hback]

def digitOf (num : Word) (i : ℕ) : Char := hexChar (num.toNat / 16 ^ i % 16)

theorem toNat_digit (num : Word) (i : ℕ) : (num >>> (4 * i) &&& 15).toNat = num.toNat / 16 ^ i % 16 := by
  have hpow : 2 ^ (4 * i) = 16 ^ i := by rw [Nat.pow_mul]
  rw [BitVec.toNat_and, BitVec.toNat_ushiftRight, Nat.shiftRight_eq_div_pow, hpow]
  exact Nat.and_two_pow_sub_one_eq_mod _ 4

theorem chainChar_numarr (hi : i < 16) : chainChar (numarr num i) = some (digitOf num i) := by
  have hall : ∀ d : Fin 16, chainChar (.ofNat 64 d.val) = some (hexChar d.val) := by decide
  have hlt : num.toNat / 16 ^ i % 16 < 16 := Nat.mod_lt _ (by decide)
  have hdigit : numarr num i = .ofNat 64 (num.toNat / 16 ^ i % 16) := by
    apply BitVec.eq_of_toNat_eq
    rw [numarr_eq hi, toNat_digit, BitVec.toNat_ofNat]
    exact (Nat.mod_eq_of_lt (Nat.lt_trans hlt (by decide))).symm
  rw [hdigit, hall ⟨_, hlt⟩, digitOf]

theorem hexChar_ne_nul {d : ℕ} (h : d < 16) : hexChar d ≠ nul := by
  have hall : ∀ d : Fin 16, hexChar d ≠ nul := by decide
  exact hall ⟨d, h⟩

theorem ne_nul_of_mem_numeral {c : Char} (h : c ∈ numeral 16 n) : c ≠ nul := by
  rw [numeral, List.mem_cons, List.mem_cons, digits, List.mem_map] at h
  rcases h with rfl | rfl | ⟨k, -, rfl⟩
  · decide
  · decide
  · exact hexChar_ne_nul (Nat.mod_lt _ (by decide))

theorem stringIn_digits {chars : ℕ → Char} (h0 : chars 0 = '0') (h1 : chars 1 = 'x')
    (hdigits : ∀ i, i < 16 → chars (17 - i) = digitOf num i) (hend : chars 18 = nul) :
    stringIn 19 chars = numeral 16 num.toNat := by
  have hreverse : (List.range 16).reverse = (List.range 16).map (fun i => 15 - i) := by decide
  have hnumeral : (List.range 18).map chars = numeral 16 num.toNat := by
    rw [List.range_succ_eq_map, List.range_succ_eq_map, numeral, digits, hreverse]
    simp only [List.map_cons, List.map_map, h0, h1, Nat.succ_eq_add_one, Nat.zero_add, List.cons.injEq,
      true_and]
    apply List.map_congr_left
    intro i hi
    rw [List.mem_range] at hi
    have hcell : 17 - (15 - i) = i + 1 + 1 := by omega
    have hdigit := hdigits (15 - i) (by omega)
    rwa [hcell] at hdigit
  rw [stringIn, List.range_succ, List.map_append, hnumeral, List.takeWhile_append_of_pos]
  · simp [hend]
  · intro c hc
    exact decide_eq_true (ne_nul_of_mem_numeral hc)

theorem hex_getD {d : ℕ} (h : d < 16) : hex.getD d nul = hexChar d := by
  have hall : ∀ d : Fin 16, hex.getD d nul = hexChar d := by decide
  exact hall ⟨d, h⟩

theorem foldl_storeDigit (x : (ℕ → Char) × List (List Char)) (hn : n ≤ 16) :
    (List.range n).foldl (storeDigit num) x =
      ((List.range n).foldl (fun chars i => Function.update chars (17 - i) (digitOf num i)) x.1, x.2) := by
  induction n with
  | zero => rfl
  | succ n ih =>
    rw [List.range_succ, List.foldl_append, List.foldl_append, ih (by omega), List.foldl_cons,
      List.foldl_nil, List.foldl_cons, List.foldl_nil, storeDigit, chainChar_numarr (by omega)]

theorem foldl_sendDigit (buf : ℕ → Char) (num : Word) (n : ℕ) :
    (List.range n).foldl sendDigit (buf, num) =
      ((List.range n).foldl (fun chars i => Function.update chars (17 - i) (digitOf num i)) buf,
        num >>> (4 * n)) := by
  induction n with
  | zero => simp
  | succ n ih =>
    rw [List.range_succ, List.foldl_append, List.foldl_append, ih, List.foldl_cons, List.foldl_nil,
      List.foldl_cons, List.foldl_nil, sendDigit, toNat_digit, hex_getD (Nat.mod_lt _ (by decide)),
      ← BitVec.shiftRight_add, Nat.mul_add_one, digitOf]

theorem foldl_digits {f : ℕ → Char} {chars : ℕ → Char} (hn : n ≤ 17) (k : ℕ) :
    (List.range n).foldl (fun chars i => Function.update chars (17 - i) (f i)) chars k =
      if 17 - n < k ∧ k ≤ 17 then f (17 - k) else chars k := by
  induction n with
  | zero =>
    rw [if_neg (by omega)]
    rfl
  | succ n ih =>
    rw [List.range_succ, List.foldl_append, List.foldl_cons, List.foldl_nil]
    by_cases hk : k = 17 - n
    · subst hk
      rw [Function.update_self, if_pos (by omega)]
      congr 1
      omega
    · rw [Function.update_of_ne hk, ih (by omega)]
      by_cases hin : 17 - n < k ∧ k ≤ 17
      · rw [if_pos hin, if_pos (by omega)]
      · rw [if_neg hin, if_neg (by omega)]

theorem stringIn_stored {chars : ℕ → Char} (h0 : chars 0 = '0') (h1 : chars 1 = 'x')
    (hend : chars 18 = nul) :
    stringIn 19 ((List.range 16).foldl
      (fun chars i => Function.update chars (17 - i) (digitOf num i)) chars) = numeral 16 num.toNat := by
  apply stringIn_digits
  · rwa [foldl_digits (by decide), if_neg (by omega)]
  · rwa [foldl_digits (by decide), if_neg (by omega)]
  · intro i hi
    rw [foldl_digits (by decide), if_pos (by omega)]
    congr 1
    omega
  · rwa [foldl_digits (by decide), if_neg (by omega)]

theorem printnum_eq (init : ℕ → Char) (num : Word) : printnum init num = [numeral 16 num.toNat] := by
  rw [printnum, foldl_storeDigit _ (le_refl 16), List.nil_append, stringIn_stored rfl rfl rfl]

theorem putnSerial_eq (num : Word) : putnSerial num = numeral 16 num.toNat := by
  rw [putnSerial, foldl_sendDigit, stringIn_stored rfl rfl rfl]

/-- The screen and the serial line show the same 18 characters, which are a numeral of `num`. -/
theorem number_texts (init : ℕ → Char) (num : Word) : printnum init num = [putnSerial num] ∧
    (putnSerial num).length = 18 ∧ readHex (putnSerial num) = some num.toNat := by
  have hlt : num.toNat < 16 ^ 16 := num.isLt
  rw [printnum_eq, putnSerial_eq, readHex_numeral, Nat.mod_eq_of_lt hlt]
  refine ⟨rfl, ?_, rfl⟩
  simp [numeral, digits]

end MinOS
