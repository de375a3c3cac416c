import MinOS.Library.Words

namespace Library.Arrays

open Library.Words

def offset (a : Word) (k : ℕ) : Word := a + BitVec.ofNat 64 k

def storeBytes (m : Memory) (a : Word) (f : ℕ → BitVec 8) : ℕ → Memory
  | 0 => m
  | n + 1 => Function.update (storeBytes m a f n) (offset a n) (f n)

def storeWords (m : Memory) (a : Word) (f : ℕ → Word) : ℕ → Memory
  | 0 => m
  | n + 1 => store64 (storeWords m a f n) (offset a (8 * n)) (f n)

variable {m : Memory} {a x : Word} {n i o p : ℕ}

theorem offset_offset (a : Word) (i k : ℕ) : offset (offset a i) k = offset a (i + k) := by
  simp only [offset, BitVec.ofNat_add, BitVec.add_assoc]

theorem InRegion.apart {o k p n : ℕ} (hx : InRegion (offset a o) k x) (hk : o + k ≤ 2 ^ 64)
    (hn : p + n ≤ 2 ^ 64) (h : o + k ≤ p ∨ p + n ≤ o) : ¬ InRegion (offset a p) n x := by
  unfold InRegion offset at *
  bv_omega

theorem InRegion.toNat (hx : InRegion a n x) (h : a.toNat + n ≤ 2 ^ 64) :
    a.toNat ≤ x.toNat ∧ x.toNat < a.toNat + n := by
  unfold InRegion at hx
  bv_omega

theorem storeBytes_other (f : ℕ → BitVec 8) (hx : ¬ InRegion a n x) : storeBytes m a f n x = m x := by
  induction n with
  | zero => rfl
  | succ n ih =>
    have hrest : ¬ InRegion a n x := fun h => hx (h.mono (Nat.le_succ n))
    have hne : x ≠ offset a n := by
      rintro rfl
      unfold InRegion offset at *
      bv_omega
    rw [storeBytes, Function.update_of_ne hne, ih hrest]

theorem storeBytes_eq (f : ℕ → BitVec 8) (hn : n ≤ 2 ^ 64) (hi : i < n) :
    storeBytes m a f n (offset a i) = f i := by
  induction n with
  | zero => omega
  | succ n ih =>
    rw [storeBytes]
    by_cases hin : i = n
    · rw [hin, Function.update_self]
    · have hne : offset a i ≠ offset a n := by
        unfold offset
        bv_omega
      rw [Function.update_of_ne hne, ih (by omega) (by omega)]

theorem load64_offset (h : ∀ k, k < 8 → m (offset a (i + k)) = 0) : load64 m (offset a i) = 0 := by
  have hbyte : ∀ k, k < 8 → m (offset a i + BitVec.ofNat 64 k) = 0 := by
    intro k hk
    rw [← h k hk, ← offset_offset]
    rfl
  have hzero : m (offset a i) = 0 := by simpa using hbyte 0 (by decide)
  have h1 : m (offset a i + 1) = 0 := hbyte 1 (by decide)
  have h2 : m (offset a i + 2) = 0 := hbyte 2 (by decide)
  have h3 : m (offset a i + 3) = 0 := hbyte 3 (by decide)
  have h4 : m (offset a i + 4) = 0 := hbyte 4 (by decide)
  have h5 : m (offset a i + 5) = 0 := hbyte 5 (by decide)
  have h6 : m (offset a i + 6) = 0 := hbyte 6 (by decide)
  have h7 : m (offset a i + 7) = 0 := hbyte 7 (by decide)
  rw [load64, hzero, h1, h2, h3, h4, h5, h6, h7]
  rfl

theorem load64_moved {m' : Memory} {b : Word} {j : ℕ}
    (h : ∀ k, k < 8 → m (offset a (i + k)) = m' (offset b (j + k))) :
    load64 m (offset a i) = load64 m' (offset b j) := by
  have hbyte : ∀ k, k < 8 → m (offset a i + BitVec.ofNat 64 k) = m' (offset b j + BitVec.ofNat 64 k) := by
    intro k hk
    have hk' := h k hk
    rw [← offset_offset, ← offset_offset] at hk'
    exact hk'
  have hzero : m (offset a i) = m' (offset b j) := by simpa using hbyte 0 (by decide)
  have h1 : m (offset a i + 1) = m' (offset b j + 1) := hbyte 1 (by decide)
  have h2 : m (offset a i + 2) = m' (offset b j + 2) := hbyte 2 (by decide)
  have h3 : m (offset a i + 3) = m' (offset b j + 3) := hbyte 3 (by decide)
  have h4 : m (offset a i + 4) = m' (offset b j + 4) := hbyte 4 (by decide)
  have h5 : m (offset a i + 5) = m' (offset b j + 5) := hbyte 5 (by decide)
  have h6 : m (offset a i + 6) = m' (offset b j + 6) := hbyte 6 (by decide)
  have h7 : m (offset a i + 7) = m' (offset b j + 7) := hbyte 7 (by decide)
  rw [load64, load64, hzero, h1, h2, h3, h4, h5, h6, h7]

theorem load64_storeBytes_zero (hn : n ≤ 2 ^ 64) (hi : i + 8 ≤ n) :
    load64 (storeBytes m a (fun _ => 0) n) (offset a i) = 0 := by
  apply load64_offset
  intro k hk
  exact storeBytes_eq _ hn (by omega)

theorem storeWords_other (f : ℕ → Word) (hx : ¬ InRegion a (8 * n) x) :
    storeWords m a f n x = m x := by
  induction n with
  | zero => rfl
  | succ n ih =>
    have hrest : ¬ InRegion a (8 * n) x := fun h => hx (h.mono (by omega))
    have hlast : ¬ InRegion (offset a (8 * n)) 8 x := by
      intro h
      apply hx
      unfold InRegion offset at *
      bv_omega
    rw [storeWords, store64_other hlast, ih hrest]

theorem load64_storeWords_apart (f : ℕ → Word) (ho : o + 8 * n ≤ 2 ^ 63) (hp : p + 8 ≤ 2 ^ 63)
    (h : p + 8 ≤ o ∨ o + 8 * n ≤ p) :
    load64 (storeWords m (offset a o) f n) (offset a p) = load64 m (offset a p) := by
  apply load64_congr
  intro x hx
  apply storeWords_other
  unfold InRegion offset at *
  bv_omega

theorem load64_storeWords (f : ℕ → Word) (hn : 8 * n ≤ 2 ^ 63) (hi : i < n) :
    load64 (storeWords m a f n) (offset a (8 * i)) = f i := by
  induction n with
  | zero => omega
  | succ n ih =>
    rw [storeWords]
    by_cases hin : i = n
    · rw [hin, load64_store64]
    · have hsame : load64 (store64 (storeWords m a f n) (offset a (8 * n)) (f n)) (offset a (8 * i)) =
          load64 (storeWords m a f n) (offset a (8 * i)) := by
        apply load64_congr
        intro x hx
        apply store64_other
        unfold InRegion offset at *
        bv_omega
      rw [hsame, ih (by omega) (by omega)]

section Fills

variable {bs : List (BitVec 8)}

def store (m : Memory) (a : Word) (bs : List (BitVec 8)) : Memory := fun x =>
  if (x - a).toNat < bs.length then bs.getD (x - a).toNat 0 else m x

def fill (m : Memory) (a : Word) (bs : List (BitVec 8)) : ℕ → Memory
  | 0 => m
  | n + 1 => store (fill m a bs n) (offset a (bs.length * n)) bs

theorem offset_distance (x a : Word) (k : ℕ) :
    ∃ d, (x - offset a k).toNat = d ∧ (x - a).toNat = (k + d) % 2 ^ 64 := by
  refine ⟨_, rfl, ?_⟩
  unfold offset
  bv_omega

theorem fill_apply (hdvd : bs.length ∣ 2 ^ 64) (n : ℕ) : fill m a bs n x =
    if (x - a).toNat < bs.length * n then bs.getD ((x - a).toNat % bs.length) 0 else m x := by
  induction n with
  | zero => rw [Nat.mul_zero, if_neg (Nat.not_lt_zero _), fill]
  | succ n ih =>
    obtain ⟨d, hd, hx⟩ := offset_distance x a (bs.length * n)
    have hlt := (x - offset a (bs.length * n)).isLt
    rw [fill, store, hd, ih, Nat.mul_add_one]
    by_cases hin : d < bs.length
    · have hmod : (x - a).toNat % bs.length = d := by
        rw [hx, Nat.mod_mod_of_dvd _ hdvd, Nat.mul_add_mod, Nat.mod_eq_of_lt hin]
      have hle := Nat.mod_le (bs.length * n + d) (2 ^ 64)
      rw [if_pos hin, if_pos (by omega), hmod]
    · rw [if_neg hin]
      by_cases hbefore : (x - a).toNat < bs.length * n
      · rw [if_pos hbefore, if_pos (by omega)]
      · have hbehind : ¬ (x - a).toNat < bs.length * n + bs.length := by omega
        rw [if_neg hbefore, if_neg hbehind]

theorem fill_outside (hdvd : bs.length ∣ 2 ^ 64) (h : ¬ InRegion a (bs.length * n) x) :
    fill m a bs n x = m x := (fill_apply hdvd n).trans (if_neg h)

theorem fill_inside (hdvd : bs.length ∣ 2 ^ 64) (h : InRegion a (bs.length * n) x) :
    fill m a bs n x = bs.getD ((x - a).toNat % bs.length) 0 := (fill_apply hdvd n).trans (if_pos h)

def wordBytes (v : Word) : List (BitVec 8) := (List.range 8).map (fun k => v.extractLsb' (8 * k) 8)

theorem store_wordBytes (m : Memory) (a v : Word) : store m a (wordBytes v) = store64 m a v := by
  funext x
  unfold store store64
  simp only [wordBytes, List.length_map, List.length_range]
  generalize (x - a).toNat = k
  by_cases h : k < 8
  · rw [if_pos h, if_pos h]
    simp [h]
  · rw [if_neg h, if_neg h]

theorem storeWords_const (m : Memory) (a v : Word) (n : ℕ) :
    storeWords m a (fun _ => v) n = fill m a (wordBytes v) n := by
  induction n with
  | zero => rfl
  | succ n ih =>
    rw [storeWords, ih, ← store_wordBytes]
    rfl

end Fills

end Library.Arrays
