import MinOS.Library.Arrays
import MinOS.PipeCalls

namespace MinOS

open Library.Arrays Library.Words

def copyBytes (m : Memory) (c1 c2 : Word) : ℕ → Memory
  | 0 => m
  | i + 1 => Function.update (copyBytes m c1 c2 i) (offset c1 i) (copyBytes m c1 c2 i (offset c2 i))

def memcpy (m : Memory) (buf1 buf2 n : Word) : Memory := copyBytes m buf1 buf2 n.toNat

/-- The loop of `strcpy`, whose index `i` is an `int`: it may be incremented `left - 1` times. -/
def strcpyLoop (m : Memory) (s1 s2 : Word) (i : ℕ) : ℕ → Option Memory
  | 0 => none
  | left + 1 =>
    let m' := Function.update m (offset s1 i) (m (offset s2 i))
    if m (offset s2 i) = 0 then some m' else strcpyLoop m' s1 s2 (i + 1) left

def strcpy (m : Memory) (s1 s2 : Word) : Option Memory := strcpyLoop m s1 s2 0 (2 ^ 31)

def moveBytes (m : Memory) (buf1 buf2 n : Word) : Memory := fun x =>
  if InRegion buf1 n.toNat x then m (offset buf2 (x - buf1).toNat) else m x

section Copies

variable {m : Memory} {buf1 buf2 c1 c2 n x : Word} {i k : ℕ}

theorem source_cases (hi : i < 2 ^ 64) :
    (i < (c1 - c2).toNat ∨ (c1 - c2).toNat = 0) ∧ ¬ InRegion c1 i (offset c2 i) ∨
      0 < (c1 - c2).toNat ∧ (c1 - c2).toNat ≤ i ∧ InRegion c1 i (offset c2 i) ∧
        (offset c2 i - c1).toNat = i - (c1 - c2).toNat := by
  unfold InRegion offset
  by_cases hold : i < (c1 - c2).toNat ∨ (c1 - c2).toNat = 0
  · refine .inl ⟨hold, ?_⟩
    bv_omega
  · have hplace : (c2 + BitVec.ofNat 64 i - c1).toNat = i - (c1 - c2).toNat := by bv_omega
    exact .inr ⟨by omega, by omega, by omega, hplace⟩

theorem source_byte (hi : i < 2 ^ 64) (hread : copyBytes m c1 c2 i (offset c2 i) =
      if InRegion c1 i (offset c2 i) then m (offset c2 ((offset c2 i - c1).toNat % (c1 - c2).toNat))
      else m (offset c2 i)) :
    copyBytes m c1 c2 i (offset c2 i) = m (offset c2 (i % (c1 - c2).toNat)) := by
  rw [hread]
  rcases @source_cases c1 c2 i hi with ⟨hold, hout⟩ | ⟨hpos, hle, hin, hback⟩
  · have hmod : i % (c1 - c2).toNat = i := by
      rcases hold with hlt | hzero
      · exact Nat.mod_eq_of_lt hlt
      · rw [hzero, Nat.mod_zero]
    rw [if_neg hout, hmod]
  · rw [if_pos hin, hback, ← Nat.mod_eq_sub_mod hle]

theorem copyBytes_apply (hi : i ≤ 2 ^ 64) : copyBytes m c1 c2 i x =
    if InRegion c1 i x then m (offset c2 ((x - c1).toNat % (c1 - c2).toNat)) else m x := by
  induction i generalizing x with
  | zero => rfl
  | succ i ih =>
    rw [copyBytes]
    by_cases hlast : x = offset c1 i
    · have hplace : (x - c1).toNat = i := by
        unfold offset at hlast
        bv_omega
      have hin : InRegion c1 (i + 1) x := by
        rw [InRegion, hplace]
        exact Nat.lt_succ_self i
      rw [if_pos hin, hplace, hlast, Function.update_self]
      exact source_byte (by omega) (ih (by omega))
    · have hrest : InRegion c1 (i + 1) x ↔ InRegion c1 i x := by
        unfold InRegion offset at *
        constructor
        · intro hin
          by_contra hnot
          exact hlast (by bv_omega)
        · intro hin
          omega
      rw [Function.update_of_ne hlast, ih (by omega)]
      simp only [hrest]

theorem copyBytes_source (hi : i < 2 ^ 64) :
    copyBytes m c1 c2 i (offset c2 i) = m (offset c2 (i % (c1 - c2).toNat)) :=
  source_byte hi (copyBytes_apply hi.le)

theorem memcpy_apply (m : Memory) (buf1 buf2 n x : Word) : memcpy m buf1 buf2 n x =
    if InRegion buf1 n.toNat x then m (offset buf2 ((x - buf1).toNat % (buf1 - buf2).toNat)) else m x :=
  copyBytes_apply n.isLt.le

theorem memcpy_eq_iff_mod (m : Memory) (buf1 buf2 n : Word) :
    memcpy m buf1 buf2 n = moveBytes m buf1 buf2 n ↔
      ∀ k, k < n.toNat → m (offset buf2 (k % (buf1 - buf2).toNat)) = m (offset buf2 k) := by
  have hn := n.isLt
  constructor
  · intro h k hk
    have hplace : (offset buf1 k - buf1).toNat = k := by
      unfold offset
      bv_omega
    have hin : InRegion buf1 n.toNat (offset buf1 k) := by
      rwa [InRegion, hplace]
    have hbyte := congrFun h (offset buf1 k)
    rwa [memcpy_apply, moveBytes, if_pos hin, if_pos hin, hplace] at hbyte
  · intro h
    funext x
    rw [memcpy_apply, moveBytes]
    by_cases hin : InRegion buf1 n.toNat x
    · rw [if_pos hin, if_pos hin]
      exact h _ hin
    · rw [if_neg hin, if_neg hin]

/-- `memcpy` is right exactly when the bytes of the source that are overwritten before they are read are
the same as those written over them. -/
theorem memcpy_eq_moveBytes_iff (m : Memory) (buf1 buf2 n : Word) :
    memcpy m buf1 buf2 n = moveBytes m buf1 buf2 n ↔ ∀ k, k + (buf1 - buf2).toNat < n.toNat →
      m (offset buf2 (k + (buf1 - buf2).toNat)) = m (offset buf2 k) := by
  rw [memcpy_eq_iff_mod]
  generalize (buf1 - buf2).toNat = d
  constructor
  · intro h k hk
    rw [← h _ hk, Nat.add_mod_right, h k (by omega)]
  · intro h k
    induction k using Nat.strongRecOn with
    | ind k ih =>
      intro hk
      by_cases hlt : k < d
      · rw [Nat.mod_eq_of_lt hlt]
      · by_cases hzero : d = 0
        · rw [hzero, Nat.mod_zero]
        · have hback : k - d + d = k := by omega
          have hsame := h (k - d) (by omega)
          rw [hback] at hsame
          rw [Nat.mod_eq_sub_mod (by omega), ih (k - d) (by omega) (by omega), hsame]

section Strings

variable {s1 s2 : Word} {len left : ℕ}

theorem strcpyLoop_endless (hi : i + left ≤ 2 ^ 64)
    (h : ∀ k, m (offset s2 (k % (s1 - s2).toNat)) ≠ 0) :
    strcpyLoop (copyBytes m s1 s2 i) s1 s2 i left = none := by
  induction left generalizing i with
  | zero => rfl
  | succ left ih =>
    have hbyte : copyBytes m s1 s2 i (offset s2 i) ≠ 0 := by
      rw [copyBytes_source (by omega)]
      exact h i
    rw [strcpyLoop, if_neg hbyte]
    exact @ih (i + 1) (by omega)

theorem strcpyLoop_eq (hi : i + left = len + 1) (hlen : len < 2 ^ 63)
    (hapart : ∀ k ≤ len, m (offset s2 (k % (s1 - s2).toNat)) = m (offset s2 k))
    (hs : ∀ k < len, m (offset s2 k) ≠ 0) (hend : m (offset s2 len) = 0) (hleft : 0 < left) (more : ℕ) :
    strcpyLoop (copyBytes m s1 s2 i) s1 s2 i (left + more) = some (copyBytes m s1 s2 (len + 1)) := by
  induction left generalizing i with
  | zero => exact absurd hleft (lt_irrefl 0)
  | succ left ih =>
    have hsplit : left + 1 + more = left + more + 1 := by omega
    have hbyte : copyBytes m s1 s2 i (offset s2 i) = m (offset s2 i) := by
      rw [copyBytes_source (by omega), hapart i (by omega)]
    rw [hsplit, strcpyLoop]
    by_cases hlast : i = len
    · rw [if_pos (hbyte.trans (hlast ▸ hend)), hlast]
      rfl
    · rw [if_neg (hbyte ▸ hs i (by omega))]
      exact @ih (i + 1) (by omega) (by omega)

/-- A string is copied as it was, unless the copy begins inside it: then its end is overwritten before it
is read, and the index overflows. -/
theorem strcpy_eq (hlen : len < 2 ^ 31) (hs : ∀ k < len, m (offset s2 k) ≠ 0)
    (hend : m (offset s2 len) = 0) : strcpy m s1 s2 =
      if 0 < (s1 - s2).toNat ∧ (s1 - s2).toNat ≤ len then none
      else some (moveBytes m s1 s2 (.ofNat 64 (len + 1))) := by
  rw [strcpy]
  by_cases hinside : 0 < (s1 - s2).toNat ∧ (s1 - s2).toNat ≤ len
  · rw [if_pos hinside]
    apply @strcpyLoop_endless m 0 s1 s2 (2 ^ 31) (by omega)
    intro k
    apply hs
    have := Nat.mod_lt k hinside.1
    omega
  · have hapart : ∀ k ≤ len, k % (s1 - s2).toNat = k := by
      intro k hk
      by_cases hzero : (s1 - s2).toNat = 0
      · rw [hzero, Nat.mod_zero]
      · exact Nat.mod_eq_of_lt (by omega)
    have hn : (BitVec.ofNat 64 (len + 1)).toNat = len + 1 := by
      rw [BitVec.toNat_ofNat]
      omega
    have hmoved : memcpy m s1 s2 (.ofNat 64 (len + 1)) = moveBytes m s1 s2 (.ofNat 64 (len + 1)) := by
      apply (memcpy_eq_iff_mod _ _ _ _).mpr
      intro k hk
      rw [hn] at hk
      rw [hapart k (by omega)]
    have hloop := @strcpyLoop_eq m 0 s1 s2 len (len + 1) (by omega) (by omega)
      (fun k hk => by rw [hapart k hk]) hs hend (by omega) (2 ^ 31 - (len + 1))
    have hbound : len + 1 + (2 ^ 31 - (len + 1)) = 2 ^ 31 := by omega
    rw [hbound] at hloop
    rw [if_neg hinside, ← hmoved, memcpy, hn]
    exact hloop

theorem strcpy_eq_inside : strcpy (fun x => if x = 0x2000 then 0x61 else 0) 0x2001 0x2000 = none := by
  rw [@strcpy_eq (fun x => if x = 0x2000 then 0x61 else 0) 0x2001 0x2000 1 (by decide) (by decide) (by decide)]
  exact if_pos (by decide)

end Strings

theorem Core.memcpy_mem_eq {core : Core} {p q : ℕ} (hp : p + i ≤ 2 ^ 64) (hq : q + i ≤ 2 ^ 64) (x : Word) :
    (core.memcpy p q i).mem x.toNat =
      copyBytes (fun x => core.mem x.toNat) (.ofNat 64 p) (.ofNat 64 q) i x := by
  induction i generalizing x with
  | zero => rfl
  | succ i ih =>
    have hdst : (offset (.ofNat 64 p) i).toNat = p + i := by
      unfold offset
      bv_omega
    have hsrc : (offset (.ofNat 64 q) i).toNat = q + i := by
      unfold offset
      bv_omega
    rw [Core.memcpy, copyBytes, Core.setByte, ← ih (by omega) (by omega), hsrc]
    by_cases hx : x = offset (.ofNat 64 p) i
    · rw [hx, Function.update_self, hdst]
      exact Function.update_self _ _ _
    · have hne : x.toNat ≠ p + i := fun heq => hx (BitVec.eq_of_toNat_eq (heq.trans hdst.symm))
      rw [Function.update_of_ne hx, ← ih (by omega) (by omega)]
      exact Function.update_of_ne hne _ _

end Copies

end MinOS
