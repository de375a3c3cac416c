import MinOS.Directories
import MinOS.Library.Comparisons
import MinOS.QueueChar

namespace MinOS

open Library.Comparisons Library.Integers

inductive StringFault
  | pastNul
  | overflow
deriving DecidableEq

/-- The loop that counts the characters, from the byte on where `bytes` begins. Its counter `i` is as
large as the length. -/
def countChars : List (BitVec 8) → ℤ → Except StringFault ℤ
  | [], _ => .error .pastNul
  | c :: bytes, len =>
    if c = 0 then .ok len
    else if len + 1 < 2 ^ 31 then countChars bytes (len + 1)
    else .error .overflow

def strncmp : List (BitVec 8) → List (BitVec 8) → ℕ → Except StringFault ℤ
  | _, _, 0 => .ok 0
  | c1 :: s1, c2 :: s2, n + 1 =>
    if c1.toInt > c2.toInt then .ok 1
    else if c1.toInt < c2.toInt then .ok (-1)
    else strncmp s1 s2 n
  | _, _, _ + 1 => .error .pastNul

def strcmp (s1 s2 : CString) : Except StringFault ℤ := do
  let s1len ← countChars s1.bytes 0
  let s2len ← countChars s2.bytes 0
  if s1len = s2len then strncmp s1.bytes s2.bytes (uint64 s1len)
  else if s1len > s2len then .ok 1
  else .ok (-1)

def CharLt (c d : BitVec 8) : Prop := c.toInt < d.toInt

instance : Std.Asymm CharLt := ⟨fun _ _ h => Int.lt_asymm h⟩

instance : IsTrans (BitVec 8) CharLt := ⟨fun _ _ _ h h' => Int.lt_trans h h'⟩

namespace CString

variable {a b : CString}

def Countable (s : CString) : Prop := s.chars.length < 2 ^ 31

instance (s : CString) : Decidable s.Countable := inferInstanceAs (Decidable (_ < _))

theorem eq_iff : a = b ↔ a.chars = b.chars := by
  obtain ⟨chars, ha⟩ := a
  obtain ⟨chars', hb⟩ := b
  rw [CString.mk.injEq]

def ofBytes (bytes : List (BitVec 8)) : CString where
  chars := bytes.takeWhile (· ≠ 0)
  ne_nul := by
    intro c hc
    simpa using List.mem_takeWhile_imp hc

def dot : CString := ⟨[46], by decide⟩

def dotdot : CString := ⟨[46, 46], by decide⟩

end CString

variable {a b c : CString} {chars name : List (BitVec 8)} {len : ℤ}

theorem countChars_eq (hchars : ∀ c ∈ chars, c ≠ 0) (hlen : len < 2 ^ 31) :
    countChars (chars ++ [0]) len =
      if len + chars.length < 2 ^ 31 then .ok (len + chars.length) else .error .overflow := by
  induction chars generalizing len with
  | nil => rw [List.nil_append, countChars, if_pos rfl, List.length_nil, Int.natCast_zero, Int.add_zero,
      if_pos hlen]
  | cons c chars ih =>
    have hc : c ≠ 0 := hchars c List.mem_cons_self
    have hrest : ∀ d ∈ chars, d ≠ 0 := fun d hd => hchars d (List.mem_cons_of_mem c hd)
    have hsum : len + (c :: chars).length = len + 1 + chars.length := by
      rw [List.length_cons]
      omega
    rw [List.cons_append, countChars, if_neg hc, hsum]
    by_cases hnext : len + 1 < 2 ^ 31
    · rw [if_pos hnext, ih hrest hnext]
    · rw [if_neg hnext, if_neg (by omega)]

theorem countChars_countable (h : a.Countable) : countChars a.bytes 0 = .ok (a.chars.length : ℤ) := by
  have hlt : (a.chars.length : ℤ) < 2 ^ 31 := by exact_mod_cast h
  rw [CString.bytes, countChars_eq a.ne_nul (by decide), Int.zero_add, if_pos hlt]

theorem countChars_overflow (h : ¬ a.Countable) : countChars a.bytes 0 = .error .overflow := by
  have hnot : ¬ (a.chars.length : ℤ) < 2 ^ 31 := by exact_mod_cast h
  rw [CString.bytes, countChars_eq a.ne_nul (by decide), Int.zero_add, if_neg hnot]

theorem strncmp_compares {s t : List (BitVec 8)} (hlen : s.length = t.length) (u v : List (BitVec 8)) :
    ∃ n, strncmp (s ++ u) (t ++ v) s.length = .ok n ∧ Compares (List.Lex CharLt) s t n := by
  induction s generalizing t with
  | nil =>
    obtain rfl := List.length_eq_zero_iff.mp hlen.symm
    exact ⟨0, by rw [List.length_nil, strncmp], .eq rfl⟩
  | cons c s ih =>
    obtain ⟨d, t, rfl⟩ := List.exists_cons_of_length_eq_add_one hlen.symm
    rw [List.cons_append, List.cons_append, List.length_cons, strncmp]
    rcases lt_trichotomy c.toInt d.toInt with hlt | heq | hgt
    · rw [if_neg (by omega), if_pos hlt]
      exact ⟨-1, rfl, .lt (.rel hlt)⟩
    · rw [if_neg (by omega), if_neg (by omega)]
      obtain ⟨n, hn, hcompares⟩ := ih (by simpa using hlen)
      obtain rfl := BitVec.eq_of_toInt_eq heq
      refine ⟨n, hn, ?_⟩
      cases hcompares with
      | lt h => exact .lt (.cons h)
      | eq h => exact .eq (congrArg (List.cons c) h)
      | gt h => exact .gt (.cons h)
    · rw [if_pos hgt]
      exact ⟨1, rfl, .gt (.rel hgt)⟩

theorem strcmp_eq (ha : a.Countable) (hb : b.Countable) : strcmp a b =
    if a.chars.length = b.chars.length then strncmp a.bytes b.bytes a.chars.length
    else if b.chars.length < a.chars.length then .ok 1
    else .ok (-1) := by
  have hlong : a.chars.length < 2 ^ 64 := lt_trans ha (by decide)
  rw [strcmp, countChars_countable ha, countChars_countable hb]
  simp only [bind, Except.bind, Nat.cast_inj, gt_iff_lt, Nat.cast_lt, uint64_eq hlong]

theorem strcmp_compares (ha : a.Countable) (hb : b.Countable) :
    ∃ n, strcmp a b = .ok n ∧ Compares (List.Shortlex CharLt) a.chars b.chars n := by
  rw [strcmp_eq ha hb]
  rcases lt_trichotomy a.chars.length b.chars.length with hlt | heq | hgt
  · rw [if_neg (by omega), if_neg (by omega)]
    exact ⟨-1, rfl, .lt (.of_length_lt hlt)⟩
  · rw [if_pos heq]
    obtain ⟨n, hn, hcompares⟩ := strncmp_compares heq [0] [0]
    refine ⟨n, hn, ?_⟩
    cases hcompares with
    | lt h => exact .lt (.of_lex heq h)
    | eq h => exact .eq h
    | gt h => exact .gt (.of_lex heq.symm h)
  · rw [if_neg (by omega), if_pos hgt]
    exact ⟨1, rfl, .gt (.of_length_lt hgt)⟩

theorem strcmp_overflow (h : ¬ (a.Countable ∧ b.Countable)) : strcmp a b = .error .overflow := by
  rw [strcmp]
  by_cases ha : a.Countable
  · have hb : ¬ b.Countable := fun hb => h ⟨ha, hb⟩
    rw [countChars_countable ha, countChars_overflow hb]
    rfl
  · rw [countChars_overflow ha]
    rfl

theorem strcmp_ok_iff : (∃ n, strcmp a b = .ok n) ↔ a.Countable ∧ b.Countable := by
  constructor
  · rintro ⟨n, hn⟩
    by_contra h
    rw [strcmp_overflow h] at hn
    cases hn
  · rintro ⟨ha, hb⟩
    obtain ⟨n, hn, -⟩ := strcmp_compares ha hb
    exact ⟨n, hn⟩

theorem strcmp_ne_pastNul (a b : CString) : strcmp a b ≠ .error .pastNul := by
  by_cases h : a.Countable ∧ b.Countable
  · obtain ⟨n, hn, -⟩ := strcmp_compares h.1 h.2
    rw [hn]
    exact nofun
  · rw [strcmp_overflow h]
    decide

theorem strcmp_zero_iff (ha : a.Countable) (hb : b.Countable) : strcmp a b = .ok 0 ↔ a = b := by
  obtain ⟨n, hn, hcompares⟩ := strcmp_compares ha hb
  rw [hn, CString.eq_iff, ← hcompares.eq_zero_iff, Except.ok.injEq]

theorem isDots_iff (hlen : name.length < 2 ^ 31) : isDots name ↔
    strcmp (.ofBytes name) .dot = .ok 0 ∨ strcmp (.ofBytes name) .dotdot = .ok 0 := by
  have hname : (CString.ofBytes name).Countable :=
    lt_of_le_of_lt (List.takeWhile_prefix _).length_le hlen
  have hdot : CString.dot.Countable := by decide
  have hdotdot : CString.dotdot.Countable := by decide
  rw [strcmp_zero_iff hname hdot, strcmp_zero_iff hname hdotdot, CString.eq_iff, CString.eq_iff]
  rfl

def ComparesRight (a b c : CString) : Prop :=
  ∃ ab ba bc ac, strcmp a b = .ok ab ∧ strcmp b a = .ok ba ∧ strcmp b c = .ok bc ∧
    strcmp a c = .ok ac ∧ (ab = 0 ↔ a = b) ∧ ab = -ba ∧ (ab < 0 → bc < 0 → ac < 0)

theorem comparesRight_iff :
    ComparesRight a b c ↔ a.Countable ∧ b.Countable ∧ c.Countable := by
  constructor
  · rintro ⟨ab, ba, bc, ac, hab, -, hbc, -⟩
    exact ⟨(strcmp_ok_iff.mp ⟨ab, hab⟩).1, strcmp_ok_iff.mp ⟨bc, hbc⟩⟩
  · rintro ⟨ha, hb, hc⟩
    obtain ⟨ab, hab, hab'⟩ := strcmp_compares ha hb
    obtain ⟨ba, hba, hba'⟩ := strcmp_compares hb ha
    obtain ⟨bc, hbc, hbc'⟩ := strcmp_compares hb hc
    obtain ⟨ac, hac, hac'⟩ := strcmp_compares ha hc
    refine ⟨ab, ba, bc, ac, hab, hba, hbc, hac, ?_, hab'.unique hba'.swap, ?_⟩
    · rw [CString.eq_iff]
      exact hab'.eq_zero_iff
    · intro hlt hlt'
      have hbefore := Trans.trans (hab'.neg_iff.mp hlt) (hbc'.neg_iff.mp hlt')
      exact hac'.neg_iff.mpr hbefore

/-- The counter of a string of `2 ^ 31` letters exceeds the range of `int`. -/
theorem not_comparesRight_letters :
    ¬ ComparesRight (.letters (2 ^ 31)) (.letters 1) (.letters 2) := by
  rintro ⟨ab, -, -, -, hab, -⟩
  have hcountable := (strcmp_ok_iff.mp ⟨ab, hab⟩).1
  rw [CString.Countable, CString.letters, List.length_replicate] at hcountable
  exact absurd hcountable (lt_irrefl _)

end MinOS
