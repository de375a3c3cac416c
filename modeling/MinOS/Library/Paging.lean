import MinOS.Library.Arrays

namespace Library.Paging

open Library.Words Library.Arrays

def present (e : Word) : Bool := e.getLsbD 0

def writable (e : Word) : Bool := e.getLsbD 1

def large (e : Word) : Bool := e.getLsbD 7

def frame (e : Word) : Word := (e.extractLsb' 12 40).setWidth 64 <<< 12

def index (level : ℕ) (v : Word) : ℕ := (v.extractLsb' (12 + 9 * level) 9).toNat

def walk (m : Memory) : ℕ → Word → Word → Option (Word × Bool)
  | 0, page, v => some (page + (v.extractLsb' 0 12).setWidth 64, true)
  | level + 1, table, v =>
    let e := load64 m (offset table (8 * index level v))
    if !present e then none
    else if level ≠ 0 ∧ large e then
      some (frame e + (v.extractLsb' 0 (12 + 9 * level)).setWidth 64, writable e)
    else (walk m level (frame e) v).map (fun x => (x.1, writable e && x.2))

def entry (a : Word) : Word := a ||| 3

variable {m : Memory} {table a v : Word} {n level : ℕ}

theorem entry_toNat (hal : a.toNat % 4096 = 0) : (entry a).toNat = a.toNat + 3 := by
  have hor := Nat.two_pow_add_eq_or_of_lt (i := 12) (b := 3) (by decide) (a.toNat / 4096)
  have ha : 2 ^ 12 * (a.toNat / 4096) = a.toNat := by omega
  rw [ha] at hor
  rw [entry, BitVec.toNat_or, hor]
  rfl

theorem getLsbD_toNat (e : Word) (i : ℕ) : e.getLsbD i = decide (e.toNat / 2 ^ i % 2 = 1) :=
  Nat.testBit_eq_decide_div_mod_eq

theorem entry_flags (hal : a.toNat % 4096 = 0) :
    present (entry a) = true ∧ writable (entry a) = true ∧ large (entry a) = false := by
  have ha := entry_toNat hal
  simp only [present, writable, large, getLsbD_toNat, ha, decide_eq_true_eq, decide_eq_false_iff_not]
  omega

theorem frame_entry (hal : a.toNat % 4096 = 0) (hlt : a.toNat < 2 ^ 52) : frame (entry a) = a := by
  apply BitVec.eq_of_toNat_eq
  simp only [frame, BitVec.toNat_shiftLeft, BitVec.toNat_setWidth, BitVec.extractLsb'_toNat,
    entry_toNat hal, Nat.shiftRight_eq_div_pow, Nat.shiftLeft_eq]
  omega

theorem index_eq (level : ℕ) (v : Word) : index level v = v.toNat / 2 ^ (12 + 9 * level) % 512 := by
  simp [index, BitVec.extractLsb'_toNat, Nat.shiftRight_eq_div_pow]

theorem walk_entry (hload : load64 m (offset table (8 * index level v)) = entry a)
    (hal : a.toNat % 4096 = 0) (hlt : a.toNat < 2 ^ 52) :
    walk m (level + 1) table v = walk m level a v := by
  obtain ⟨hp, hw, hl⟩ := entry_flags hal
  simp [walk, hload, hp, hw, hl, frame_entry hal hlt]

theorem walk_none (hload : load64 m (offset table (8 * index level v)) = 0) :
    walk m (level + 1) table v = none := by
  simp [walk, hload, present]

theorem walk_page (hv : a.toNat = v.toNat / 4096 * 4096) : walk m 0 a v = some (v, true) := by
  have hsum : a + (v.extractLsb' 0 12).setWidth 64 = v := by
    apply BitVec.eq_of_toNat_eq
    simp only [BitVec.toNat_add, hv, BitVec.toNat_setWidth, BitVec.extractLsb'_toNat,
      Nat.shiftRight_zero]
    omega
  rw [walk, hsum]

end Library.Paging
