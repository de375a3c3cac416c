import MinOS.Library.Fields

namespace Library.Tables

open Library.Arrays Library.Fields Library.Words

def putRecord (a : Word) (size : ℕ) (s : Traced) (w : ℕ × List (Field × ℕ)) : Traced :=
  s.putAll (offset a (size * w.1)) w.2

def putRecords (a : Word) (size : ℕ) (s : Traced) (writes : List (ℕ × List (Field × ℕ))) : Traced :=
  writes.foldl (putRecord a size) s

def lastWrite (i : ℕ) : List (ℕ × List (Field × ℕ)) → Option (List (Field × ℕ))
  | [] => none
  | w :: writes => (lastWrite i writes).or (if w.1 = i then some w.2 else none)

structure Fit (size count : ℕ) (w : ℕ × List (Field × ℕ)) : Prop where
  index : w.1 < count
  layout : Layout (w.2.map Prod.fst) size

variable {a x : Word} {size count i : ℕ} {s : Traced} {w : ℕ × List (Field × ℕ)}
  {writes writes' : List (ℕ × List (Field × ℕ))} {f : Field} {r : List (Field × ℕ)}

theorem lastWrite_append :
    lastWrite i (writes ++ writes') = (lastWrite i writes').or (lastWrite i writes) := by
  induction writes with
  | nil => exact (Option.or_none ..).symm
  | cons w writes ih => rw [List.cons_append, lastWrite, lastWrite, ih, Option.or_assoc]

theorem lastWrite_eq_none (h : ∀ w ∈ writes, w.1 ≠ i) : lastWrite i writes = none := by
  induction writes with
  | nil => rfl
  | cons w writes ih =>
    obtain ⟨hw, hrest⟩ := List.forall_mem_cons.mp h
    rw [lastWrite, ih hrest, if_neg hw, Option.or_none]

theorem lastWrite_eq_some (hnd : (writes.map Prod.fst).Nodup) (h : (i, r) ∈ writes) :
    lastWrite i writes = some r := by
  induction writes with
  | nil => exact absurd h List.not_mem_nil
  | cons w writes ih =>
    rw [List.map_cons, List.nodup_cons] at hnd
    rcases List.mem_cons.mp h with rfl | h
    · have hrest : lastWrite i writes = none := by
        refine lastWrite_eq_none (fun w hw hi => hnd.1 ?_)
        exact List.mem_map.mpr ⟨w, hw, hi⟩
      rw [lastWrite, hrest, if_pos rfl, Option.none_or]
    · rw [lastWrite, ih hnd.2 h, Option.some_or]

theorem inRegion_record (hi : i < count) (hsize : size * count ≤ 2 ^ 32)
    (hx : InRegion (offset a (size * i)) size x) : InRegion a (size * count) x := by
  have hle : size * (i + 1) ≤ size * count := Nat.mul_le_mul_left size hi
  rw [Nat.mul_add_one] at hle
  have hshift : InRegion a (size * i + size) x := InRegion.shift hx (by omega)
  exact hshift.mono hle

theorem Fit.inside (h : Fit size count w) (hsize : size * count ≤ 2 ^ 32) :
    Inside (InRegion (offset a (size * w.1)) size)
      ((w.2.map Prod.fst).map (Field.store (offset a (size * w.1)))) := by
  have hle : size * (w.1 + 1) ≤ size * count := Nat.mul_le_mul_left size h.index
  rw [Nat.mul_add_one] at hle
  exact h.layout.inside (by omega)

theorem putRecord_other (h : Fit size count w) (hsize : size * count ≤ 2 ^ 32)
    (hx : ¬ InRegion (offset a (size * w.1)) size x) : (putRecord a size s w).mem x = s.mem x :=
  (wrote_putAll s _ w.2).mem x (fun e he hxe => hx (h.inside hsize e he x hxe))

theorem putRecords_other (h : ∀ w ∈ writes, Fit size count w) (hsize : size * count ≤ 2 ^ 32)
    (hx : ¬ InRegion a (size * count) x) : (putRecords a size s writes).mem x = s.mem x := by
  induction writes generalizing s with
  | nil => rfl
  | cons w writes ih =>
    obtain ⟨hw, hrest⟩ := List.forall_mem_cons.mp h
    have hrecord : ¬ InRegion (offset a (size * w.1)) size x :=
      fun hin => hx (inRegion_record hw.index hsize hin)
    exact (ih hrest).trans (putRecord_other hw hsize hrecord)

theorem get_putRecord_other (h : Fit size count w) (hsize : size * count ≤ 2 ^ 32) (hi : i < count)
    (hf : f.offset + f.size ≤ size) (hne : w.1 ≠ i) :
    f.get (putRecord a size s w).mem (offset a (size * i)) = f.get s.mem (offset a (size * i)) := by
  have hle : size * (i + 1) ≤ size * count := Nat.mul_le_mul_left size hi
  have hle' : size * (w.1 + 1) ≤ size * count := Nat.mul_le_mul_left size h.index
  have hapart : size * i + size ≤ size * w.1 ∨ size * w.1 + size ≤ size * i := by
    rcases lt_or_gt_of_ne hne with hlt | hlt
    · exact .inr (by rw [← Nat.mul_add_one]; exact Nat.mul_le_mul_left size hlt)
    · exact .inl (by rw [← Nat.mul_add_one]; exact Nat.mul_le_mul_left size hlt)
  rw [Nat.mul_add_one] at hle hle'
  refine (wrote_putAll s _ w.2).get (h.inside hsize) (by unfold Field.Near; omega) (fun x hx => ?_)
  rw [offset_offset] at hx
  exact InRegion.apart hx (by omega) (by omega) (by omega)

theorem get_putRecords_none (h : ∀ w ∈ writes, Fit size count w) (hsize : size * count ≤ 2 ^ 32)
    (hi : i < count) (hf : f.offset + f.size ≤ size) (hlast : lastWrite i writes = none) :
    f.get (putRecords a size s writes).mem (offset a (size * i)) = f.get s.mem (offset a (size * i)) := by
  induction writes generalizing s with
  | nil => rfl
  | cons w writes ih =>
    obtain ⟨hw, hrest⟩ := List.forall_mem_cons.mp h
    rw [lastWrite, Option.or_eq_none_iff, ite_eq_right_iff] at hlast
    have hne : w.1 ≠ i := fun hwi => Option.some_ne_none _ (hlast.2 hwi)
    exact (ih hrest hlast.1).trans (get_putRecord_other hw hsize hi hf hne)

theorem get_putRecords_some {v : ℕ} (h : ∀ w ∈ writes, Fit size count w) (hsize : size * count ≤ 2 ^ 32)
    (hi : i < count) (hlast : lastWrite i writes = some r) (hv : (f, v) ∈ r) :
    f.get (putRecords a size s writes).mem (offset a (size * i)) = v % 2 ^ f.width := by
  induction writes generalizing s with
  | nil => exact absurd hlast (Option.some_ne_none r).symm
  | cons w writes ih =>
    obtain ⟨hw, hrest⟩ := List.forall_mem_cons.mp h
    cases hnext : lastWrite i writes with
    | some r' =>
      rw [lastWrite, hnext, Option.some_or] at hlast
      exact ih hrest (hnext.trans hlast)
    | none =>
      rw [lastWrite, hnext, Option.none_or, Option.ite_none_right_eq_some, Option.some.injEq] at hlast
      obtain ⟨rfl, rfl⟩ := hlast
      have hf : f.offset + f.size ≤ size := hw.layout.2 f (List.mem_map.mpr ⟨_, hv, rfl⟩)
      have hle : size * (w.1 + 1) ≤ size * count := Nat.mul_le_mul_left size hi
      rw [Nat.mul_add_one] at hle
      have hkeep := get_putRecords_none (a := a) (s := putRecord a size s w) hrest hsize hi hf hnext
      exact hkeep.trans (get_putAll hw.layout (by omega) hv)

end Library.Tables
