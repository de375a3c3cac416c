import Mathlib.Algebra.Ring.Nat
import Mathlib.Data.Set.Function

namespace Library.Rasters

section Screens

def screen (width height : ℕ) : Set (ℕ × ℕ) := {p | p.1 < width ∧ p.2 < height}

def cell (pitch : ℕ) (p : ℕ × ℕ) : ℕ := p.1 + p.2 * pitch

def visible (pitch width height : ℕ) : Set ℕ := cell pitch '' screen width height

def turn (height : ℕ) (p : ℕ × ℕ) : ℕ × ℕ := (height - p.2 - 1, p.1)

variable {pitch width height i : ℕ} {p : ℕ × ℕ}

theorem cell_lt (hp : p ∈ screen width height) (hw : width ≤ pitch) : cell pitch p < pitch * height := by
  obtain ⟨hcol, hrow⟩ := hp
  have hrows : pitch * (p.2 + 1) ≤ pitch * height := Nat.mul_le_mul_left pitch hrow
  rw [Nat.mul_add_one] at hrows
  rw [cell, Nat.mul_comm]
  omega

theorem cell_mod (hp : p.1 < pitch) : cell pitch p % pitch = p.1 := by
  rw [cell, Nat.add_mul_mod_self_right, Nat.mod_eq_of_lt hp]

theorem cell_div (hp : p.1 < pitch) : cell pitch p / pitch = p.2 := by
  rw [cell, Nat.add_mul_div_right _ _ (by omega), Nat.div_eq_of_lt hp, Nat.zero_add]

theorem cell_bijOn (hw : width ≤ pitch) :
    Set.BijOn (cell pitch) (screen width height) (visible pitch width height) := by
  refine Set.InjOn.bijOn_image ?_
  intro p hp q hq heq
  have hpcol := Nat.lt_of_lt_of_le hp.1 hw
  have hqcol := Nat.lt_of_lt_of_le hq.1 hw
  apply Prod.ext
  · rw [← cell_mod hpcol, heq, cell_mod hqcol]
  · rw [← cell_div hpcol, heq, cell_div hqcol]

theorem lt_of_mem_visible (hw : width ≤ pitch) (hi : i ∈ visible pitch width height) :
    i < pitch * height := by
  obtain ⟨p, hp, rfl⟩ := hi
  exact cell_lt hp hw

theorem turn_bijOn : Set.BijOn (turn height) (screen width height) (screen height width) := by
  refine ⟨?_, ?_, ?_⟩
  · rintro p ⟨hcol, hrow⟩
    exact ⟨by simp only [turn]; omega, hcol⟩
  · rintro p ⟨-, hp⟩ q ⟨-, hq⟩ heq
    obtain ⟨hrow, hcol⟩ := Prod.mk.inj heq
    exact Prod.ext hcol (by omega)
  · rintro q ⟨hcol, hrow⟩
    refine ⟨(q.2, height - q.1 - 1), ⟨hrow, by simp only; omega⟩, Prod.ext ?_ rfl⟩
    simp only [turn]
    omega

end Screens

section Painting

variable {ι α β : Type*} {s t : Set α} {c : β} {f : α → β}

open Classical in
noncomputable def paint (s : Set α) (c : β) (f : α → β) : α → β := fun a => if a ∈ s then c else f a

theorem paint_mem {a : α} (ha : a ∈ s) : paint s c f a = c := if_pos ha

theorem paint_notMem {a : α} (ha : a ∉ s) : paint s c f a = f a := if_neg ha

@[simp] theorem paint_empty : paint ∅ c f = f := by
  funext a
  exact paint_notMem (Set.notMem_empty a)

theorem paint_paint : paint s c (paint t c f) = paint (s ∪ t) c f := by
  funext a
  by_cases hs : a ∈ s
  · rw [paint_mem hs, paint_mem (.inl hs)]
  · by_cases ht : a ∈ t
    · rw [paint_notMem hs, paint_mem ht, paint_mem (.inr ht)]
    · have hunion : a ∉ s ∪ t := fun h => h.elim hs ht
      rw [paint_notMem hs, paint_notMem ht, paint_notMem hunion]

theorem update_eq_paint [DecidableEq α] (a : α) : Function.update f a c = paint {a} c f := by
  funext b
  by_cases hb : b = a
  · rw [hb, Function.update_self, paint_mem (Set.mem_singleton a)]
  · have hnot : b ∉ ({a} : Set α) := hb
    rw [Function.update_of_ne hb, paint_notMem hnot]

theorem foldl_paint (l : List ι) (s : ι → Set α) (f : α → β) :
    l.foldl (fun f i => paint (s i) c f) f = paint {a | ∃ i ∈ l, a ∈ s i} c f := by
  induction l generalizing f with
  | nil => simp
  | cons i l ih =>
    rw [List.foldl_cons, ih, paint_paint]
    congr 1
    ext a
    simp [or_comm]

theorem paint_inj [Nontrivial β] : (∀ c (f : α → β), paint s c f = paint t c f) ↔ s = t := by
  constructor
  · intro h
    obtain ⟨c, d, hne⟩ := exists_pair_ne β
    have hpaint := fun a => congrFun (h c (fun _ => d)) a
    ext a
    constructor
    · intro ha
      by_contra hnot
      have heq := hpaint a
      rw [paint_mem ha, paint_notMem hnot] at heq
      exact hne heq
    · intro ha
      by_contra hnot
      have heq := hpaint a
      rw [paint_mem ha, paint_notMem hnot] at heq
      exact hne heq.symm
  · rintro rfl c f
    rfl

end Painting

end Library.Rasters
