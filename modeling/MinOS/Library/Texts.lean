import Mathlib.Data.List.Basic

namespace Library.Texts

variable {P Q C α : Type*}

/-- The pixels show the text: the cell `k` is at `place k`, and a character is `ink` on `paper`. -/
def Shows (f : P → C) (place : ℕ → Q → P) (pixels : List Q) (font : α → Q → Bool) (ink paper : C)
    (text : List α) : Prop :=
  ∀ k a, text[k]? = some a → ∀ q ∈ pixels, f (place k q) = if font a q then ink else paper

variable {f g : P → C} {place : ℕ → Q → P} {pixels : List Q} {font : α → Q → Bool} {ink paper : C}
  {alphabet text : List α}

theorem Shows.congr (h : Shows f place pixels font ink paper text)
    (heq : ∀ k < text.length, ∀ q ∈ pixels, g (place k q) = f (place k q)) :
    Shows g place pixels font ink paper text := by
  intro k a ha q hq
  have hk := (List.getElem?_eq_some_iff.mp ha).1
  rw [heq k hk q hq, h k a ha q hq]

section Read

variable [DecidableEq C]

def readCell (f : P → C) (place : Q → P) (pixels : List Q) (font : α → Q → Bool) (ink : C)
    (alphabet : List α) : Option α :=
  alphabet.find? (fun a => pixels.all (fun q => decide (f (place q) = ink) == font a q))

def readText (f : P → C) (place : ℕ → Q → P) (pixels : List Q) (font : α → Q → Bool) (ink : C)
    (alphabet : List α) (n : ℕ) : List (Option α) :=
  (List.range n).map (fun k => readCell f (place k) pixels font ink alphabet)

theorem readCell_eq {a : α} {cell : Q → P} (hne : ink ≠ paper) (ha : a ∈ alphabet)
    (hfont : ∀ a ∈ alphabet, ∀ b ∈ alphabet, (∀ q ∈ pixels, font a q = font b q) → a = b)
    (hcell : ∀ q ∈ pixels, f (cell q) = if font a q then ink else paper) :
    readCell f cell pixels font ink alphabet = some a := by
  have hink : ∀ q ∈ pixels, decide (f (cell q) = ink) = font a q := by
    intro q hq
    rw [hcell q hq]
    cases font a q with
    | true => simp
    | false => simpa using hne.symm
  have hmatch : ∀ b, (pixels.all (fun q => decide (f (cell q) = ink) == font b q)) = true ↔
      ∀ q ∈ pixels, font a q = font b q := by
    intro b
    rw [List.all_eq_true]
    refine forall₂_congr (fun q hq => ?_)
    rw [hink q hq, beq_iff_eq]
  obtain ⟨b, hb⟩ : ∃ b, readCell f cell pixels font ink alphabet = some b :=
    Option.isSome_iff_exists.mp (List.find?_isSome.mpr ⟨a, ha, (hmatch a).mpr (fun _ _ => rfl)⟩)
  have heq := (hmatch b).mp (List.find?_some (p := fun b => pixels.all
    (fun q => decide (f (cell q) = ink) == font b q)) hb)
  rw [hb, hfont a ha b (List.mem_of_find?_eq_some hb) heq]

theorem Shows.read (h : Shows f place pixels font ink paper text) (hne : ink ≠ paper)
    (htext : ∀ a ∈ text, a ∈ alphabet)
    (hfont : ∀ a ∈ alphabet, ∀ b ∈ alphabet, (∀ q ∈ pixels, font a q = font b q) → a = b) :
    readText f place pixels font ink alphabet text.length = text.map some := by
  apply List.ext_getElem (by simp [readText])
  intro k hk hk'
  have hlt : k < text.length := by simpa using hk'
  simp only [readText, List.getElem_map, List.getElem_range]
  exact readCell_eq hne (htext _ (List.getElem_mem hlt)) hfont
    (fun q hq => h k _ (List.getElem?_eq_getElem hlt) q hq)

end Read

end Library.Texts
