import Mathlib.Data.List.TakeWhile
import MinOS.Fonts
import MinOS.Library.Texts

namespace MinOS

open Library.Rasters Library.Texts

namespace Graphics

def pixel (g : Graphics) (fb : FrameBuffer) (X Y : ℕ) : PixFormat := fb (g.dotIndex (.ofNat 32 X) (.ofNat 32 Y))

def OnScreen (g : Graphics) (X Y : ℕ) : Prop := X < g.xAxis.toNat ∧ Y < g.yAxis.toNat

def Sound (g : Graphics) : Prop :=
  Set.InjOn (fun p : BitVec 32 × BitVec 32 => g.dotIndex p.1 p.2) g.logicalScreen

def cellDots (g : Graphics) (ulX ulY : BitVec 32) (b : ℕ × ℕ → Bool) : Set ℕ :=
  {a | ∃ i ∈ List.range 16, ∃ j ∈ List.range 8, b (i, j) = true ∧
    a ∈ g.dots (ulX + .ofNat 32 j) (ulY + .ofNat 32 i)}

def textPixel (fonts : ℤ → BitVec 8) (x y : ℕ) (color bcolor : PixFormat) (text : List (BitVec 8))
    (X Y : ℕ) (old : PixFormat) : PixFormat :=
  if x ≤ X ∧ y ≤ Y ∧ Y < y + 16 then
    match text[(X - x) / 8]? with
    | some c => if inkAt fonts c (Y - y, (X - x) % 8) then color else bcolor
    | none => old
  else old

variable {g : Graphics} {fonts : ℤ → BitVec 8} {fb : FrameBuffer} {ulX ulY : BitVec 32} {X Y x y n : ℕ}
  {color bcolor : PixFormat} {c : BitVec 8} {s text : List (BitVec 8)} {vinfo : VideoInfo}
  {b : ℕ × ℕ → Bool} {a : ℕ}

theorem sound_initGraphics (hpitch : vinfo.xAxis ≤ vinfo.ppsl)
    (hsize : vinfo.ppsl.toNat * vinfo.yAxis.toNat < 2 ^ 32) : (initGraphics vinfo).Sound :=
  (dotIndex_bijOn hpitch hsize).injOn

theorem mem_dots (hs : g.Sound) (hon : g.OnScreen X Y) (x y : BitVec 32) :
    g.dotIndex (.ofNat 32 X) (.ofNat 32 Y) ∈ g.dots x y ↔ x.toNat = X ∧ y.toNat = Y := by
  obtain ⟨hX, hY⟩ := hon
  have hx := g.xAxis.isLt
  have hy := g.yAxis.isLt
  have hscreen : (BitVec.ofNat 32 X, BitVec.ofNat 32 Y) ∈ g.logicalScreen := by
    constructor
    · rw [BitVec.lt_def, BitVec.toNat_ofNat, Nat.mod_eq_of_lt (by omega)]
      exact hX
    · rw [BitVec.lt_def, BitVec.toNat_ofNat, Nat.mod_eq_of_lt (by omega)]
      exact hY
  constructor
  · rintro ⟨hin, heq⟩
    obtain ⟨rfl, rfl⟩ := Prod.mk.inj (hs hscreen hin heq)
    exact ⟨Nat.mod_eq_of_lt (by omega), Nat.mod_eq_of_lt (by omega)⟩
  · rintro ⟨rfl, rfl⟩
    rw [BitVec.ofNat_toNat, BitVec.ofNat_toNat, BitVec.setWidth_eq, BitVec.setWidth_eq] at hscreen ⊢
    exact ⟨hscreen, rfl⟩

theorem mem_cellDots (hs : g.Sound) (hon : g.OnScreen X Y) (hx : ulX.toNat + 8 ≤ 2 ^ 32)
    (hy : ulY.toNat + 16 ≤ 2 ^ 32) : g.dotIndex (.ofNat 32 X) (.ofNat 32 Y) ∈ g.cellDots ulX ulY b ↔
      (ulX.toNat ≤ X ∧ X < ulX.toNat + 8 ∧ ulY.toNat ≤ Y ∧ Y < ulY.toNat + 16) ∧
        b (Y - ulY.toNat, X - ulX.toNat) = true := by
  constructor
  · rintro ⟨i, hi, j, hj, hb, hdot⟩
    rw [List.mem_range] at hi hj
    obtain ⟨hcol, hrow⟩ := (mem_dots hs hon _ _).mp hdot
    have hXj : X = ulX.toNat + j := by bv_omega
    have hYi : Y = ulY.toNat + i := by bv_omega
    subst hXj hYi
    rw [Nat.add_sub_cancel_left, Nat.add_sub_cancel_left]
    exact ⟨⟨by omega, by omega, by omega, by omega⟩, hb⟩
  · rintro ⟨⟨hX, hX', hY, hY'⟩, hb⟩
    refine ⟨Y - ulY.toNat, List.mem_range.mpr (by omega), X - ulX.toNat, List.mem_range.mpr (by omega), hb,
      (mem_dots hs hon _ _).mpr ⟨by bv_omega, by bv_omega⟩⟩

theorem printchar_eq_paint : g.printchar fonts ulX ulY color bcolor c fb =
    paint (g.cellDots ulX ulY (inkAt fonts c)) color
      (paint (g.cellDots ulX ulY (fun _ => true)) bcolor fb) := by
  have hink : ∀ (fb : FrameBuffer) (i j : ℕ), (if (fonts (glyphIndex c i)).getLsbD (7 - j) then
      g.drawDot (ulX + .ofNat 32 j) (ulY + .ofNat 32 i) color fb else fb) =
      paint {a | inkAt fonts c (i, j) = true ∧ a ∈ g.dots (ulX + .ofNat 32 j) (ulY + .ofNat 32 i)}
        color fb := by
    intro fb i j
    have hrow : (fonts (glyphIndex c i)).getLsbD (7 - j) = inkAt fonts c (i, j) := rfl
    rw [hrow]
    by_cases hbit : inkAt fonts c (i, j) = true
    · rw [if_pos hbit, drawDot_eq_paint]
      simp only [hbit, true_and]
      rfl
    · rw [if_neg hbit]
      have hnone : {a | inkAt fonts c (i, j) = true ∧
          a ∈ g.dots (ulX + .ofNat 32 j) (ulY + .ofNat 32 i)} = ∅ := by
        ext a
        exact iff_of_false (fun h => hbit h.1) (Set.notMem_empty a)
      rw [hnone, paint_empty]
  rw [printchar]
  simp only [hink]
  simp only [drawDot_eq_paint, foldl_paint, cellDots, true_and]
  rfl

theorem pixel_printchar (hs : g.Sound) (hon : g.OnScreen X Y) (hx : ulX.toNat + 8 ≤ 2 ^ 32)
    (hy : ulY.toNat + 16 ≤ 2 ^ 32) : g.pixel (g.printchar fonts ulX ulY color bcolor c fb) X Y =
      if ulX.toNat ≤ X ∧ X < ulX.toNat + 8 ∧ ulY.toNat ≤ Y ∧ Y < ulY.toNat + 16 then
        if inkAt fonts c (Y - ulY.toNat, X - ulX.toNat) then color else bcolor
      else g.pixel fb X Y := by
  rw [pixel, printchar_eq_paint]
  by_cases hcell : ulX.toNat ≤ X ∧ X < ulX.toNat + 8 ∧ ulY.toNat ≤ Y ∧ Y < ulY.toNat + 16
  · rw [if_pos hcell]
    by_cases hink : inkAt fonts c (Y - ulY.toNat, X - ulX.toNat) = true
    · rw [if_pos hink, paint_mem ((mem_cellDots hs hon hx hy).mpr ⟨hcell, hink⟩)]
    · rw [if_neg hink, paint_notMem (fun h => hink ((mem_cellDots hs hon hx hy).mp h).2),
        paint_mem ((mem_cellDots hs hon hx hy).mpr ⟨hcell, rfl⟩)]
  · rw [if_neg hcell, paint_notMem (fun h => hcell ((mem_cellDots hs hon hx hy).mp h).1),
      paint_notMem (fun h => hcell ((mem_cellDots hs hon hx hy).mp h).1)]
    rfl

theorem printchar_other (ha : ∀ p ∈ g.logicalScreen, a ≠ g.dotIndex p.1 p.2) :
    g.printchar fonts ulX ulY color bcolor c fb a = fb a := by
  have hnot : ∀ b, a ∉ g.cellDots ulX ulY b := by
    rintro b ⟨i, -, j, -, -, hin, heq⟩
    exact ha _ hin heq
  rw [printchar_eq_paint, paint_notMem (hnot _), paint_notMem (hnot _)]

theorem printstr_snoc (h : c ≠ 0) (hs : 0 ∉ s) : g.printstr fonts ulX ulY color bcolor (s ++ [c]) fb =
    g.printchar fonts (ulX + .ofNat 32 (s.length * 8)) ulY color bcolor c
      (g.printstr fonts ulX ulY color bcolor s fb) := by
  have hall : ∀ t : List (BitVec 8), 0 ∉ t → t.takeWhile (fun c => decide (c ≠ 0)) = t := by
    intro t ht
    refine List.takeWhile_eq_self_iff.mpr (fun d hd => decide_eq_true ?_)
    rintro rfl
    exact ht hd
  have hsnoc : 0 ∉ s ++ [c] := by
    rw [List.mem_append, List.mem_singleton]
    rintro (h0 | h0)
    · exact hs h0
    · exact h h0.symm
  rw [printstr, printstr, hall _ hsnoc, hall _ hs, List.zipIdx_append, List.foldl_append]
  simp

theorem pixel_printstr (hs : g.Sound) (hon : g.OnScreen X Y) (htext : 0 ∉ text)
    (hx : ulX.toNat + 8 * text.length ≤ 2 ^ 32) (hy : ulY.toNat + 16 ≤ 2 ^ 32) :
    g.pixel (g.printstr fonts ulX ulY color bcolor text fb) X Y =
      textPixel fonts ulX.toNat ulY.toNat color bcolor text X Y (g.pixel fb X Y) := by
  induction text using List.reverseRecOn with
  | nil => simp [printstr, textPixel]
  | append_singleton text c ih =>
    rw [List.mem_append, List.mem_singleton, not_or] at htext
    rw [List.length_append, List.length_singleton] at hx
    have hcol : (ulX + .ofNat 32 (text.length * 8)).toNat = ulX.toNat + 8 * text.length := by bv_omega
    rw [printstr_snoc (Ne.symm htext.2) htext.1, pixel_printchar hs hon (by omega) hy, hcol,
      ih htext.1 (by omega), textPixel, textPixel]
    by_cases hcell : ulX.toNat + 8 * text.length ≤ X ∧ X < ulX.toNat + 8 * text.length + 8 ∧
        ulY.toNat ≤ Y ∧ Y < ulY.toNat + 16
    · have hindex : (X - ulX.toNat) / 8 = text.length := by omega
      have hrest : X - (ulX.toNat + 8 * text.length) = (X - ulX.toNat) % 8 := by omega
      have hrow : ulX.toNat ≤ X ∧ ulY.toNat ≤ Y ∧ Y < ulY.toNat + 16 := by omega
      have hlast : (text ++ [c])[text.length]? = some c := by simp
      rw [if_pos hcell, if_pos hrow, hindex, hrest, hlast]
    · rw [if_neg hcell]
      by_cases hrow : ulX.toNat ≤ X ∧ ulY.toNat ≤ Y ∧ Y < ulY.toNat + 16
      · rw [if_pos hrow, if_pos hrow]
        by_cases hbefore : (X - ulX.toNat) / 8 < text.length
        · rw [List.getElem?_append_left hbefore]
        · have hbehind : text.length + 1 ≤ (X - ulX.toNat) / 8 := by omega
          have hnone : text[(X - ulX.toNat) / 8]? = none := List.getElem?_eq_none (by omega)
          have hnone' : (text ++ [c])[(X - ulX.toNat) / 8]? = none := by
            apply List.getElem?_eq_none
            simpa using hbehind
          rw [hnone, hnone']
      · rw [if_neg hrow, if_neg hrow]

theorem printstr_other (ha : ∀ p ∈ g.logicalScreen, a ≠ g.dotIndex p.1 p.2) :
    g.printstr fonts ulX ulY color bcolor text fb a = fb a := by
  rw [printstr]
  generalize (text.takeWhile (fun c => decide (c ≠ 0))).zipIdx = cells
  induction cells generalizing fb with
  | nil => rfl
  | cons cell cells ih => rw [List.foldl_cons, ih, printchar_other ha]

section Lines

variable {len : ℕ} {other : List (BitVec 8)} {color' bcolor' : PixFormat} {ulX' ulY' : BitVec 32}

def cellPlace (x y k : ℕ) (p : ℕ × ℕ) : ℕ × ℕ := (x + 8 * k + p.2, y + p.1)

def ShowsLine (g : Graphics) (fonts : ℤ → BitVec 8) (fb : FrameBuffer) (x y : ℕ) (color bcolor : PixFormat)
    (text : List (BitVec 8)) : Prop :=
  Shows (fun p => g.pixel fb p.1 p.2) (cellPlace x y) cellPixels (inkAt fonts) color bcolor text

def readLine (g : Graphics) (fonts : ℤ → BitVec 8) (fb : FrameBuffer) (x y : ℕ) (color : PixFormat) (n : ℕ) :
    List (Option (BitVec 8)) :=
  readText (fun p => g.pixel fb p.1 p.2) (cellPlace x y) cellPixels (inkAt fonts) color printable n

def FitsLine (g : Graphics) (x y n : ℕ) : Prop := x + 8 * n ≤ g.xAxis.toNat ∧ y + 16 ≤ g.yAxis.toNat

def LinesApart (x y n x' y' n' : ℕ) : Prop :=
  x + 8 * n ≤ x' ∨ x' + 8 * n' ≤ x ∨ y + 16 ≤ y' ∨ y' + 16 ≤ y

theorem FitsLine.onScreen (h : g.FitsLine x y len) {k : ℕ} (hk : k < len) {p : ℕ × ℕ} (hp : p ∈ cellPixels) :
    g.OnScreen (cellPlace x y k p).1 (cellPlace x y k p).2 := by
  obtain ⟨hrow, hcol⟩ := mem_cellPixels.mp hp
  obtain ⟨hx, hy⟩ := h
  unfold OnScreen cellPlace
  omega

theorem ne_zero_of_printable (h : c ∈ printable) : c ≠ 0 := by
  obtain ⟨k, hk, rfl, -⟩ := mem_printable h
  have hlt : k < 95 := hk
  bv_omega

theorem zero_notMem (h : ∀ c ∈ text, c ∈ printable) : 0 ∉ text :=
  fun h0 => ne_zero_of_printable (h 0 h0) rfl

theorem textPixel_cell {k : ℕ} {p : ℕ × ℕ} (hc : text[k]? = some c) (hp : p ∈ cellPixels) (old : PixFormat) :
    textPixel fonts x y color bcolor text (cellPlace x y k p).1 (cellPlace x y k p).2 old =
      if inkAt fonts c p then color else bcolor := by
  obtain ⟨hrow, hcol⟩ := mem_cellPixels.mp hp
  have hindex : (x + 8 * k + p.2 - x) / 8 = k := by omega
  have hpixel : (y + p.1 - y, (x + 8 * k + p.2 - x) % 8) = p :=
    Prod.ext (by dsimp only; omega) (by dsimp only; omega)
  have hin : x ≤ x + 8 * k + p.2 ∧ y ≤ y + p.1 ∧ y + p.1 < y + 16 := by omega
  change textPixel fonts x y color bcolor text (x + 8 * k + p.2) (y + p.1) old = _
  rw [textPixel, if_pos hin, hindex, hc, hpixel]

theorem textPixel_outside (h : ¬ (x ≤ X ∧ X < x + 8 * text.length ∧ y ≤ Y ∧ Y < y + 16)) (old : PixFormat) :
    textPixel fonts x y color bcolor text X Y old = old := by
  rw [textPixel]
  by_cases hin : x ≤ X ∧ y ≤ Y ∧ Y < y + 16
  · have hnone : text[(X - x) / 8]? = none := by
      apply List.getElem?_eq_none
      omega
    rw [if_pos hin, hnone]
  · rw [if_neg hin]

theorem showsLine_printstr (hs : g.Sound) (htext : 0 ∉ text)
    (hfits : g.FitsLine ulX.toNat ulY.toNat text.length) (fb : FrameBuffer) :
    g.ShowsLine fonts (g.printstr fonts ulX ulY color bcolor text fb) ulX.toNat ulY.toNat color bcolor
      text := by
  have hwidth := g.xAxis.isLt
  have hheight := g.yAxis.isLt
  intro k c hc p hp
  have hk := (List.getElem?_eq_some_iff.mp hc).1
  have hon := hfits.onScreen hk hp
  obtain ⟨hx, hy⟩ := hfits
  exact (pixel_printstr hs hon htext (by omega) (by omega)).trans (textPixel_cell hc hp _)

theorem ShowsLine.printstr (h : g.ShowsLine fonts fb x y color bcolor text) (hs : g.Sound)
    (hfits : g.FitsLine x y text.length) (hother : 0 ∉ other)
    (hx : ulX'.toNat + 8 * other.length ≤ 2 ^ 32) (hy : ulY'.toNat + 16 ≤ 2 ^ 32)
    (hapart : LinesApart x y text.length ulX'.toNat ulY'.toNat other.length) :
    g.ShowsLine fonts (g.printstr fonts ulX' ulY' color' bcolor' other fb) x y color bcolor text := by
  refine h.congr (fun k hk p hp => ?_)
  obtain ⟨hrow, hcol⟩ := mem_cellPixels.mp hp
  refine (pixel_printstr hs (hfits.onScreen hk hp) hother hx hy).trans (textPixel_outside ?_ _)
  unfold LinesApart at hapart
  dsimp only [cellPlace]
  omega

theorem ShowsLine.readLine (h : g.ShowsLine fonts fb x y color bcolor text) (hf : HasFonts fonts)
    (hne : color ≠ bcolor) (htext : ∀ c ∈ text, c ∈ printable) :
    g.readLine fonts fb x y color text.length = text.map some :=
  h.read hne htext (fun _ hc _ hc' heq => eq_of_inkAt hf hc hc' heq)

/-- A string that was printed on the screen can be read from it, and nothing besides its cells has
changed. -/
theorem printstr_reads_back (hpitch : vinfo.xAxis ≤ vinfo.ppsl)
    (hsize : vinfo.ppsl.toNat * vinfo.yAxis.toNat < 2 ^ 32) (hf : HasFonts fonts) (hne : color ≠ bcolor)
    (htext : ∀ c ∈ text, c ∈ printable)
    (hfits : (initGraphics vinfo).FitsLine ulX.toNat ulY.toNat text.length) (fb : FrameBuffer) :
    let g := initGraphics vinfo
    let fb' := g.printstr fonts ulX ulY color bcolor text fb
    g.readLine fonts fb' ulX.toNat ulY.toNat color text.length = text.map some ∧
      (∀ X Y, g.OnScreen X Y → ¬ (ulX.toNat ≤ X ∧ X < ulX.toNat + 8 * text.length ∧
        ulY.toNat ≤ Y ∧ Y < ulY.toNat + 16) → g.pixel fb' X Y = g.pixel fb X Y) ∧
      ∀ a, (∀ p ∈ g.logicalScreen, a ≠ g.dotIndex p.1 p.2) → fb' a = fb a := by
  intro g fb'
  have hs := sound_initGraphics hpitch hsize
  have hwidth := g.xAxis.isLt
  have hheight := g.yAxis.isLt
  obtain ⟨hx, hy⟩ := id hfits
  refine ⟨(showsLine_printstr hs (zero_notMem htext) hfits fb).readLine hf hne htext,
    fun X Y hon hout => ?_, fun a ha => printstr_other ha⟩
  exact (pixel_printstr hs hon (zero_notMem htext) (by omega) (by omega)).trans (textPixel_outside hout _)

def fontsArray : ℤ → BitVec 8 := fun k => glyphRow (glyphs.getD (k.toNat / 16) 0) (k.toNat % 16)

theorem fontsArray_hasFonts : HasFonts fontsArray := by
  intro k i hk hi
  have hindex : ((k : ℤ) * 16 + i).toNat = 16 * k + i := by omega
  have hquot : (16 * k + i) / 16 = k := by omega
  have hrem : (16 * k + i) % 16 = i := by omega
  rw [fontsArray, hindex, hquot, hrem, List.getD_eq_getElem?_getD, List.getElem?_eq_getElem hk,
    Option.getD_some]

theorem printstr_reads_back_ok : (initGraphics landscape).readLine fontsArray
    ((initGraphics landscape).printstr fontsArray 0 0 black white [0x6f, 0x6b] (fun _ => white)) 0 0 black 2 =
      [some 0x6f, some 0x6b] :=
  (printstr_reads_back (by decide) (by decide) fontsArray_hasFonts (by decide) (by decide)
    (by unfold FitsLine; decide) _).1

end Lines

end Graphics

end MinOS
