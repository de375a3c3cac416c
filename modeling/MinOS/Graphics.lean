import MinOS.Library.Rasters

namespace MinOS

open Library.Rasters

structure PixFormat where
  blue : BitVec 8
  green : BitVec 8
  red : BitVec 8
  rsvd : BitVec 8
deriving DecidableEq

def black : PixFormat := ⟨0x00, 0x00, 0x00, 0x00⟩
def white : PixFormat := ⟨0xff, 0xff, 0xff, 0x00⟩
def green : PixFormat := ⟨0x00, 0xff, 0x00, 0x00⟩

structure VideoInfo where
  fb : BitVec 64
  fbSize : BitVec 64
  xAxis : BitVec 32
  yAxis : BitVec 32
  ppsl : BitVec 32

structure Graphics where
  vinfoG : VideoInfo
  gpd : Bool

def initGraphics (vinfo : VideoInfo) : Graphics :=
  if vinfo.xAxis < vinfo.yAxis then
    ⟨{ vinfo with xAxis := vinfo.yAxis, yAxis := vinfo.xAxis }, true⟩
  else ⟨vinfo, false⟩

abbrev FrameBuffer := ℕ → PixFormat

namespace Graphics

def xAxis (g : Graphics) : BitVec 32 := g.vinfoG.xAxis

def yAxis (g : Graphics) : BitVec 32 := g.vinfoG.yAxis

def ppsl (g : Graphics) : BitVec 32 := g.vinfoG.ppsl

def dotIndex (g : Graphics) (x y : BitVec 32) : ℕ :=
  let xC := if g.gpd then g.yAxis - y - 1 else x
  let yC := if g.gpd then x else y
  (xC + yC * g.ppsl).toNat

def drawDot (g : Graphics) (x y : BitVec 32) (color : PixFormat) (fb : FrameBuffer) : FrameBuffer :=
  if ¬ x < g.xAxis ∨ ¬ y < g.yAxis then fb else Function.update fb (g.dotIndex x y) color

def drawSquare (g : Graphics) (ulX ulY xLen yLen : BitVec 32) (color : PixFormat) (fb : FrameBuffer) :
    FrameBuffer :=
  if ¬ ulX + xLen < g.xAxis ∨ ¬ ulY + yLen < g.yAxis then fb
  else (List.range yLen.toNat).foldl (fun fb i => (List.range xLen.toNat).foldl
    (fun fb j => g.drawDot (ulX + .ofNat 32 j) (ulY + .ofNat 32 i) color fb) fb) fb

def logicalScreen (g : Graphics) : Set (BitVec 32 × BitVec 32) := {p | p.1 < g.xAxis ∧ p.2 < g.yAxis}

def dots (g : Graphics) (x y : BitVec 32) : Set ℕ :=
  {a | (x, y) ∈ g.logicalScreen ∧ a = g.dotIndex x y}

variable {g : Graphics} {x y : BitVec 32} {color : PixFormat} {fb : FrameBuffer} {vinfo : VideoInfo}

theorem drawDot_outside (h : (x, y) ∉ g.logicalScreen) : g.drawDot x y color fb = fb :=
  if_pos (not_and_or.mp h)

theorem drawDot_inside (h : (x, y) ∈ g.logicalScreen) :
    g.drawDot x y color fb = Function.update fb (g.dotIndex x y) color :=
  if_neg (fun hnot => not_and_or.mpr hnot h)

theorem drawDot_eq_paint : g.drawDot x y color fb = paint (g.dots x y) color fb := by
  by_cases h : (x, y) ∈ g.logicalScreen
  · have hdots : g.dots x y = {g.dotIndex x y} := by
      ext a
      simp [dots, h]
    rw [drawDot_inside h, hdots, update_eq_paint]
  · have hdots : g.dots x y = ∅ := by
      ext a
      simp [dots, h]
    rw [drawDot_outside h, hdots, paint_empty]

section Modes

theorem toNats_bijOn (g : Graphics) : Set.BijOn (fun p : BitVec 32 × BitVec 32 => (p.1.toNat, p.2.toNat))
    g.logicalScreen (screen g.xAxis.toNat g.yAxis.toNat) := by
  refine ⟨?_, ?_, ?_⟩
  · rintro p ⟨hx, hy⟩
    exact ⟨BitVec.lt_def.mp hx, BitVec.lt_def.mp hy⟩
  · rintro p - q - heq
    obtain ⟨hx, hy⟩ := Prod.mk.inj heq
    exact Prod.ext (BitVec.toNat_inj.mp hx) (BitVec.toNat_inj.mp hy)
  · rintro ⟨m, n⟩ ⟨hm, hn⟩
    have hm' : m < 2 ^ 32 := Nat.lt_trans hm g.xAxis.isLt
    have hn' : n < 2 ^ 32 := Nat.lt_trans hn g.yAxis.isLt
    refine ⟨(.ofNat 32 m, .ofNat 32 n), ⟨?_, ?_⟩, ?_⟩
    · rwa [BitVec.lt_def, BitVec.toNat_ofNat, Nat.mod_eq_of_lt hm']
    · rwa [BitVec.lt_def, BitVec.toNat_ofNat, Nat.mod_eq_of_lt hn']
    · simp only [BitVec.toNat_ofNat, Nat.mod_eq_of_lt hm', Nat.mod_eq_of_lt hn']

theorem dotIndex_landscape {p : BitVec 32 × BitVec 32} (hgpd : g.gpd = false)
    (hpitch : g.xAxis ≤ g.ppsl) (hsize : g.ppsl.toNat * g.yAxis.toNat < 2 ^ 32)
    (hp : p ∈ g.logicalScreen) :
    g.dotIndex p.1 p.2 = cell g.ppsl.toNat (p.1.toNat, p.2.toNat) := by
  have hlt := cell_lt (g.toNats_bijOn.mapsTo hp) (BitVec.le_def.mp hpitch)
  simp only [cell] at hlt ⊢
  rw [dotIndex, hgpd]
  simp only [Bool.false_eq_true, if_false, BitVec.toNat_add, BitVec.toNat_mul]
  rw [Nat.add_mod_mod, Nat.mod_eq_of_lt (by omega)]

theorem dotIndex_portrait {p : BitVec 32 × BitVec 32} (hgpd : g.gpd = true)
    (hpitch : g.yAxis ≤ g.ppsl) (hsize : g.ppsl.toNat * g.xAxis.toNat < 2 ^ 32)
    (hp : p ∈ g.logicalScreen) :
    g.dotIndex p.1 p.2 = cell g.ppsl.toNat (turn g.yAxis.toNat (p.1.toNat, p.2.toNat)) := by
  have hturn := turn_bijOn.mapsTo (g.toNats_bijOn.mapsTo hp)
  have hlt := cell_lt hturn (BitVec.le_def.mp hpitch)
  have hrow : p.2 < g.yAxis := hp.2
  have hcol : (g.yAxis - p.2 - 1).toNat = g.yAxis.toNat - p.2.toNat - 1 := by bv_omega
  simp only [cell, turn] at hlt ⊢
  rw [dotIndex, hgpd]
  simp only [if_true, BitVec.toNat_add, BitVec.toNat_mul, hcol]
  rw [Nat.add_mod_mod, Nat.mod_eq_of_lt (by omega)]

/-- In each mode the dots of the screen are the visible pixels, one to one. -/
theorem dotIndex_bijOn (hpitch : vinfo.xAxis ≤ vinfo.ppsl)
    (hsize : vinfo.ppsl.toNat * vinfo.yAxis.toNat < 2 ^ 32) :
    Set.BijOn (fun p : BitVec 32 × BitVec 32 => (initGraphics vinfo).dotIndex p.1 p.2)
      (initGraphics vinfo).logicalScreen
      (visible vinfo.ppsl.toNat vinfo.xAxis.toNat vinfo.yAxis.toNat) := by
  have hle := BitVec.le_def.mp hpitch
  rw [initGraphics]
  split_ifs
  · refine ((cell_bijOn hle).comp (turn_bijOn.comp (toNats_bijOn _))).congr ?_
    intro p hp
    exact (dotIndex_portrait (g := ⟨{ vinfo with xAxis := vinfo.yAxis, yAxis := vinfo.xAxis }, true⟩)
      rfl hpitch hsize hp).symm
  · refine ((cell_bijOn hle).comp (toNats_bijOn _)).congr ?_
    intro p hp
    exact (dotIndex_landscape (g := ⟨_, false⟩) rfl hpitch hsize hp).symm

theorem drawDot_bijective (hpitch : vinfo.xAxis ≤ vinfo.ppsl)
    (hsize : vinfo.ppsl.toNat * vinfo.yAxis.toNat < 2 ^ 32) :
    let g := initGraphics vinfo
    let pixels := visible vinfo.ppsl.toNat vinfo.xAxis.toNat vinfo.yAxis.toNat
    (∀ x y color fb, ((x, y) ∉ g.logicalScreen → g.drawDot x y color fb = fb) ∧
      ((x, y) ∈ g.logicalScreen → g.drawDot x y color fb = Function.update fb (g.dotIndex x y) color)) ∧
    Set.BijOn (fun p : BitVec 32 × BitVec 32 => g.dotIndex p.1 p.2) g.logicalScreen pixels ∧
    ∀ i ∈ pixels, i < vinfo.ppsl.toNat * vinfo.yAxis.toNat := by
  intro g pixels
  refine ⟨fun x y color fb => ⟨drawDot_outside, drawDot_inside⟩, dotIndex_bijOn hpitch hsize, ?_⟩
  intro i hi
  exact lt_of_mem_visible (BitVec.le_def.mp hpitch) hi

def landscape : VideoInfo := ⟨0x80000000, 8294400, 1920, 1080, 1920⟩

def portrait : VideoInfo := ⟨0x80000000, 3686400, 720, 1280, 720⟩

theorem drawDot_bijective_portrait :
    Set.BijOn (fun p : BitVec 32 × BitVec 32 => (initGraphics portrait).dotIndex p.1 p.2)
      (initGraphics portrait).logicalScreen (visible 720 720 1280) := by
  have hpitch : portrait.xAxis ≤ portrait.ppsl := by decide
  exact (drawDot_bijective hpitch (by decide)).2.1

end Modes

section Squares

variable {ulX ulY xLen yLen ul len axis : BitVec 32}

def Fits (g : Graphics) (ulX ulY xLen yLen : BitVec 32) : Prop :=
  ulX.toNat + xLen.toNat ≤ g.xAxis.toNat ∧ ulY.toNat + yLen.toNat ≤ g.yAxis.toNat

def Passes (g : Graphics) (ulX ulY xLen yLen : BitVec 32) : Prop :=
  ulX + xLen < g.xAxis ∧ ulY + yLen < g.yAxis

/-- One of the coordinates from `ul` on is less than `axis`: the first one, or the 0 behind the last
32-bit number. -/
def Meets (ul len axis : BitVec 32) : Prop := ul < axis ∨ 2 ^ 32 < ul.toNat + len.toNat

def square (g : Graphics) (ulX ulY xLen yLen : BitVec 32) : Set ℕ :=
  {a | ∃ x y : BitVec 32, (ulX.toNat ≤ x.toNat ∧ x.toNat < ulX.toNat + xLen.toNat) ∧
    (ulY.toNat ≤ y.toNat ∧ y.toNat < ulY.toNat + yLen.toNat) ∧ a = g.dotIndex x y}

def DrawsSquare (g : Graphics) (ulX ulY xLen yLen : BitVec 32) : Prop :=
  ∀ color fb, g.drawSquare ulX ulY xLen yLen color fb =
    paint {a | g.Fits ulX ulY xLen yLen ∧ a ∈ g.square ulX ulY xLen yLen} color fb

def painted (g : Graphics) (ulX ulY xLen yLen : BitVec 32) : Set ℕ :=
  {a | ∃ i ∈ List.range yLen.toNat, ∃ j ∈ List.range xLen.toNat,
    a ∈ g.dots (ulX + .ofNat 32 j) (ulY + .ofNat 32 i)}

theorem drawSquare_eq_paint : g.drawSquare ulX ulY xLen yLen color fb =
    paint {a | g.Passes ulX ulY xLen yLen ∧ a ∈ g.painted ulX ulY xLen yLen} color fb := by
  rw [drawSquare]
  by_cases h : g.Passes ulX ulY xLen yLen
  · rw [if_neg (fun hnot => not_and_or.mpr hnot h)]
    simp only [drawDot_eq_paint, foldl_paint, h, true_and]
    rfl
  · rw [if_pos (not_and_or.mp h)]
    simp only [h, false_and]
    exact paint_empty.symm

instance : Nontrivial PixFormat := ⟨black, white, by decide⟩

theorem drawsSquare_iff_eq : g.DrawsSquare ulX ulY xLen yLen ↔
    {a | g.Passes ulX ulY xLen yLen ∧ a ∈ g.painted ulX ulY xLen yLen} =
      {a | g.Fits ulX ulY xLen yLen ∧ a ∈ g.square ulX ulY xLen yLen} := by
  simp only [DrawsSquare, drawSquare_eq_paint, paint_inj]

theorem meets_iff (haxis : 0 < axis) : (∃ j ∈ List.range len.toNat, ul + .ofNat 32 j < axis) ↔
    len ≠ 0 ∧ Meets ul len axis := by
  simp only [List.mem_range, Meets]
  constructor
  · rintro ⟨j, hj, hlt⟩
    constructor
    · rintro rfl
      simp at hj
    · by_cases hwrap : 2 ^ 32 < ul.toNat + len.toNat
      · exact .inr hwrap
      · exact .inl (by bv_omega)
  · rintro ⟨hlen, hlt | hwrap⟩
    · exact ⟨0, by bv_omega, by simpa using hlt⟩
    · -- the number behind the last one is 0
      have hzero : ul + .ofNat 32 (2 ^ 32 - ul.toNat) = 0 := by bv_omega
      exact ⟨2 ^ 32 - ul.toNat, by omega, by rwa [hzero]⟩

theorem painted_nonempty_iff (h : g.Passes ulX ulY xLen yLen) : (g.painted ulX ulY xLen yLen).Nonempty ↔
    (xLen ≠ 0 ∧ Meets ulX xLen g.xAxis) ∧ yLen ≠ 0 ∧ Meets ulY yLen g.yAxis := by
  have hx : 0 < g.xAxis := by have := h.1; bv_omega
  have hy : 0 < g.yAxis := by have := h.2; bv_omega
  rw [← meets_iff hx, ← meets_iff hy]
  constructor
  · rintro ⟨a, i, hi, j, hj, ⟨hcol, hrow⟩, -⟩
    exact ⟨⟨j, hj, hcol⟩, i, hi, hrow⟩
  · rintro ⟨⟨j, hj, hcol⟩, i, hi, hrow⟩
    exact ⟨_, i, hi, j, hj, ⟨hcol, hrow⟩, rfl⟩

theorem painted_eq_square (h : g.Fits ulX ulY xLen yLen) :
    g.painted ulX ulY xLen yLen = g.square ulX ulY xLen yLen := by
  obtain ⟨hx, hy⟩ := h
  have hxlt := g.xAxis.isLt
  have hylt := g.yAxis.isLt
  ext a
  constructor
  · rintro ⟨i, hi, j, hj, -, rfl⟩
    rw [List.mem_range] at hi hj
    have hcol : (ulX + .ofNat 32 j).toNat = ulX.toNat + j := by bv_omega
    have hrow : (ulY + .ofNat 32 i).toNat = ulY.toNat + i := by bv_omega
    exact ⟨_, _, by omega, by omega, rfl⟩
  · rintro ⟨x, y, hcol, hrow, rfl⟩
    have hxeq : ulX + .ofNat 32 (x.toNat - ulX.toNat) = x := by bv_omega
    have hyeq : ulY + .ofNat 32 (y.toNat - ulY.toNat) = y := by bv_omega
    refine ⟨y.toNat - ulY.toNat, ?_, x.toNat - ulX.toNat, ?_, ?_⟩
    · rw [List.mem_range]
      omega
    · rw [List.mem_range]
      omega
    · rw [hxeq, hyeq]
      refine ⟨⟨?_, ?_⟩, rfl⟩
      · rw [BitVec.lt_def]
        dsimp only
        omega
      · rw [BitVec.lt_def]
        dsimp only
        omega

theorem square_nonempty_iff (h : g.Fits ulX ulY xLen yLen) :
    (g.square ulX ulY xLen yLen).Nonempty ↔ xLen ≠ 0 ∧ yLen ≠ 0 := by
  constructor
  · rintro ⟨a, x, y, hcol, hrow, -⟩
    exact ⟨by rintro rfl; simp at hcol; omega, by rintro rfl; simp at hrow; omega⟩
  · rintro ⟨hx, hy⟩
    exact ⟨_, ulX, ulY, by bv_omega, by bv_omega, rfl⟩

theorem drawsSquare_of_fits (h : g.Fits ulX ulY xLen yLen) (hx : xLen ≠ 0) (hy : yLen ≠ 0) :
    g.DrawsSquare ulX ulY xLen yLen ↔ g.Passes ulX ulY xLen yLen := by
  rw [drawsSquare_iff_eq, painted_eq_square h]
  simp only [h, true_and]
  constructor
  · intro heq
    obtain ⟨a, ha⟩ := (square_nonempty_iff h).mpr ⟨hx, hy⟩
    exact (heq.ge ha).1
  · intro hpasses
    simp only [hpasses, true_and]

theorem drawsSquare_of_not_fits (h : ¬ g.Fits ulX ulY xLen yLen) : g.DrawsSquare ulX ulY xLen yLen ↔
    ¬ (g.Passes ulX ulY xLen yLen ∧ (g.painted ulX ulY xLen yLen).Nonempty) := by
  rw [drawsSquare_iff_eq]
  simp only [h, false_and]
  constructor
  · rintro heq ⟨hpasses, a, ha⟩
    exact heq.le ⟨hpasses, ha⟩
  · intro hnone
    ext a
    exact iff_of_false (fun ha => hnone ⟨ha.1, a, ha.2⟩) not_false

theorem Fits.meets (h : g.Fits ulX ulY xLen yLen) (hx : xLen ≠ 0) (hy : yLen ≠ 0) :
    Meets ulX xLen g.xAxis ∧ Meets ulY yLen g.yAxis := by
  obtain ⟨hxle, hyle⟩ := h
  exact ⟨.inl (by bv_omega), .inl (by bv_omega)⟩

theorem drawsSquare_empty (h : xLen = 0 ∨ yLen = 0) : g.DrawsSquare ulX ulY xLen yLen := by
  have hnot : ¬ (xLen ≠ 0 ∧ yLen ≠ 0) := by simpa [or_iff_not_imp_left] using h
  rw [drawsSquare_iff_eq]
  ext a
  apply iff_of_false
  · rintro ⟨hpasses, ha⟩
    obtain ⟨⟨hx, -⟩, hy, -⟩ := (painted_nonempty_iff hpasses).mp ⟨a, ha⟩
    exact hnot ⟨hx, hy⟩
  · rintro ⟨hfits, ha⟩
    exact hnot ((square_nonempty_iff hfits).mp ⟨a, ha⟩)

/-- A square that touches the right or the lower edge is missing, and one whose sums wrap around is
drawn as far as it meets the screen. -/
theorem drawsSquare_iff : g.DrawsSquare ulX ulY xLen yLen ↔ xLen = 0 ∨ yLen = 0 ∨
    (g.Fits ulX ulY xLen yLen ↔
      g.Passes ulX ulY xLen yLen ∧ Meets ulX xLen g.xAxis ∧ Meets ulY yLen g.yAxis) := by
  by_cases hlen : xLen = 0 ∨ yLen = 0
  · rw [← or_assoc]
    exact iff_of_true (drawsSquare_empty hlen) (.inl hlen)
  · obtain ⟨hx, hy⟩ := not_or.mp hlen
    rw [or_iff_right hx, or_iff_right hy]
    by_cases hfits : g.Fits ulX ulY xLen yLen
    · rw [drawsSquare_of_fits hfits hx hy, iff_true_left hfits]
      exact (and_iff_left (hfits.meets hx hy)).symm
    · rw [drawsSquare_of_not_fits hfits, iff_false_left hfits]
      apply not_congr
      apply and_congr_right
      intro hpasses
      rw [painted_nonempty_iff hpasses, and_iff_right hx, and_iff_right hy]

theorem not_drawsSquare_whole :
    ¬ (initGraphics landscape).DrawsSquare 0 0 1920 1080 := by
  rw [drawsSquare_of_fits (by constructor <;> decide) (by decide) (by decide)]
  rintro ⟨hx, -⟩
  exact absurd hx (by decide)

end Squares

end Graphics

end MinOS
