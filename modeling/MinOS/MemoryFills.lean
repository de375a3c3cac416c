import Mathlib.Data.List.GetD
import MinOS.Graphics
import MinOS.Library.Arrays

/-!
The loops that clear the section `.bss` and paint the whole screen. Their bounds are sizes in bytes.
-/

namespace MinOS

open Library.Words Library.Arrays

def initBss (bssStart bssEnd : Word) (m : Memory) : Memory :=
  let size := bssEnd - bssStart
  storeWords m bssStart (fun _ => 0) size.toNat

def PixFormat.bytes (p : PixFormat) : List (BitVec 8) := [p.blue, p.green, p.red, p.rsvd]

def Graphics.paintBackground (g : Graphics) (bgcolor : PixFormat) (m : Memory) : Memory :=
  fill m g.vinfoG.fb bgcolor.bytes g.vinfoG.fbSize.toNat

def VideoInfo.loaderFill (vinfo : VideoInfo) (m : Memory) : Memory :=
  storeWords m vinfo.fb (fun _ => 0xffffffff) vinfo.fbSize.toNat

section Bss

variable {bssStart bssEnd x : Word} {m : Memory}

def InBss (bssStart bssEnd x : Word) : Prop := bssStart ≤ x ∧ x < bssEnd

def ClearsBss (bssStart bssEnd : Word) (m : Memory) : Prop := ∀ x,
  (InBss bssStart bssEnd x → initBss bssStart bssEnd m x = 0) ∧
  (¬ InBss bssStart bssEnd x → initBss bssStart bssEnd m x = m x)

theorem initBss_mem (h : InRegion bssStart (8 * (bssEnd - bssStart).toNat) x) :
    initBss bssStart bssEnd m x = 0 := by
  have hzero : wordBytes 0 = List.replicate 8 0 := rfl
  rw [initBss, storeWords_const, fill_inside (by decide) h, hzero]
  exact List.getD_replicate _ (Nat.mod_lt _ (by decide))

theorem initBss_notMem (h : ¬ InRegion bssStart (8 * (bssEnd - bssStart).toNat) x) :
    initBss bssStart bssEnd m x = m x := by
  rw [initBss, storeWords_const, fill_outside (by decide) h]

/-- Eight times as many bytes are cleared, so these must be zero before. -/
theorem clearsBss_iff (hle : bssStart ≤ bssEnd) : ClearsBss bssStart bssEnd m ↔
    ∀ x, ¬ InBss bssStart bssEnd x → InRegion bssStart (8 * (bssEnd - bssStart).toNat) x → m x = 0 := by
  constructor
  · intro h x hout hin
    rw [← (h x).2 hout, initBss_mem hin]
  · intro h x
    constructor
    · intro hbss
      apply initBss_mem
      unfold InBss InRegion at *
      bv_omega
    · intro hout
      by_cases hin : InRegion bssStart (8 * (bssEnd - bssStart).toNat) x
      · rw [initBss_mem hin, h x hout hin]
      · exact initBss_notMem hin

theorem clearsBss_iff_filled :
    ClearsBss 0x110000 0x110010 (fun x => if 0x110000 ≤ x ∧ x < 0x110010 then 0xff else 0) :=
  (clearsBss_iff (by decide)).mpr (fun _ hout _ => if_neg hout)

/-- The byte behind a section of eight bytes is cleared as well. -/
theorem not_clearsBss : ¬ ClearsBss 0x110000 0x110008 (fun _ => 1) := by
  intro h
  have hbehind := (h 0x110008).2 (fun hin => absurd hin.2 (by decide))
  rw [initBss_mem (by decide)] at hbehind
  exact absurd hbehind (by decide)

end Bss

section Screens

def PaintsAll (vinfo : VideoInfo) (pixel : PixFormat) (paints : Memory → Memory) : Prop := ∀ m,
  (∀ i k, 4 * (i + 1) ≤ vinfo.fbSize.toNat → k < 4 →
    paints m (offset vinfo.fb (4 * i + k)) = pixel.bytes.getD k 0) ∧
  ∀ x, ¬ InRegion vinfo.fb vinfo.fbSize.toNat x → paints m x = m x

variable {vinfo : VideoInfo} {g : Graphics} {pixel color : PixFormat} {bs : List (BitVec 8)}

theorem fill_paintsAll_iff (hdvd : bs.length ∣ 2 ^ 64) (hlen : 2 ≤ bs.length) :
    PaintsAll vinfo pixel (fun m => fill m vinfo.fb bs vinfo.fbSize.toNat) ↔ vinfo.fbSize = 0 := by
  constructor
  · intro h
    by_contra hsize
    have hpos : 0 < vinfo.fbSize.toNat := by bv_omega
    have hlt := vinfo.fbSize.isLt
    -- the byte at the end of the frame buffer
    have hdist : (offset vinfo.fb vinfo.fbSize.toNat - vinfo.fb).toNat = vinfo.fbSize.toNat := by
      unfold offset
      bv_omega
    have hout : ¬ InRegion vinfo.fb vinfo.fbSize.toNat (offset vinfo.fb vinfo.fbSize.toNat) := by
      rw [InRegion, hdist]
      exact lt_irrefl _
    have hin : InRegion vinfo.fb (bs.length * vinfo.fbSize.toNat) (offset vinfo.fb vinfo.fbSize.toNat) := by
      rw [InRegion, hdist]
      have hmul := Nat.mul_le_mul_right vinfo.fbSize.toNat hlen
      omega
    have hzero := (h (fun _ => 0)).2 _ hout
    have hone := (h (fun _ => 1)).2 _ hout
    dsimp only at hzero hone
    rw [fill_inside hdvd hin] at hzero hone
    exact absurd (hzero.symm.trans hone) (by decide)
  · intro hsize m
    rw [hsize]
    exact ⟨fun i k hi => by simp at hi, fun x _ => rfl⟩

theorem loaderFill_paintsAll_iff : PaintsAll vinfo pixel vinfo.loaderFill ↔ vinfo.fbSize = 0 := by
  have hlen : (wordBytes 0xffffffff).length = 8 := rfl
  unfold VideoInfo.loaderFill
  simp only [storeWords_const]
  exact fill_paintsAll_iff (by rw [hlen]; decide) (by rw [hlen]; decide)

theorem paintBackground_paintsAll_iff :
    PaintsAll g.vinfoG pixel (g.paintBackground color) ↔ g.vinfoG.fbSize = 0 := by
  have hlen : color.bytes.length = 4 := rfl
  exact fill_paintsAll_iff (by rw [hlen]; decide) (by rw [hlen]; decide)

theorem initGraphics_paintsAll {paints : Memory → Memory} :
    PaintsAll (initGraphics vinfo).vinfoG pixel paints ↔ PaintsAll vinfo pixel paints := by
  unfold initGraphics
  split_ifs <;> rfl

theorem initGraphics_fbSize : (initGraphics vinfo).vinfoG.fbSize = vinfo.fbSize := by
  unfold initGraphics
  split_ifs <;> rfl

theorem fills_right_iff (vinfo : VideoInfo) (color : PixFormat) :
    PaintsAll vinfo white vinfo.loaderFill ∧
      PaintsAll vinfo color ((initGraphics vinfo).paintBackground color) ↔ vinfo.fbSize = 0 := by
  rw [loaderFill_paintsAll_iff, ← initGraphics_paintsAll, paintBackground_paintsAll_iff,
    initGraphics_fbSize, and_self]

theorem not_fills_right : ¬ (PaintsAll Graphics.landscape white Graphics.landscape.loaderFill ∧
    PaintsAll Graphics.landscape black ((initGraphics Graphics.landscape).paintBackground black)) := by
  rw [loaderFill_paintsAll_iff]
  rintro ⟨hsize, -⟩
  exact absurd hsize (by decide)

end Screens

end MinOS
