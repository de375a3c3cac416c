import Mathlib.Data.List.Nodup
import MinOS.SerialInput

namespace MinOS

def glyphs : List ℕ := [
  0x00_00_00_00_00_00_00_00_00_00_00_00_00_00_00_00,
  0x00_10_10_10_10_10_10_10_10_10_00_00_10_10_00_00,
  0x28_28_28_00_00_00_00_00_00_00_00_00_00_00_00_00,
  0x00_44_44_44_fe_44_44_44_44_44_fe_44_44_44_00_00,
  0x10_3a_56_92_92_90_50_38_14_12_92_92_d4_b8_10_10,
  0x62_92_94_94_68_08_10_10_20_2c_52_52_92_8c_00_00,
  0x00_70_88_88_88_90_60_47_a2_92_8a_84_46_39_00_00,
  0x04_08_10_00_00_00_00_00_00_00_00_00_00_00_00_00,
  0x02_04_08_08_10_10_10_10_10_10_10_08_08_04_02_00,
  0x80_40_20_20_10_10_10_10_10_10_10_20_20_40_80_00,
  0x00_00_00_00_00_10_92_54_38_54_92_10_00_00_00_00,
  0x00_00_00_00_00_10_10_10_fe_10_10_10_00_00_00_00,
  0x00_00_00_00_00_00_00_00_00_00_00_18_18_08_08_10,
  0x00_00_00_00_00_00_00_00_fe_00_00_00_00_00_00_00,
  0x00_00_00_00_00_00_00_00_00_00_00_00_18_18_00_00,
  0x02_02_04_04_08_08_08_10_10_20_20_40_40_40_80_80,
  0x00_18_24_24_42_42_42_42_42_42_42_24_24_18_00_00,
  0x00_08_18_28_08_08_08_08_08_08_08_08_08_3e_00_00,
  0x00_18_24_42_42_02_04_08_10_20_20_40_40_7e_00_00,
  0x00_18_24_42_02_02_04_18_04_02_02_42_24_18_00_00,
  0x00_0c_0c_0c_14_14_14_24_24_44_7e_04_04_1e_00_00,
  0x00_7c_40_40_40_58_64_02_02_02_02_42_24_18_00_00,
  0x00_18_24_42_40_58_64_42_42_42_42_42_24_18_00_00,
  0x00_7e_42_42_04_04_08_08_08_10_10_10_10_38_00_00,
  0x00_18_24_42_42_42_24_18_24_42_42_42_24_18_00_00,
  0x00_18_24_42_42_42_42_42_26_1a_02_42_24_18_00_00,
  0x00_00_00_00_00_18_18_00_00_00_00_00_18_18_00_00,
  0x00_00_00_00_00_18_18_00_00_00_00_18_18_08_08_10,
  0x00_02_04_08_10_20_40_80_80_40_20_10_08_04_02_00,
  0x00_00_00_00_00_00_fe_00_00_fe_00_00_00_00_00_00,
  0x00_80_40_20_10_08_04_02_02_04_08_10_20_40_80_00,
  0x00_38_44_82_82_82_04_08_10_10_00_00_18_18_00_00,
  0x00_38_44_82_9a_aa_aa_aa_aa_aa_9c_80_46_38_00_00,
  0x00_18_18_18_18_24_24_24_24_7e_42_42_42_e7_00_00,
  0x00_f0_48_44_44_44_48_78_44_42_42_42_44_f8_00_00,
  0x00_3a_46_42_82_80_80_80_80_80_82_42_44_38_00_00,
  0x00_f8_44_44_42_42_42_42_42_42_42_44_44_f8_00_00,
  0x00_fe_42_42_40_40_44_7c_44_40_40_42_42_fe_00_00,
  0x00_fe_42_42_40_40_44_7c_44_44_40_40_40_f0_00_00,
  0x00_3a_46_42_82_80_80_9e_82_82_82_42_46_38_00_00,
  0x00_e7_42_42_42_42_42_7e_42_42_42_42_42_e7_00_00,
  0x00_7c_10_10_10_10_10_10_10_10_10_10_10_7c_00_00,
  0x00_1f_04_04_04_04_04_04_04_04_04_04_84_48_30_00,
  0x00_e7_42_44_48_50_50_60_50_50_48_44_42_e7_00_00,
  0x00_f0_40_40_40_40_40_40_40_40_40_42_42_fe_00_00,
  0x00_c3_42_66_66_66_5a_5a_5a_42_42_42_42_e7_00_00,
  0x00_c7_42_62_62_52_52_52_4a_4a_4a_46_46_e2_00_00,
  0x00_38_44_82_82_82_82_82_82_82_82_82_44_38_00_00,
  0x00_f8_44_42_42_42_44_78_40_40_40_40_40_f0_00_00,
  0x00_38_44_82_82_82_82_82_82_82_92_8a_44_3a_00_00,
  0x00_fc_42_42_42_42_7c_44_42_42_42_42_42_e7_00_00,
  0x00_3a_46_82_82_80_40_38_04_02_82_82_c4_b8_00_00,
  0x00_fe_92_92_10_10_10_10_10_10_10_10_10_7c_00_00,
  0x00_e7_42_42_42_42_42_42_42_42_42_42_24_3c_00_00,
  0x00_e7_42_42_42_42_24_24_24_24_18_18_18_18_00_00,
  0x00_e7_42_42_42_5a_5a_5a_5a_24_24_24_24_24_00_00,
  0x00_e7_42_42_24_24_24_18_24_24_24_42_42_e7_00_00,
  0x00_ee_44_44_44_28_28_28_10_10_10_10_10_7c_00_00,
  0x00_fe_84_84_08_08_10_10_20_20_40_42_82_fe_00_00,
  0x00_3e_20_20_20_20_20_20_20_20_20_20_20_20_3e_00,
  0x80_80_40_40_20_20_20_10_10_08_08_04_04_04_02_02,
  0x00_7c_04_04_04_04_04_04_04_04_04_04_04_04_7c_00,
  0x00_10_28_44_82_00_00_00_00_00_00_00_00_00_00_00,
  0x00_00_00_00_00_00_00_00_00_00_00_00_00_00_fe_00,
  0x10_08_04_00_00_00_00_00_00_00_00_00_00_00_00_00,
  0x00_00_00_00_00_70_08_04_3c_44_84_84_8c_76_00_00,
  0xc0_40_40_40_40_58_64_42_42_42_42_42_64_58_00_00,
  0x00_00_00_00_00_30_4c_84_84_80_80_82_44_38_00_00,
  0x0c_04_04_04_04_34_4c_84_84_84_84_84_4c_36_00_00,
  0x00_00_00_00_00_38_44_82_82_fc_80_82_42_3c_00_00,
  0x0e_10_10_10_10_7c_10_10_10_10_10_10_10_7c_00_00,
  0x00_00_00_00_00_36_4c_84_84_84_84_4c_34_04_04_78,
  0xc0_40_40_40_40_58_64_42_42_42_42_42_42_e3_00_00,
  0x00_10_10_00_00_30_10_10_10_10_10_10_10_38_00_00,
  0x00_04_04_00_00_0c_04_04_04_04_04_04_04_08_08_30,
  0xc0_40_40_40_40_4e_44_48_50_60_50_48_44_e6_00_00,
  0x30_10_10_10_10_10_10_10_10_10_10_10_10_38_00_00,
  0x00_00_00_00_00_f6_49_49_49_49_49_49_49_db_00_00,
  0x00_00_00_00_00_d8_64_42_42_42_42_42_42_e3_00_00,
  0x00_00_00_00_00_38_44_82_82_82_82_82_44_38_00_00,
  0x00_00_00_00_00_d8_64_42_42_42_42_42_64_58_40_e0,
  0x00_00_00_00_00_34_4c_84_84_84_84_84_4c_34_04_0e,
  0x00_00_00_00_00_dc_62_42_40_40_40_40_40_e0_00_00,
  0x00_00_00_00_00_7a_86_82_c0_38_06_82_c2_bc_00_00,
  0x00_00_10_10_10_7c_10_10_10_10_10_10_10_0e_00_00,
  0x00_00_00_00_00_c6_42_42_42_42_42_42_46_3b_00_00,
  0x00_00_00_00_00_e7_42_42_42_24_24_24_18_18_00_00,
  0x00_00_00_00_00_e7_42_42_5a_5a_5a_24_24_24_00_00,
  0x00_00_00_00_00_c6_44_28_28_10_28_28_44_c6_00_00,
  0x00_00_00_00_00_e7_42_42_24_24_24_18_18_10_10_60,
  0x00_00_00_00_00_fe_82_84_08_10_20_42_82_fe_00_00,
  0x00_06_08_10_10_10_10_60_10_10_10_10_08_06_00_00,
  0x10_10_10_10_10_10_10_10_10_10_10_10_10_10_10_10,
  0x00_60_10_08_08_08_08_06_08_08_08_08_10_60_00_00,
  0x00_72_8c_00_00_00_00_00_00_00_00_00_00_00_00_00]

def glyphRow (glyph i : ℕ) : BitVec 8 := .ofNat 8 (glyph >>> (8 * (15 - i)))

def HasFonts (fonts : ℤ → BitVec 8) : Prop :=
  ∀ (k i : ℕ) (hk : k < glyphs.length), i < 16 → fonts ((k : ℤ) * 16 + i) = glyphRow glyphs[k] i

def printable : List (BitVec 8) := (List.range glyphs.length).map (fun k => .ofNat 8 (0x20 + k))

def inkAt (fonts : ℤ → BitVec 8) (c : BitVec 8) (p : ℕ × ℕ) : Bool :=
  (fonts (Graphics.glyphIndex c p.1)).getLsbD (7 - p.2)

def cellPixels : List (ℕ × ℕ) := (List.range 16).product (List.range 8)

variable {fonts : ℤ → BitVec 8} {glyph glyph' k : ℕ} {c c' : BitVec 8} {p : ℕ × ℕ}

theorem mem_cellPixels : p ∈ cellPixels ↔ p.1 < 16 ∧ p.2 < 8 := by
  obtain ⟨i, j⟩ := p
  rw [cellPixels, List.pair_mem_product, List.mem_range, List.mem_range]

theorem glyphs_lt : ∀ glyph ∈ glyphs, glyph < 2 ^ 128 := by decide +kernel

theorem glyphs_nodup : glyphs.Nodup := by decide +kernel

theorem testBit_glyphRow (glyph : ℕ) (hk : k < 128) :
    (glyphRow glyph (15 - k / 8)).getLsbD (k % 8) = glyph.testBit k := by
  have hlt : k % 8 < 8 := Nat.mod_lt _ (by decide)
  have hindex : 8 * (15 - (15 - k / 8)) + k % 8 = k := by omega
  rw [glyphRow, BitVec.getLsbD_ofNat, Nat.testBit_shiftRight, hindex, decide_eq_true hlt, Bool.true_and]

theorem glyph_ext (hlt : glyph < 2 ^ 128) (hlt' : glyph' < 2 ^ 128)
    (h : ∀ i < 16, glyphRow glyph i = glyphRow glyph' i) : glyph = glyph' := by
  apply Nat.eq_of_testBit_eq
  intro k
  by_cases hk : k < 128
  · rw [← testBit_glyphRow glyph hk, ← testBit_glyphRow glyph' hk, h _ (by omega)]
  · have hpow : 2 ^ 128 ≤ 2 ^ k := Nat.pow_le_pow_right (by decide) (by omega)
    rw [Nat.testBit_lt_two_pow (by omega), Nat.testBit_lt_two_pow (by omega)]

theorem mem_printable (h : c ∈ printable) :
    ∃ k, k < glyphs.length ∧ c = .ofNat 8 (0x20 + k) ∧ ∀ i, Graphics.glyphIndex c i = (k : ℤ) * 16 + i := by
  obtain ⟨k, hk, rfl⟩ := List.mem_map.mp h
  have hlt : k < 95 := List.mem_range.mp hk
  have hsub : (BitVec.ofNat 8 (0x20 + k) - 0x20).toNat = k := by bv_omega
  refine ⟨k, hlt, rfl, fun i => ?_⟩
  rw [Graphics.glyphIndex, BitVec.toInt_eq_toNat_of_lt (by omega), hsub]

theorem mem_printable_of_lt (hlo : 0x20 ≤ c.toNat) (hhi : c.toNat < 0x7f) : c ∈ printable := by
  apply List.mem_map.mpr
  refine ⟨c.toNat - 0x20, List.mem_range.mpr ?_, by bv_omega⟩
  change c.toNat - 0x20 < 95
  omega

theorem inkAt_eq (hf : HasFonts fonts) (hk : k < glyphs.length)
    (hc : ∀ i, Graphics.glyphIndex c i = (k : ℤ) * 16 + i) (hp : p ∈ cellPixels) :
    inkAt fonts c p = (glyphRow glyphs[k] p.1).getLsbD (7 - p.2) := by
  rw [inkAt, hc, hf k p.1 hk (mem_cellPixels.mp hp).1]

theorem eq_of_inkAt (hf : HasFonts fonts) (hc : c ∈ printable) (hc' : c' ∈ printable)
    (h : ∀ p ∈ cellPixels, inkAt fonts c p = inkAt fonts c' p) : c = c' := by
  obtain ⟨k, hk, rfl, hindex⟩ := mem_printable hc
  obtain ⟨k', hk', rfl, hindex'⟩ := mem_printable hc'
  have hrows : ∀ i < 16, glyphRow glyphs[k] i = glyphRow glyphs[k'] i := by
    intro i hi
    apply BitVec.eq_of_getLsbD_eq
    intro j hj
    have hpixel : (i, 7 - j) ∈ cellPixels := mem_cellPixels.mpr ⟨hi, by dsimp only; omega⟩
    have hbit := h _ hpixel
    rw [inkAt_eq hf hk hindex hpixel, inkAt_eq hf hk' hindex' hpixel] at hbit
    have hback : 7 - (7 - j) = j := by omega
    rwa [hback] at hbit
  have hglyph := glyph_ext (glyphs_lt _ (List.getElem_mem hk)) (glyphs_lt _ (List.getElem_mem hk')) hrows
  obtain rfl := (glyphs_nodup.getElem_inj_iff).mp hglyph
  rfl

end MinOS
