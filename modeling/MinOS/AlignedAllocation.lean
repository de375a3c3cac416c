import MinOS.HeapAllocation

namespace MinOS

open Library.Integers Library.Rings Library.Tilings

theorem alignedLoop_cases (start alignSize : ℕ) (k : ℕ) :
    alignedLoop start alignSize k = 0 ∨ ∃ i, 0 < i ∧ i ≤ k ∧
      alignedLoop start alignSize k = start + blkSize * i ∧ (start + blkSize * i) % alignSize = 0 := by
  induction k with
  | zero => exact .inl rfl
  | succ k ih =>
    rw [alignedLoop]
    split_ifs with hal
    · exact .inr ⟨k + 1, by omega, le_refl _, rfl, hal⟩
    · rcases ih with hz | ⟨i, hpos, hi, he, hal⟩
      · exact .inl hz
      · exact .inr ⟨i, hpos, by omega, he, hal⟩

variable {h : Heap} {free live : List Block} {b : Block} {alignSize : ℤ} {n : ℕ}

namespace WellFormed

theorem alignedAddr_cases (hw : WellFormed h free live) (hb : b ∈ free) (hpos : 0 < alignSize)
    (hlt : alignSize < 2 ^ 31) :
    alignedAddr h alignSize b.addr = 0 ∨ ∃ i, 0 < i ∧ i < b.units ∧
      alignedAddr h alignSize b.addr = b.addr + blkSize * i ∧
      (alignedAddr h alignSize b.addr : ℤ) % alignSize = 0 := by
  have hle := hw.units_le (b := b) (by simp [hb])
  simp only [heapSize, blkSize] at hle
  obtain ⟨m, rfl⟩ := Int.eq_ofNat_of_zero_le hpos.le
  have hsize : int32 (h.size b.addr) = b.units := by
    rw [hw.freeList.sizes b hb, int32_eq (by omega) (by omega)]
  have hun : uint64 (m : ℤ) = m := uint64_eq (by omega)
  rcases alignedLoop_cases b.addr m ((b.units : ℤ) - 1).toNat with hz | ⟨i, hpos, hi, he, hal⟩
  · exact .inl (by rw [alignedAddr, getAlignedAddress, hsize, hun, hz])
  · refine .inr ⟨i, hpos, by omega, by rw [alignedAddr, getAlignedAddress, hsize, hun, he], ?_⟩
    rw [alignedAddr, getAlignedAddress, hsize, hun, he]
    exact_mod_cast hal

theorem fitsAligned_base (hw : WellFormed h free live) (alignSize : ℤ) (n : ℕ) :
    fitsAligned h alignSize n h.base = false := by
  have hz : alignedAddr h alignSize h.base = 0 := by
    rw [alignedAddr, getAlignedAddress, hw.freeList.base_size]
    rfl
  simp [fitsAligned, hz]

theorem exists_kmallocAlignas (hw : WellFormed h free live) (size : ℤ) (hal : 16 < alignSize) :
    ∃ x, kmallocAlignas h size alignSize = some x := by
  have hgt : ¬ alignSize ≤ 16 := by omega
  rcases hw.freeList.search_cases hw.length_lt _ (hw.fitsAligned_base alignSize (nunits size)) with
    ⟨-, hsearch⟩ | ⟨pre, q, as, b, bs, -, -, -, hsearch⟩
  · exact ⟨(0, h), by simp only [kmallocAlignas, if_neg hgt, hsearch]⟩
  · exact ⟨takeAligned h q b.addr (alignedAddr h alignSize b.addr) (nunits size),
      by simp only [kmallocAlignas, if_neg hgt, hsearch]⟩

end WellFormed

/-- The first free block, from `freep` on, in which `kmallocAlignas` finds room for `n` headers
is filled exactly up to its end, and its own header stays in front of the new one. -/
def FillsToEnd (h : Heap) (alignSize : ℤ) (n : ℕ) : Prop :=
  ∀ p, FirstFit h.next (fitsAligned h alignSize n) h.freep p →
    alignedAddr h alignSize p - blkSize + blkSize * n = p + blkSize * h.size p ∧
      alignedAddr h alignSize p - blkSize ≠ p

theorem takeAligned_eq (h : Heap) (q : ℕ) {p a : ℕ} (hpa : p + blkSize ≤ a)
    (hend : a - blkSize + blkSize * n = p + blkSize * h.size p) (hne : a - blkSize ≠ p) :
    takeAligned h q p a n = takeBlock h q p n := by
  simp only [blkSize] at hpa hend hne
  have hsize : h.size p ≠ n := by omega
  have hstart : p + 16 * (h.size p - n) = a - 16 := by omega
  have hptr : a - 16 + 16 = a := by omega
  simp [takeAligned, takeBlock, blkSize, hend, hsize, hstart, hptr]

theorem kmallocAlignas_cases (hw : WellFormed h free live) {size : ℕ} (hs : size ≤ 2 ^ 31 - 16)
    (hal : 16 < alignSize) (hlt : alignSize < 2 ^ 31) (hfill : FillsToEnd h alignSize (nunits size)) :
    kmallocAlignas h size alignSize = some (0, h) ∨
      ∃ pre q as b bs, h.base :: as.map Block.addr = pre ++ [q] ∧ free = as ++ b :: bs ∧
        nunits size ≤ b.units ∧ ((tailBlock b (nunits size)).addr + blkSize : ℤ) % alignSize = 0 ∧
        kmallocAlignas h size alignSize = some (takeBlock h q b.addr (nunits size)) := by
  have hpos := nunits_pos hs
  have hgt : ¬ alignSize ≤ 16 := by omega
  rcases hw.freeList.search_cases hw.length_lt _ (hw.fitsAligned_base alignSize (nunits size)) with
    ⟨-, hsearch⟩ | ⟨pre, q, as, b, bs, hq, rfl, hfirst, hsearch⟩
  · exact .inl (by simp only [kmallocAlignas, if_neg hgt, hsearch])
  · obtain ⟨hend, hne⟩ := hfill b.addr hfirst
    have hfit : fitsAligned h alignSize (nunits size) b.addr = true := by
      obtain ⟨_, _, _, hfit⟩ := hfirst
      exact hfit
    have hnz : alignedAddr h alignSize b.addr ≠ 0 := by
      simp only [fitsAligned, decide_eq_true_eq] at hfit
      exact hfit.1
    rcases hw.alignedAddr_cases (b := b) (by simp) (by omega) hlt with hz | ⟨i, hipos, hi, he, hmod⟩
    · exact absurd hz hnz
    · have hsize : h.size b.addr = b.units := hw.freeList.sizes b (by simp)
      have htail : (tailBlock b (nunits size)).addr + blkSize = alignedAddr h alignSize b.addr := by
        rw [he, hsize] at hend
        simp only [blkSize] at hend
        simp only [tailBlock, he, blkSize]
        omega
      refine .inr ⟨pre, q, as, b, bs, hq, rfl, ?_, ?_, ?_⟩
      · rw [he, hsize] at hend
        simp only [blkSize] at hend
        omega
      · rw [← hmod, ← htail]
        push_cast
        rfl
      · have htake := takeAligned_eq h q (by rw [he]; simp only [blkSize]; omega) hend hne
        simp only [kmallocAlignas, if_neg hgt, hsearch, htake]

end MinOS
