import MinOS.HeapRuns

namespace MinOS

open Library.Rings Library.Tilings Library.Runs

variable {h : Heap} {kheapStart : ℕ} {ops : List HeapOp} {s : Arena}

theorem Serves.payload {live : List Block} {size r : ℕ} {h' : Heap}
    (hs : Serves h live (nunits size) r h') (hsize : size ≤ 2 ^ 31 - 16) (hr : r ≠ 0) :
    r % blkSize = 0 ∧ r + size ≤ r - blkSize + blkSize * h'.size (r - blkSize) := by
  rcases hs with ⟨h0, -⟩ | ⟨-, hal, hunits, -⟩
  · exact absurd h0 hr
  · have hle := size_le_nunits hsize
    rw [hunits]
    simp only [blkSize] at *
    omega

theorem kmalloc_kfree_sound (hal : kheapStart % blkSize = 0) (hbase : h.base < kheapStart)
    (hfreep : h.freep = h.base)
    (hrun : Run (fun s op t => HeapStep s op t ∧ op.Unaligned) ⟨initKheap h kheapStart, []⟩ ops s) :
    (∃ free, s.Sound h.base kheapStart free) ∧
      (∀ size : ℤ, 0 ≤ size → size ≤ 2 ^ 31 - 16 → ∃ r h', kmalloc s.heap size = some (r, h') ∧
        (r ≠ 0 → r % blkSize = 0 ∧
          (r + size : ℤ) ≤ (r - blkSize + blkSize * h'.size (r - blkSize) : ℕ))) ∧
      ∀ b ∈ s.live, ∃ h', kfree s.heap (b.addr + blkSize) = some h' := by
  obtain ⟨free, hw, hkheap, hb⟩ := Arena.unaligned_wellFormed hal hbase hfreep hrun
  refine ⟨⟨free, hkheap ▸ hb ▸ Arena.sound hw⟩, fun size h0 hle => ?_, fun b hb => ?_⟩
  · obtain ⟨m, rfl⟩ := Int.eq_ofNat_of_zero_le h0
    obtain ⟨r, h', hk, hserves⟩ := hw.kmalloc_serves (show m ≤ 2 ^ 31 - 16 by omega)
    refine ⟨r, h', hk, fun hr => ?_⟩
    obtain ⟨hmod, hroom⟩ := hserves.payload (by omega) hr
    exact ⟨hmod, by exact_mod_cast hroom⟩
  · obtain ⟨h', _, hk, -⟩ := hw.kfree hb
    exact ⟨h', hk⟩

def zeroHeap : Heap := ⟨fun _ => ⟨0, 0⟩, 0x1000, 0, 0x1000⟩

theorem kmalloc_kfree_sound_example :
    ∃ h' h'', kmalloc (initKheap zeroHeap 0x400000) 100 = some (0x7fff90, h') ∧
      kfree h' 0x7fff90 = some h'' ∧ ∃ free, Arena.Sound ⟨h'', []⟩ 0x1000 0x400000 free := by
  have hvals : (kmalloc (initKheap zeroHeap 0x400000) 100).map
      (fun x => (x.1, x.2.size 0x7fff80)) = some (0x7fff90, 8) := by decide +kernel
  obtain ⟨⟨r, h'⟩, hk, hrs⟩ := Option.map_eq_some_iff.mp hvals
  obtain ⟨rfl, hsize⟩ : r = 0x7fff90 ∧ h'.size 0x7fff80 = 8 := by simpa using hrs
  have hgain : Arena.gain ⟨initKheap zeroHeap 0x400000, []⟩ 0x7fff90 h' = ⟨h', [⟨0x7fff80, 8⟩]⟩ := by
    simp [Arena.gain, blkSize, hsize]
  have hone : Run (fun s op t => HeapStep s op t ∧ HeapOp.Unaligned op)
      ⟨initKheap zeroHeap 0x400000, []⟩ [.kmalloc 100] _ := .single
    ⟨HeapStep.kmalloc (s := ⟨initKheap zeroHeap 0x400000, []⟩) (by decide) (by decide) hk, trivial⟩
  rw [hgain] at hone
  have hal : 0x400000 % blkSize = 0 := by decide
  have hbase : zeroHeap.base < 0x400000 := by decide
  obtain ⟨h'', hf⟩ := (kmalloc_kfree_sound hal hbase rfl hone).2.2 ⟨0x7fff80, 8⟩ (by simp)
  have htwo := hone.snoc ⟨HeapStep.kfree (b := ⟨0x7fff80, 8⟩) (by simp) hf, trivial⟩
  rw [List.erase_cons_head] at htwo
  exact ⟨h', h'', hk, hf, (kmalloc_kfree_sound hal hbase rfl htwo).1⟩

def freshHeap : Heap := initKheap zeroHeap 0x400000

theorem freshHeap_wellFormed : WellFormed freshHeap [⟨0x400000, heapSize / blkSize⟩] [] :=
  WellFormed.init (by decide) (by decide) rfl

/-- While aligned requests are filled to the end of a block, each of them answers null or a block
that one `kfree` gives back. -/
theorem kmallocAlignas_sound (hal : kheapStart % blkSize = 0) (hbase : h.base < kheapStart)
    (hfreep : h.freep = h.base)
    (hrun : Run (fun s op t => HeapStep s op t ∧ op.Fills s) ⟨initKheap h kheapStart, []⟩ ops s) :
    (∃ free, s.Sound h.base kheapStart free) ∧
      ∀ size alignSize : ℤ, 0 ≤ size → size ≤ 2 ^ 31 - 16 → 16 < alignSize → alignSize < 2 ^ 31 →
        FillsToEnd s.heap alignSize (nunits size) →
        ∃ r h', kmallocAlignas s.heap size alignSize = some (r, h') ∧
          (r ≠ 0 → (r : ℤ) % alignSize = 0 ∧ h'.size (r - blkSize) = nunits size ∧
            (∃ free', (s.gain r h').Sound h.base kheapStart free') ∧
            ∃ h'' free'', kfree h' r = some h'' ∧
              Arena.Sound ⟨h'', s.live⟩ h.base kheapStart free'' ∧
              ∀ free, s.Sound h.base kheapStart free →
                ∀ a, cover (free''.map Block.span) a = cover (free.map Block.span) a) := by
  obtain ⟨free, hw, hkheap, hb⟩ := Arena.run_wellFormed hal hbase hfreep hrun
  refine ⟨⟨free, hkheap ▸ hb ▸ Arena.sound hw⟩, fun size alignSize h0 hle hgt hlt hfill => ?_⟩
  obtain ⟨m, rfl⟩ := Int.eq_ofNat_of_zero_le h0
  obtain ⟨r, h', hk, hmod, hserves⟩ :=
    hw.kmallocAlignas_serves (show m ≤ 2 ^ 31 - 16 by omega) hgt hlt hfill
  refine ⟨r, h', hk, fun hr => ?_⟩
  rcases hserves with ⟨h0, -⟩ | ⟨-, hblk, hsize, hkheap', hbase', free', hw'⟩
  · exact absurd h0 hr
  · have hgain : s.gain r h' = ⟨h', ⟨r - blkSize, nunits m⟩ :: s.live⟩ := by
      simp [Arena.gain, hr, hsize]
    have hge : r - blkSize + blkSize = r := by
      simp only [blkSize] at *
      omega
    obtain ⟨h'', free'', hf, hkheap'', hbase'', hw''⟩ :=
      hw'.kfree (b := ⟨r - blkSize, nunits m⟩) (by simp)
    rw [List.erase_cons_head] at hw''
    have hb' : h'.base = h.base := hbase'.trans hb
    have hb'' : h''.base = h.base := hbase''.trans hb'
    have hk' : h'.kheap = kheapStart := hkheap'.trans hkheap
    have hk'' : h''.kheap = kheapStart := hkheap''.trans hk'
    refine ⟨hmod, hsize, ⟨free', ?_⟩, h'', free'', hge ▸ hf, ?_, fun free hsound a => ?_⟩
    · rw [hgain]
      exact hk' ▸ hb' ▸ Arena.sound (s := ⟨h', _⟩) hw'
    · exact hk'' ▸ hb'' ▸ Arena.sound (s := ⟨h'', _⟩) hw''
    · have hold := hsound.tiles a
      have hnew := hw''.tiles a
      rw [hk''] at hnew
      simp only [List.map_append, cover_append] at hold hnew
      omega

theorem zeroHeap_fillsToEnd :
    FillsToEnd (initKheap zeroHeap 0x400000) 0x1000 (nunits 0x1000) := by
  intro p hfirst
  have hring : Circular (initKheap zeroHeap 0x400000).next 0x1000 [0x400000] := by
    simp only [Circular, List.isChain_cons_cons, List.cons_append, List.nil_append]
    exact ⟨by decide, by decide, .singleton _⟩
  have hmem := hfirst.mem hring (List.mem_cons_self ..)
  obtain ⟨_, _, _, hfit⟩ := hfirst
  simp only [List.mem_cons, List.not_mem_nil, or_false] at hmem
  rcases hmem with rfl | rfl
  · exact absurd hfit (by decide +kernel)
  · decide +kernel

theorem kmallocAlignas_sound_example :
    ∃ h' h'' free'', kmallocAlignas (initKheap zeroHeap 0x400000) 0x1000 0x1000 = some (0x7ff000, h') ∧
      kfree h' 0x7ff000 = some h'' ∧ Arena.Sound ⟨h'', []⟩ 0x1000 0x400000 free'' ∧
      ∀ a, cover (free''.map Block.span) a = cover [⟨0x400000, heapSize⟩] a := by
  have hal : 0x400000 % blkSize = 0 := by decide
  have hbase : zeroHeap.base < 0x400000 := by decide
  obtain ⟨-, hcall⟩ := kmallocAlignas_sound hal hbase rfl .nil
  obtain ⟨r, h', hk, hr⟩ := hcall 0x1000 0x1000 (by decide) (by decide) (by decide) (by decide)
    zeroHeap_fillsToEnd
  have hval : (kmallocAlignas (initKheap zeroHeap 0x400000) 0x1000 0x1000).map Prod.fst =
      some 0x7ff000 := by decide +kernel
  obtain rfl : r = 0x7ff000 := by simpa [hk] using hval
  obtain ⟨-, -, -, h'', free'', hf, hsound, hcover⟩ := hr (by decide)
  exact ⟨h', h'', free'', hk, hf, hsound,
    hcover _ (Arena.sound (s := ⟨_, []⟩) (WellFormed.init hal hbase rfl))⟩

/-- Where room is left behind the block, the remainder is `2 * n` headers too long: the blocks
add up to more than the heap. -/
theorem kmallocAlignas_miscounts :
    ∃ r h', HeapStep ⟨initKheap zeroHeap 0x400000, []⟩ (.kmallocAlignas 256 0x1000)
        (Arena.gain ⟨initKheap zeroHeap 0x400000, []⟩ r h') ∧ r ≠ 0 ∧
      ¬ ∃ free, (Arena.gain ⟨initKheap zeroHeap 0x400000, []⟩ r h').Sound 0x1000 0x400000 free := by
  have hvals : (kmallocAlignas (initKheap zeroHeap 0x400000) 256 0x1000).map
      (fun x => (x.1, [0x1000, 0x400000, 0x7ff100].map x.2.next,
        [0x400000, 0x7ff100, 0x7feff0].map x.2.size)) =
      some (0x7ff000, [0x400000, 0x7ff100, 0x1000], [261887, 274, 17]) := by decide +kernel
  obtain ⟨⟨r, h'⟩, hk, hrs⟩ := Option.map_eq_some_iff.mp hvals
  simp only [Prod.mk.injEq, List.map_cons, List.map_nil, List.cons.injEq, and_true] at hrs
  obtain ⟨rfl, ⟨hn₁, hn₂, hn₃⟩, hs₁, hs₂, hs₃⟩ := hrs
  refine ⟨_, h', .kmallocAlignas (by decide) (by decide) (by decide) hk, by decide, ?_⟩
  rintro ⟨free, hsound⟩
  have hring : Circular h'.next 0x1000 [0x400000, 0x7ff100] := by
    simp [Circular, hn₁, hn₂, hn₃]
  have haddrs : free.map Block.addr = [0x400000, 0x7ff100] := by
    refine hsound.circular.unique hring (fun hm => ?_) (by decide)
    exact absurd ((List.pairwise_cons.mp hsound.increasing).1 _ hm) (by decide)
  obtain ⟨b, _, rfl, hb, hrest⟩ := List.map_eq_cons_iff.mp haddrs
  obtain ⟨c, _, rfl, hc, hnil⟩ := List.map_eq_cons_iff.mp hrest
  obtain rfl := List.map_eq_nil_iff.mp hnil
  have hbs : h'.size b.addr = b.units := hsound.sizes b (by simp)
  have hcs : h'.size c.addr = c.units := hsound.sizes c (by simp)
  rw [hb, hs₁] at hbs
  rw [hc, hs₂] at hcs
  have hsum := hsound.units
  simp [Arena.gain, blkSize, heapSize, hs₃, ← hbs, ← hcs] at hsum

end MinOS
