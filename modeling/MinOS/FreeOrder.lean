import MinOS.HeapSoundness
import MinOS.Library.Separation
import MinOS.Releases

namespace MinOS

open Library.Rings Library.Tilings Library.Runs

def countLoop (h : Heap) : ℕ → ℕ → ℕ → Option ℕ
  | 0, _, _ => none
  | n + 1, p, count => if h.next p = h.base then some count else countLoop h n (h.next p) (count + 1)

def countFreeBlock (h : Heap) : Option ℕ := countLoop h loopBound h.base 0

def freeBlocks (h : Heap) : Option (List Block) :=
  (ring h.next h.base loopBound h.base).map (List.map (fun a => ⟨a, h.size a⟩))

def freeAll (h : Heap) (bs : List Block) : Option Heap :=
  (bs.map (fun b => b.addr + blkSize)).foldlM kfree h

def Arena.freeUnit (s : Arena) (i : ℕ) : Bool :=
  s.live.all (fun b => !b.span.covers (s.heap.kheap + blkSize * i))

def Arena.freeRuns (s : Arena) : ℕ := runs s.freeUnit (heapSize / blkSize)

theorem countLoop_eq (h : Heap) (n p count : ℕ) :
    countLoop h n p count = (ring h.next h.base n p).map (fun xs => count + xs.length) := by
  induction n generalizing p count with
  | zero => rfl
  | succ n ih =>
    rw [countLoop, ring]
    split_ifs
    · rfl
    · rw [ih, Option.map_map]
      congr 1
      funext xs
      simp only [Function.comp_apply, List.length_cons]
      omega

namespace WellFormed

variable {h h' : Heap} {free free' live live' : List Block}

theorem freeBlocks_eq (hw : WellFormed h free live) : freeBlocks h = some free := by
  have hf := hw.freeList
  have hring := hf.ring.ring_eq (n := loopBound) (List.nodup_cons.mp hf.nodup).1
    (by simpa using hw.length_lt)
  have hblocks : (free.map Block.addr).map (fun a => (⟨a, h.size a⟩ : Block)) = free := by
    rw [List.map_map]
    conv_rhs => rw [← List.map_id free]
    apply List.map_congr_left
    intro b hb
    rw [Function.comp_apply, hf.sizes b hb]
    rfl
  rw [freeBlocks, hring, Option.map_some, hblocks]

theorem countFreeBlock_eq (hw : WellFormed h free live) : countFreeBlock h = some free.length := by
  have hf := hw.freeList
  have hring := hf.ring.ring_eq (n := loopBound) (List.nodup_cons.mp hf.nodup).1
    (by simpa using hw.length_lt)
  rw [countFreeBlock, countLoop_eq, hring, Option.map_some, List.length_map, Nat.zero_add]

theorem separated (hw : WellFormed h free live) : Separated (free.map Block.span) := by
  constructor
  · intro s hs
    obtain ⟨b, hb, rfl⟩ := List.mem_map.mp hs
    have := hw.freeList.pos b hb
    simp only [Block.span_length, blkSize]
    omega
  · rw [List.pairwise_map]
    exact hw.freeList.apart

theorem covered_free (hw : WellFormed h free live) (a : ℕ) : Covered (free.map Block.span) a ↔
    h.kheap ≤ a ∧ a < h.kheap + heapSize ∧ ¬ Covered (live.map Block.span) a := by
  have htiles := hw.tiles a
  rw [List.map_append, cover_append] at htiles
  rw [covered_iff_cover, covered_iff_cover]
  split_ifs at htiles with hin
  · omega
  · omega

theorem not_adjacent (hw : WellFormed h free live) {b c : Block} (hb : b ∈ free) (hc : c ∈ free) :
    b.addr + blkSize * b.units ≠ c.addr := by
  have hpos := hw.freeList.pos b hb
  by_cases hbc : b.span = c.span
  · have haddr : b.addr = c.addr := congrArg Span.start hbc
    simp only [blkSize]
    omega
  · have hapart := hw.separated.apart_of_ne (List.mem_map_of_mem hb) (List.mem_map_of_mem hc) hbc
    simp only [Block.span_start, Block.span_length, blkSize] at hapart ⊢
    omega

theorem span_inj {bs cs : List Block} (h : bs.map Block.span = cs.map Block.span) : bs = cs := by
  have hinj : Function.Injective Block.span := by
    rintro ⟨a, m⟩ ⟨b, n⟩ he
    simp only [Block.span, Span.mk.injEq, blkSize] at he
    obtain ⟨rfl, hmn⟩ := he
    have hmn' : m = n := by omega
    rw [hmn']
  exact hinj.list_map h

theorem free_unique (hw : WellFormed h free live) (hw' : WellFormed h' free' live')
    (hkheap : h'.kheap = h.kheap) (hlive : ∀ b, b ∈ live' ↔ b ∈ live) : free' = free := by
  apply span_inj
  apply hw'.separated.unique hw.separated
  intro a
  rw [hw'.covered_free, hw.covered_free, hkheap]
  simp only [Covered, List.mem_map, exists_exists_and_eq_and, hlive]

theorem kheap_aligned (hw : WellFormed h free live) : h.kheap % blkSize = 0 := by
  obtain ⟨s, hs, hcov⟩ := hw.tiles.exists_cover (le_refl _) (Nat.lt_add_of_pos_right (by decide))
  obtain ⟨b, hb, rfl⟩ := List.mem_map.mp hs
  have hin := hw.within hb
  have hal := hw.aligned b hb
  simp only [covers_iff, Block.span_start] at hcov
  have he : b.addr = h.kheap := by omega
  rw [← he]
  exact hal

theorem freeUnit_iff (hw : WellFormed h free live) {i : ℕ} (hi : i < heapSize / blkSize) :
    Arena.freeUnit ⟨h, live⟩ i = true ↔ Covered (free.map Block.span) (h.kheap + blkSize * i) := by
  rw [hw.covered_free]
  have hin : h.kheap ≤ h.kheap + blkSize * i ∧ h.kheap + blkSize * i < h.kheap + heapSize := by
    simp only [blkSize, heapSize] at *
    omega
  simp only [hin, true_and, Arena.freeUnit, List.all_eq_true, Bool.not_eq_true', Covered, List.mem_map,
    exists_exists_and_eq_and, not_exists, not_and, Bool.not_eq_true]

theorem freeRuns_eq (hw : WellFormed h free live) : Arena.freeRuns ⟨h, live⟩ = free.length := by
  have hkheap := hw.kheap_aligned
  have hin : ∀ b ∈ free, b.addr % blkSize = 0 ∧ h.kheap ≤ b.addr ∧
      b.addr + blkSize * b.units ≤ h.kheap + heapSize := by
    intro b hb
    exact ⟨hw.aligned b (List.mem_append_left _ hb), hw.within (List.mem_append_left _ hb)⟩
  -- the free blocks in headers from the start of the heap area on
  have hsep : Separated (free.map (fun b => ⟨(b.addr - h.kheap) / blkSize, b.units⟩)) := by
    constructor
    · intro s hs
      obtain ⟨b, hb, rfl⟩ := List.mem_map.mp hs
      exact hw.freeList.pos b hb
    · rw [List.pairwise_map]
      apply hw.freeList.apart.imp_of_mem
      intro b c hb hc hbc
      have hb' := hin b hb
      have hc' := hin c hc
      simp only [blkSize] at *
      omega
  rw [Arena.freeRuns, runs_eq hsep, List.length_map]
  · intro s hs
    obtain ⟨b, hb, rfl⟩ := List.mem_map.mp hs
    have hb' := hin b hb
    simp only [blkSize, heapSize] at *
    omega
  · intro i hi
    rw [hw.freeUnit_iff hi]
    simp only [Covered, List.mem_map, exists_exists_and_eq_and, covers_iff, Block.span_start,
      Block.span_length]
    constructor
    · rintro ⟨b, hb, hcov⟩
      have hb' := hin b hb
      refine ⟨b, hb, ?_⟩
      simp only [blkSize] at *
      omega
    · rintro ⟨b, hb, hcov⟩
      have hb' := hin b hb
      refine ⟨b, hb, ?_⟩
      simp only [blkSize] at *
      omega

theorem freeAll_eq (hw : WellFormed h free live) {bs : List Block} (hsub : ∀ b ∈ bs, b ∈ live)
    (hnodup : bs.Nodup) : ∃ h' free' live', freeAll h bs = some h' ∧ h'.kheap = h.kheap ∧
      WellFormed h' free' live' ∧ ∀ b, b ∈ live' ↔ b ∈ live ∧ b ∉ bs := by
  have hptrs : (bs.map (fun b => b.addr + blkSize)).Nodup := by
    apply List.Nodup.map_on _ hnodup
    intro b hb c hc he
    exact hw.eq_of_addr (hsub b hb) (hsub c hc) (by omega)
  have hheld : ∀ p ∈ bs.map (fun b => b.addr + blkSize), Held live p := by
    intro p hp
    obtain ⟨b, hb, rfl⟩ := List.mem_map.mp hp
    exact ⟨b, hsub b hb, rfl⟩
  obtain ⟨h', free', hk, hkheap, -, hw', -⟩ := hw.kfreeAll hptrs hheld
  refine ⟨h', free', _, hk, hkheap, hw', fun b => ?_⟩
  rw [mem_releaseAll, and_congr_right_iff, List.mem_map, not_iff_not]
  intro hb
  constructor
  · rintro ⟨c, hc, he⟩
    have hcb : c = b := hw.eq_of_addr (hsub c hc) hb (by omega)
    rw [← hcb]
    exact hc
  · intro hbs
    exact ⟨b, hbs, rfl⟩

end WellFormed

/-- In every state that `kmalloc` and `kfree` lead to: live blocks can be freed in any order, with the
same free list at the end; no two free blocks touch, so `count_free_block` counts the runs of free
headers; and once all live blocks are freed the heap is one block again. -/
theorem kfree_order_independent {h : Heap} {kheapStart : ℕ} {ops : List HeapOp} {s : Arena}
    (hal : kheapStart % blkSize = 0) (hbase : h.base < kheapStart) (hfreep : h.freep = h.base)
    (hrun : Run (fun s op t => HeapStep s op t ∧ op.Unaligned) ⟨initKheap h kheapStart, []⟩ ops s) :
    (∀ bs cs : List Block, bs.Nodup → (∀ b ∈ bs, b ∈ s.live) → bs.Perm cs →
      ∃ h₁ h₂ free, freeAll s.heap bs = some h₁ ∧ freeAll s.heap cs = some h₂ ∧
        freeBlocks h₁ = some free ∧ freeBlocks h₂ = some free) ∧
    (∃ free, freeBlocks s.heap = some free ∧
      (∀ b ∈ free, ∀ c ∈ free, b.addr + blkSize * b.units ≠ c.addr) ∧
      countFreeBlock s.heap = some s.freeRuns) ∧
    ∀ bs : List Block, bs.Perm s.live → ∃ h', freeAll s.heap bs = some h' ∧
      freeBlocks h' = some [⟨kheapStart, heapSize / blkSize⟩] := by
  obtain ⟨free, hw, hkheap, -⟩ := Arena.unaligned_wellFormed hal hbase hfreep hrun
  refine ⟨fun bs cs hnodup hsub hperm => ?_, ⟨free, hw.freeBlocks_eq, fun b hb c hc => ?_, ?_⟩,
    fun bs hperm => ?_⟩
  · obtain ⟨h₁, free₁, live₁, hk₁, hkheap₁, hw₁, hlive₁⟩ := hw.freeAll_eq hsub hnodup
    obtain ⟨h₂, free₂, live₂, hk₂, hkheap₂, hw₂, hlive₂⟩ :=
      hw.freeAll_eq (fun b hb => hsub b (hperm.mem_iff.mpr hb)) (hperm.nodup_iff.mp hnodup)
    have hsame : free₂ = free₁ := by
      apply hw₁.free_unique hw₂ (hkheap₂.trans hkheap₁.symm)
      intro b
      rw [hlive₁, hlive₂, hperm.mem_iff]
    exact ⟨h₁, h₂, free₁, hk₁, hk₂, hw₁.freeBlocks_eq, hsame ▸ hw₂.freeBlocks_eq⟩
  · exact hw.not_adjacent hb hc
  · rw [hw.countFreeBlock_eq, hw.freeRuns_eq]
  · obtain ⟨h', free', live', hk, hkheap', hw', hlive'⟩ :=
      hw.freeAll_eq (fun b hb => hperm.mem_iff.mp hb) (hperm.nodup_iff.mpr hw.nodup)
    have hinit := WellFormed.init hal hbase hfreep
    have hsame : free' = [⟨kheapStart, heapSize / blkSize⟩] := by
      apply hinit.free_unique hw' (hkheap'.trans hkheap)
      intro b
      rw [hlive', hperm.mem_iff]
      simp
    exact ⟨h', hk, hsame ▸ hw'.freeBlocks_eq⟩

theorem kfree_order_independent_example : ∃ s h₁ h₂ free,
    Run (fun s op t => HeapStep s op t ∧ op.Unaligned) ⟨initKheap zeroHeap 0x400000, []⟩
      [.kmalloc 1, .kmalloc 4, .kmalloc 8] s ∧ s.live = [⟨0x7fffa0, 2⟩, ⟨0x7fffc0, 2⟩, ⟨0x7fffe0, 2⟩] ∧
    freeAll s.heap [⟨0x7fffa0, 2⟩, ⟨0x7fffe0, 2⟩] = some h₁ ∧
    freeAll s.heap [⟨0x7fffe0, 2⟩, ⟨0x7fffa0, 2⟩] = some h₂ ∧
    freeBlocks h₁ = some free ∧ freeBlocks h₂ = some free := by
  have hvals : (kmalloc (initKheap zeroHeap 0x400000) 1).bind (fun x => (kmalloc x.2 4).bind
      (fun y => (kmalloc y.2 8).map (fun z => [x.1, x.2.size 0x7fffe0, y.1, y.2.size 0x7fffc0, z.1,
        z.2.size 0x7fffa0]))) = some [0x7ffff0, 2, 0x7fffd0, 2, 0x7fffb0, 2] := by decide +kernel
  obtain ⟨⟨r₁, h₁⟩, hk₁, hrest⟩ := Option.bind_eq_some_iff.mp hvals
  obtain ⟨⟨r₂, h₂⟩, hk₂, hrest⟩ := Option.bind_eq_some_iff.mp hrest
  obtain ⟨⟨r₃, h₃⟩, hk₃, hrest⟩ := Option.map_eq_some_iff.mp hrest
  simp only [List.cons.injEq, and_true] at hrest
  obtain ⟨rfl, hs₁, rfl, hs₂, rfl, hs₃⟩ := hrest
  have hstep : ∀ {h h' : Heap} {live : List Block} {size : ℤ} {r n : ℕ}, 0 ≤ size → size ≤ 2 ^ 31 - 16 →
      kmalloc h size = some (r, h') → r ≠ 0 → h'.size (r - blkSize) = n →
      HeapStep ⟨h, live⟩ (.kmalloc size) ⟨h', ⟨r - blkSize, n⟩ :: live⟩ := by
    intro h h' live size r n h0 hle hk hr hn
    have hs := HeapStep.kmalloc (s := ⟨h, live⟩) h0 hle hk
    rwa [Arena.gain, if_neg hr, hn] at hs
  have hrun : Run (fun s op t => HeapStep s op t ∧ op.Unaligned) ⟨initKheap zeroHeap 0x400000, []⟩
      [.kmalloc 1, .kmalloc 4, .kmalloc 8] ⟨h₃, [⟨0x7fffa0, 2⟩, ⟨0x7fffc0, 2⟩, ⟨0x7fffe0, 2⟩]⟩ :=
    .cons ⟨hstep (by decide) (by decide) hk₁ (by decide) hs₁, trivial⟩
      (.cons ⟨hstep (by decide) (by decide) hk₂ (by decide) hs₂, trivial⟩
        (.single ⟨hstep (by decide) (by decide) hk₃ (by decide) hs₃, trivial⟩))
  have hal : 0x400000 % blkSize = 0 := by decide
  have hbase : zeroHeap.base < 0x400000 := by decide
  obtain ⟨horders, -, -⟩ := kfree_order_independent hal hbase rfl hrun
  obtain ⟨h₁', h₂', free, hfree⟩ := horders [⟨0x7fffa0, 2⟩, ⟨0x7fffe0, 2⟩]
    [⟨0x7fffe0, 2⟩, ⟨0x7fffa0, 2⟩] (by decide) (by simp) (.swap ..)
  exact ⟨_, h₁', h₂', free, hrun, rfl, hfree⟩

end MinOS
