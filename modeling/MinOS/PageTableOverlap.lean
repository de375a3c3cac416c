import MinOS.FreeOrder
import MinOS.PageTables

namespace MinOS

open Library.Words Library.Arrays Library.Paging Library.Runs

def initKpaging (m : Memory) : Memory := createKpgtable m 0x300000

def MeetsTables (a n : ℕ) : Prop := a < 0x300000 + kpgtableSize ∧ 0x300000 < a + n

structure Arena.Apart (s : Arena) : Prop where
  live : ∀ b ∈ s.live, ¬ MeetsTables b.addr (blkSize * b.units)
  base : ¬ MeetsTables s.heap.base blkSize
  free : ∀ free, freeBlocks s.heap = some free → ∀ b ∈ free, ¬ MeetsTables b.addr blkSize

def HeapOp.Oversized : HeapOp → Prop
  | .kmalloc size => heapSize / blkSize < nunits size
  | _ => True

section Overlap

variable {h : Heap} {kheapStart : ℕ} {ops : List HeapOp} {op : HeapOp} {s t : Arena}

theorem init_step (hal : kheapStart % blkSize = 0) (hbase : h.base < kheapStart)
    (hfreep : h.freep = h.base) (hstep : HeapStep ⟨initKheap h kheapStart, []⟩ op t)
    (hplain : op.Unaligned) : op.Oversized ∧ t = ⟨initKheap h kheapStart, []⟩ ∨
      ¬ op.Oversized ∧ ∃ b ∈ t.live, 0 < b.units ∧
        b.addr + blkSize * b.units = kheapStart + heapSize := by
  have hw := WellFormed.init hal hbase hfreep
  cases hstep with
  | @kmalloc size r h' h0 hle hk =>
    obtain ⟨n, rfl⟩ : ∃ n : ℕ, size = n := Int.eq_ofNat_of_zero_le h0
    have hn : n ≤ 2 ^ 31 - 16 := by omega
    rcases kmalloc_cases hw hn with ⟨hsmall, hk'⟩ | ⟨pre, q, as, b, bs, hq, hfree, hle, hk'⟩
    · left
      obtain ⟨rfl, rfl⟩ := Prod.mk.inj (Option.some.inj (hk.symm.trans hk'))
      exact ⟨hsmall _ (List.mem_singleton_self _), rfl⟩
    · right
      have hmem : b ∈ as ++ b :: bs := List.mem_append_right _ (List.mem_cons_self ..)
      rw [← hfree] at hmem
      obtain rfl := List.mem_singleton.mp hmem
      have hsize := hw.freeList.sizes _ (List.mem_singleton_self _)
      have hfst := takeBlock_fst (initKheap h kheapStart) q (nunits n) hsize
      have htail := takeBlock_size (initKheap h kheapStart) q (nunits n) hsize
      have hpos := nunits_pos hn
      rw [hk, Option.some.injEq] at hk'
      rw [← hk'] at hfst htail
      have hr : (tailBlock ⟨kheapStart, heapSize / blkSize⟩ (nunits n)).addr + blkSize ≠ 0 := by
        simp [blkSize]
      dsimp only at hfst htail
      subst hfst
      refine ⟨Nat.not_lt.mpr hle, tailBlock ⟨kheapStart, heapSize / blkSize⟩ (nunits n), ?_, ?_, ?_⟩
      · rw [Arena.gain, if_neg hr, Nat.add_sub_cancel, htail]
        exact List.mem_cons_self ..
      · simpa only [tailBlock] using hpos
      · simp only [tailBlock, blkSize, heapSize] at *
        omega
  | kmallocAlignas => cases hplain
  | kfree hb => cases hb
  | write hmem =>
    left
    rename_i mem
    have hsame : mem = (initKheap h kheapStart).mem := by
      funext a
      by_contra hne
      obtain ⟨b, hb, -⟩ := hmem a hne
      cases hb
    rw [hsame]
    exact ⟨trivial, rfl⟩

theorem init_freeBlocks (hal : kheapStart % blkSize = 0) (hbase : h.base < kheapStart)
    (hfreep : h.freep = h.base) :
    freeBlocks (initKheap h kheapStart) = some [⟨kheapStart, heapSize / blkSize⟩] :=
  (WellFormed.init hal hbase hfreep).freeBlocks_eq

theorem init_apart (hal : kheapStart % blkSize = 0) (hbase : h.base + blkSize ≤ kheapStart)
    (hhi : kheapStart ≤ 0x300000) (hfreep : h.freep = h.base) :
    Arena.Apart ⟨initKheap h kheapStart, []⟩ ↔ kheapStart < 0x300000 := by
  have hlt : h.base < kheapStart := by
    simp only [blkSize] at hbase
    omega
  have hfree := init_freeBlocks hal hlt hfreep
  constructor
  · intro hapart
    have hhead := hapart.free _ hfree _ (List.mem_singleton_self _)
    simp only [MeetsTables, blkSize, kpgtableSize, page4kb] at *
    omega
  · intro hbelow
    constructor
    · intro b hb
      cases hb
    · have hb : (initKheap h kheapStart).base = h.base := rfl
      simp only [hb, MeetsTables, blkSize] at *
      omega
    · intro free hfree' b hb
      obtain rfl := Option.some.inj (hfree'.symm.trans hfree)
      obtain rfl := List.mem_singleton.mp hb
      simp only [MeetsTables, blkSize] at *
      omega

theorem run_oversized (hal : kheapStart % blkSize = 0) (hbase : h.base < kheapStart)
    (hfreep : h.freep = h.base)
    (hrun : Run (fun s op t => HeapStep s op t ∧ op.Unaligned) ⟨initKheap h kheapStart, []⟩ ops s)
    (hover : ∀ op ∈ ops, op.Oversized) : s = ⟨initKheap h kheapStart, []⟩ := by
  induction hrun with
  | nil => rfl
  | snoc hrun hstep ih =>
    obtain rfl := ih (fun op hop => hover op (List.mem_append_left _ hop))
    rcases init_step hal hbase hfreep hstep.1 hstep.2 with ⟨-, rfl⟩ | ⟨hfits, -⟩
    · rfl
    · exact absurd (hover _ (by simp)) hfits

theorem not_apart (hlo : 0x101000 ≤ kheapStart) (hhi : kheapStart ≤ 0x300000)
    (hlast : ∃ b ∈ s.live, 0 < b.units ∧ b.addr + blkSize * b.units = kheapStart + heapSize) :
    ¬ s.Apart := by
  intro hapart
  obtain ⟨b, hb, hpos, hend⟩ := hlast
  have hclear := hapart.live b hb
  simp only [MeetsTables, kpgtableSize, page4kb, blkSize, heapSize] at *
  omega

/-- Along a run the blocks and headers stay clear of the page tables exactly if the heap area starts
below them and no request is ever answered with a block. -/
theorem kmalloc_apart_iff (hal : kheapStart % blkSize = 0) (hlo : 0x101000 ≤ kheapStart)
    (hbase : h.base + blkSize ≤ kheapStart) (hhi : kheapStart ≤ 0x300000) (hfreep : h.freep = h.base)
    (hrun : Run (fun s op t => HeapStep s op t ∧ op.Unaligned) ⟨initKheap h kheapStart, []⟩ ops s) :
    (∀ ops₁ ops₂ t, ops = ops₁ ++ ops₂ →
        Run (fun s op t => HeapStep s op t ∧ op.Unaligned) ⟨initKheap h kheapStart, []⟩ ops₁ t →
        Run (fun s op t => HeapStep s op t ∧ op.Unaligned) t ops₂ s → t.Apart) ↔
      kheapStart < 0x300000 ∧ ∀ op ∈ ops, op.Oversized := by
  have hlt : h.base < kheapStart := by
    simp only [blkSize] at hbase
    omega
  have hinit := init_apart hal hbase hhi hfreep
  constructor
  · intro hall
    refine ⟨hinit.mp (hall [] ops _ rfl .nil hrun), ?_⟩
    induction hrun with
    | nil => simp
    | @snoc ops t op u hrun hstep ih =>
      have hover := ih (fun ops₁ ops₂ v he hv hrest =>
        hall ops₁ (ops₂ ++ [op]) v (by rw [he, List.append_assoc]) hv (hrest.snoc hstep))
      obtain rfl := run_oversized hal hlt hfreep hrun hover
      rcases init_step hal hlt hfreep hstep.1 hstep.2 with ⟨hop, -⟩ | ⟨-, hlast⟩
      · intro op' hop'
        rcases List.mem_append.mp hop' with hop' | hop'
        · exact hover op' hop'
        · exact List.mem_singleton.mp hop' ▸ hop
      · have hapart := hall (ops ++ [op]) [] u (by simp) (hrun.snoc hstep) .nil
        exact absurd hapart (not_apart hlo hhi hlast)
  · rintro ⟨hbelow, hover⟩ ops₁ ops₂ t rfl hrun₁ -
    obtain rfl := run_oversized hal hlt hfreep hrun₁ (fun op hop => hover op (List.mem_append_left _ hop))
    exact hinit.mpr hbelow

end Overlap

def imageHeap : Heap := ⟨fun _ => ⟨0, 0⟩, 0x1ffff0, 0, 0x1ffff0⟩

theorem kmalloc_apart_iff_example : ∃ s,
    Run (fun s op t => HeapStep s op t ∧ op.Unaligned) ⟨initKheap imageHeap 0x200000, []⟩
      [.kmalloc 0x400000] s ∧ s.Apart := by
  have hk : (kmalloc (initKheap imageHeap 0x200000) 0x400000).map Prod.fst = some 0 := by decide +kernel
  obtain ⟨⟨r, h'⟩, hk, -⟩ := Option.map_eq_some_iff.mp hk
  have hstep : HeapStep ⟨initKheap imageHeap 0x200000, []⟩ (.kmalloc 0x400000) _ :=
    .kmalloc (by decide) (by decide) hk
  have hrun : Run (fun s op t => HeapStep s op t ∧ op.Unaligned) ⟨initKheap imageHeap 0x200000, []⟩
      [.kmalloc 0x400000] _ := .single ⟨hstep, trivial⟩
  have hiff := kmalloc_apart_iff (by decide) (by decide) (by decide) (by decide) rfl hrun
  have hover : ∀ op ∈ [HeapOp.kmalloc 0x400000], op.Oversized := by
    simp only [List.mem_singleton, forall_eq, HeapOp.Oversized]
    decide
  exact ⟨_, hrun, hiff.mpr ⟨by decide, hover⟩ _ [] _ rfl hrun .nil⟩

/-- The first block of a client covers an entry of a page table, and a client that writes a zero there
takes a page out of the translation. -/
theorem kmalloc_meets_tables : ∃ (s : Arena) (b : Block) (a v : Word),
    Run (fun s op t => HeapStep s op t ∧ op.Unaligned) ⟨initKheap imageHeap 0x200000, []⟩
      [.kmalloc 16] s ∧ b ∈ s.live ∧ MeetsTables b.addr (blkSize * b.units) ∧ ¬ s.Apart ∧
    b.addr + blkSize ≤ a.toNat ∧ a.toNat + 8 ≤ b.addr + blkSize * b.units ∧
    walk (initKpaging (fun _ => 0)) 4 0x300000 v = some (v, true) ∧
    walk (store64 (initKpaging (fun _ => 0)) a 0) 4 0x300000 v = none := by
  have hvals : (kmalloc (initKheap imageHeap 0x200000) 16).map
      (fun x => [x.1, x.2.size 0x5fffe0]) = some [0x5ffff0, 2] := by decide +kernel
  obtain ⟨⟨r, h'⟩, hk, hr⟩ := Option.map_eq_some_iff.mp hvals
  obtain ⟨rfl, hsize⟩ : r = 0x5ffff0 ∧ h'.size 0x5fffe0 = 2 := by simpa using hr
  have hstep : HeapStep ⟨initKheap imageHeap 0x200000, []⟩ (.kmalloc 16) _ :=
    .kmalloc (by decide) (by decide) hk
  have hlive : (Arena.gain ⟨initKheap imageHeap 0x200000, []⟩ 0x5ffff0 h').live = [⟨0x5fffe0, 2⟩] := by
    simp [Arena.gain, blkSize, hsize]
  have hmem : ⟨0x5fffe0, 2⟩ ∈ (Arena.gain ⟨initKheap imageHeap 0x200000, []⟩ 0x5ffff0 h').live := by
    rw [hlive]
    exact List.mem_singleton_self _
  have hmeets : MeetsTables 0x5fffe0 (blkSize * 2) := ⟨by decide, by decide⟩
  have haddr : (0x5ffff0 : Word) = offset (tableAt 0x300000 517) (8 * ((0x1f5fe000 : Word).toNat / 4096)) := by
    decide
  obtain ⟨hlow, -, -⟩ := createKpgtable_identity (fun _ => 0) 0x300000 (by decide) (by decide)
  have hnone := walk_store_zero (m := fun _ => 0) (a := 0x300000) (v := 0x1f5fe000) (by decide) (by decide)
    (by decide)
  rw [← haddr] at hnone
  exact ⟨_, ⟨0x5fffe0, 2⟩, 0x5ffff0, 0x1f5fe000, .single ⟨hstep, trivial⟩, hmem, hmeets,
    fun hapart => hapart.live _ hmem hmeets, by decide, by decide, hlow _ (by decide), hnone⟩

end MinOS
