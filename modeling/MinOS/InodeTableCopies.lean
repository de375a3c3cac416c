import MinOS.Ext2Bounds
import MinOS.Ext2Tables
import MinOS.FreeOrder

namespace MinOS

open Library.Tilings

structure TableMemory where
  tables : ℕ → InodeTable
  heap : Heap

namespace Ext2

def buildInodeTableAt (e : Ext2) (d : Disk) (buffer : Heap → Option Heap) (m : TableMemory) :
    Option (ℕ × TableMemory) :=
  if e.inodesPerBlock = 0 then none
  else do
    let (inodeTable, h) ← kmalloc m.heap e.tableSize
    if inodeTable = 0 then none
    else do
      let (table, h) ← e.readBlocks d buffer e.nblockInodeTable 0 (fun _ => [], h)
      some (inodeTable, ⟨Function.update m.tables inodeTable table, h⟩)

def callCreateInodeTable (e : Ext2) (d : Disk) (m : TableMemory) : Option (ℕ × TableMemory) :=
  e.buildInodeTableAt d some m

/-- The pointer of the caller of `create_inode_table2` after the call, and the memory. The last
statement assigns to the parameter, which is a copy of `inode`. -/
def callCreateInodeTable2 (e : Ext2) (d : Disk) (inode : ℕ) (m : TableMemory) :
    Option (ℕ × TableMemory) :=
  (e.buildInodeTableAt d e.allocBuffer m).map (fun x => (inode, x.2))

end Ext2

def HeldMore (h h' : Heap) (k : ℕ) : Prop :=
  ∃ free live free' live', WellFormed h free live ∧ WellFormed h' free' live' ∧
    live'.length = live.length + k

structure SameTable (m : TableMemory) (x y : ℕ × TableMemory) : Prop where
  head : y.1 = x.1
  table : y.2.tables y.1 = x.2.tables x.1
  held : HeldMore m.heap x.2.heap 1
  held2 : HeldMore m.heap y.2.heap 1

namespace WellFormed

variable {h : Heap} {free live free' live' : List Block}

theorem blocks_subset (hw : WellFormed h free live) (hw' : WellFormed h free' live') :
    free ++ live ⊆ free' ++ live' := by
  have hlength : ∀ {free live}, WellFormed h free live → ∀ s ∈ (free ++ live).map Block.span,
      s.length = blkSize * h.size s.start := by
    intro free live hw s hs
    obtain ⟨b, hb, rfl⟩ := List.mem_map.mp hs
    rcases List.mem_append.mp hb with hb | hb
    · rw [Block.span_length, Block.span_start, hw.freeList.sizes b hb]
    · rw [Block.span_length, Block.span_start, hw.headers b hb]
  have hsub := hw.tiles.subset hw'.tiles (f := fun a => blkSize * h.size a) (hlength hw) (hlength hw')
    hw.span_pos hw'.span_pos
  intro b hb
  obtain ⟨c, hc, heq⟩ := List.mem_map.mp (hsub (List.mem_map_of_mem hb))
  obtain ⟨a, m⟩ := c
  obtain ⟨a', n⟩ := b
  have haddr := congrArg Span.start heq
  have hunits := congrArg Span.length heq
  simp only [Block.span_start, Block.span_length, blkSize] at haddr hunits
  obtain rfl : m = n := by omega
  rw [← haddr]
  exact hc

theorem live_subset (hw : WellFormed h free live) (hw' : WellFormed h free' live') : live ⊆ live' := by
  have hfree : free' = free :=
    Option.some.inj (hw'.freeBlocks_eq.symm.trans hw.freeBlocks_eq)
  intro b hb
  rcases List.mem_append.mp (hw.blocks_subset hw' (List.mem_append_right free hb)) with hmem | hmem
  · have hapart := hw.apart (hfree ▸ hmem) hb
    have hpos := hw.live_pos b hb
    unfold blkSize at hapart
    omega
  · exact hmem

theorem live_length_eq (hw : WellFormed h free live) (hw' : WellFormed h free' live') :
    live'.length = live.length :=
  le_antisymm (hw'.nodup.subperm (hw'.live_subset hw)).length_le
    (hw.nodup.subperm (hw.live_subset hw')).length_le

end WellFormed

theorem HeldMore.unique {h h' : Heap} {k n : ℕ} (hk : HeldMore h h' k) (hn : HeldMore h h' n) :
    k = n := by
  obtain ⟨free, live, free', live', hw, hw', hlen⟩ := hk
  obtain ⟨free₁, live₁, free₂, live₂, hw₁, hw₂, hlen₁⟩ := hn
  have hbefore := hw.live_length_eq hw₁
  have hafter := hw'.live_length_eq hw₂
  omega

theorem HeldMore.trans {h h' h'' : Heap} {k n : ℕ} (hk : HeldMore h h' k) (hn : HeldMore h' h'' n) :
    HeldMore h h'' (k + n) := by
  obtain ⟨free, live, free', live', hw, hw', hlen⟩ := hk
  obtain ⟨free₁, live₁, free₂, live₂, hw₁, hw₂, hlen₁⟩ := hn
  have hmid := hw'.live_length_eq hw₁
  exact ⟨free, live, free₂, live₂, hw, hw₂, by omega⟩

theorem WellFormed.heldMore {h : Heap} {free live : List Block} (hw : WellFormed h free live) :
    HeldMore h h 0 := ⟨free, live, free, live, hw, hw, rfl⟩

theorem WellFormed.kmalloc_heldMore {h h' : Heap} {free live : List Block} {size : ℤ} {r : ℕ}
    (hw : WellFormed h free live) (hpos : 0 < nunits size) (hk : kmalloc h size = some (r, h'))
    (hr : r ≠ 0) : HeldMore h h' 1 := by
  rcases kmalloc_cases_of_pos hw hpos with ⟨-, hnone⟩ | ⟨pre, q, as, b, bs, hq, rfl, hle, hsome⟩
  · obtain ⟨rfl, -⟩ := Prod.mk.inj (Option.some.inj (hk.symm.trans hnone))
    exact absurd rfl hr
  · obtain rfl := (congrArg Prod.snd (Option.some.inj (hk.symm.trans hsome)) :)
    exact ⟨_, _, _, _, hw, hw.takeBlock hq hpos hle, rfl⟩

theorem HeldMore.wellFormed {h h' : Heap} {k : ℕ} (hk : HeldMore h h' k) :
    ∃ free live, WellFormed h' free live := by
  obtain ⟨_, _, free', live', _, hw', _⟩ := hk
  exact ⟨free', live', hw'⟩

namespace Ext2

variable {e : Ext2} {d : Disk} {buffer : Heap → Option Heap} {m : TableMemory} {x y : ℕ × TableMemory}
  {h : Heap} {free live : List Block} {n i k : ℕ}

theorem buildInodeTableAt_eq : e.buildInodeTableAt d buffer m = some x ↔
    e.inodesPerBlock ≠ 0 ∧ ∃ r h', kmalloc m.heap e.tableSize = some (r, h') ∧ r ≠ 0 ∧
      ∃ table h, e.readBlocks d buffer e.nblockInodeTable 0 (fun _ => [], h') = some (table, h) ∧
        x = (r, ⟨Function.update m.tables r table, h⟩) := by
  rw [buildInodeTableAt]
  split_ifs with hipb
  · simp [hipb]
  · simp only [Option.bind_eq_bind, Option.bind_eq_some_iff, Prod.exists]
    constructor
    · rintro ⟨r, h', hk, hrest⟩
      split_ifs at hrest with hnull
      obtain ⟨⟨table, h⟩, hread, hx⟩ := Option.bind_eq_some_iff.mp hrest
      exact ⟨hipb, r, h', hk, hnull, table, h, hread, (Option.some.inj hx).symm⟩
    · rintro ⟨-, r, h', hk, hnull, table, h, hread, rfl⟩
      refine ⟨r, h', hk, (if_neg hnull).trans ?_⟩
      rw [hread]
      rfl

theorem buildInodeTableAt_table (hx : e.buildInodeTableAt d buffer m = some x) :
    e.buildInodeTable d buffer m.heap = some (x.2.tables x.1, x.2.heap) := by
  obtain ⟨hipb, r, h', hk, hnull, table, h, hread, rfl⟩ := buildInodeTableAt_eq.mp hx
  refine buildInodeTable_eq.mpr ⟨hipb, r, h', hk, hnull, hread.trans ?_⟩
  dsimp only
  rw [Function.update_self]

theorem allocBuffer_heldMore {h' : Heap} (hsize : e.blockSize < 2 ^ 16) (hw : WellFormed h free live)
    (hbuffer : e.allocBuffer h = some h') : HeldMore h h' 1 := by
  obtain ⟨r, hk, hnull⟩ := allocBuffer_eq.mp hbuffer
  exact hw.kmalloc_heldMore (e.nunits_bufferSize_pos hsize) hk hnull

theorem readBlocks_heldMore {u v : InodeTable × Heap}
    (hbuffer : ∀ {h h' free live}, WellFormed h free live → buffer h = some h' → HeldMore h h' k)
    (hw : WellFormed u.2 free live) (hread : e.readBlocks d buffer n i u = some v) :
    HeldMore u.2 v.2 (n * k) := by
  induction n generalizing i u free live with
  | zero =>
    obtain rfl := Option.some.inj hread
    rw [Nat.zero_mul]
    exact hw.heldMore
  | succ n ih =>
    obtain ⟨table, h⟩ := u
    obtain ⟨h₁, hb, hrest⟩ := Option.bind_eq_some_iff.mp hread
    obtain ⟨inodes, -, hrest⟩ := Option.bind_eq_some_iff.mp hrest
    have hone := hbuffer hw hb
    obtain ⟨free₁, live₁, hw₁⟩ := hone.wellFormed
    have hmore := hone.trans (ih hw₁ hrest)
    rwa [Nat.add_comm, ← Nat.succ_mul] at hmore

theorem buildInodeTableAt_heldMore
    (hbuffer : ∀ {h h' free live}, WellFormed h free live → buffer h = some h' → HeldMore h h' k)
    (hw : WellFormed m.heap free live) (hx : e.buildInodeTableAt d buffer m = some x) :
    HeldMore m.heap x.2.heap (1 + e.nblockInodeTable * k) := by
  obtain ⟨-, r, h', hk, hnull, table, h, hread, rfl⟩ := buildInodeTableAt_eq.mp hx
  have hone := hw.kmalloc_heldMore e.nunits_tableSize_pos hk hnull
  obtain ⟨free₁, live₁, hw₁⟩ := hone.wellFormed
  exact hone.trans (readBlocks_heldMore hbuffer hw₁ hread)

theorem callCreateInodeTable_heldMore (hw : WellFormed m.heap free live)
    (hx : e.callCreateInodeTable d m = some x) : HeldMore m.heap x.2.heap 1 := by
  apply buildInodeTableAt_heldMore (k := 0) _ hw hx
  rintro h h' free live hw ⟨⟩
  exact hw.heldMore

theorem callCreateInodeTable2_eq {inode : ℕ} : e.callCreateInodeTable2 d inode m = some y ↔
    ∃ z, e.buildInodeTableAt d e.allocBuffer m = some z ∧ y = (inode, z.2) := by
  rw [callCreateInodeTable2, Option.map_eq_some_iff]
  simp only [eq_comm]

theorem callCreateInodeTable2_heldMore {inode : ℕ} (hsize : e.blockSize < 2 ^ 16)
    (hw : WellFormed m.heap free live) (hy : e.callCreateInodeTable2 d inode m = some y) :
    HeldMore m.heap y.2.heap (1 + e.nblockInodeTable) := by
  obtain ⟨z, hz, rfl⟩ := callCreateInodeTable2_eq.mp hy
  have hmore := buildInodeTableAt_heldMore (k := 1) (allocBuffer_heldMore hsize) hw hz
  rwa [Nat.mul_one] at hmore

theorem readBlocks_table_eq {buffer' : Heap → Option Heap} {u v : InodeTable × Heap}
    {table : InodeTable} {h h' : Heap} (hu : e.readBlocks d buffer n i (table, h) = some u)
    (hv : e.readBlocks d buffer' n i (table, h') = some v) : u.1 = v.1 := by
  induction n generalizing i table h h' with
  | zero =>
    obtain rfl := Option.some.inj hu
    obtain rfl := Option.some.inj hv
    rfl
  | succ n ih =>
    obtain ⟨h₁, -, hu⟩ := Option.bind_eq_some_iff.mp hu
    obtain ⟨h₂, -, hv⟩ := Option.bind_eq_some_iff.mp hv
    obtain ⟨inodes, hread, hu⟩ := Option.bind_eq_some_iff.mp hu
    rw [hread] at hv
    exact ih hu hv

theorem buildInodeTableAt_same {buffer' : Heap → Option Heap} (hx : e.buildInodeTableAt d buffer m = some x)
    (hy : e.buildInodeTableAt d buffer' m = some y) : y.1 = x.1 ∧ y.2.tables = x.2.tables := by
  obtain ⟨-, r, h', hk, -, table, h, hread, rfl⟩ := buildInodeTableAt_eq.mp hx
  obtain ⟨-, r', h₁, hk', -, table', h₂, hread', rfl⟩ := buildInodeTableAt_eq.mp hy
  obtain ⟨rfl, rfl⟩ := Prod.mk.inj (Option.some.inj (hk'.symm.trans hk))
  have htable : table = table' := readBlocks_table_eq hread hread'
  rw [htable]
  exact ⟨rfl, rfl⟩

theorem not_sameTable (hx : e.callCreateInodeTable d m = some x)
    (hy : e.callCreateInodeTable2 d 0 m = some y) : x.1 ≠ 0 ∧ y.1 = 0 ∧ ¬ SameTable m x y := by
  obtain ⟨-, r, h', -, hnull, table, h, -, rfl⟩ := buildInodeTableAt_eq.mp hx
  obtain ⟨z, -, rfl⟩ := callCreateInodeTable2_eq.mp hy
  exact ⟨hnull, rfl, fun hsame => hnull hsame.head.symm⟩

/-- The caller of `create_inode_table2` does not get the table, which stands where
`create_inode_table` has it, and every block of it costs a heap block that is not given back. -/
theorem createInodeTable2_differs (hsize : e.blockSize < 2 ^ 16) (hw : WellFormed m.heap free live)
    (hx : e.callCreateInodeTable d m = some x) (hy : e.callCreateInodeTable2 d 0 m = some y) :
    ¬ SameTable m x y ∧ x.1 ≠ 0 ∧ y.1 = 0 ∧ y.2.tables x.1 = x.2.tables x.1 ∧
      HeldMore m.heap x.2.heap 1 ∧ (HeldMore m.heap y.2.heap 1 ↔ e.sInodesPerGroup = 0) := by
  obtain ⟨hnull, hcaller, hdiffers⟩ := not_sameTable hx hy
  have hmore := callCreateInodeTable2_heldMore hsize hw hy
  obtain ⟨z, hz, rfl⟩ := callCreateInodeTable2_eq.mp hy
  refine ⟨hdiffers, hnull, hcaller, ?_, callCreateInodeTable_heldMore hw hx, ?_⟩
  · exact congrFun (buildInodeTableAt_same hx hz).2 x.1
  · rw [← nblock_eq_zero_iff]
    constructor
    · intro hone
      have hunique := hone.unique hmore
      omega
    · intro hzero
      rwa [hzero] at hmore

end Ext2

def oneBlock : Ext2 := ⟨1024, 11, 8, 5⟩

def freshMemory : TableMemory := ⟨fun _ _ => [], freshHeap⟩

theorem oneBlock_runs : ∃ x y, oneBlock.callCreateInodeTable (fun _ => 0) freshMemory = some x ∧
    oneBlock.callCreateInodeTable2 (fun _ => 0) 0 freshMemory = some y := by
  have hx : (oneBlock.callCreateInodeTable (fun _ => 0) freshMemory).isSome = true := by decide +kernel
  have hy : (oneBlock.callCreateInodeTable2 (fun _ => 0) 0 freshMemory).isSome = true := by
    decide +kernel
  obtain ⟨x, hx⟩ := Option.isSome_iff_exists.mp hx
  obtain ⟨y, hy⟩ := Option.isSome_iff_exists.mp hy
  exact ⟨x, y, hx, hy⟩

theorem createInodeTable2_differs_oneBlock : ∃ x y : ℕ × TableMemory,
    ¬ SameTable freshMemory x y ∧ x.1 ≠ 0 ∧ y.1 = 0 ∧ y.2.tables x.1 = x.2.tables x.1 ∧
      HeldMore freshHeap x.2.heap 1 ∧ (HeldMore freshHeap y.2.heap 1 ↔ oneBlock.sInodesPerGroup = 0) := by
  obtain ⟨x, y, hx, hy⟩ := oneBlock_runs
  exact ⟨x, y, Ext2.createInodeTable2_differs (by decide) freshHeap_wellFormed hx hy⟩

theorem oneBlock_not_delivered : ∃ x y,
    oneBlock.callCreateInodeTable (fun _ => 0) freshMemory = some x ∧
    oneBlock.callCreateInodeTable2 (fun _ => 0) 0 freshMemory = some y ∧
    ¬ SameTable freshMemory x y := by
  obtain ⟨x, y, hx, hy⟩ := oneBlock_runs
  exact ⟨x, y, hx, hy, (Ext2.not_sameTable hx hy).2.2⟩

end MinOS
