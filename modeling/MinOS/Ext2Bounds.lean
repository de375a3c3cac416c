import MinOS.AllocationAnswers
import MinOS.Ext2

namespace MinOS

open Library.Images Library.Integers

inductive Ext2Event
  | shift (count : ℕ)
  | divide (divisor : ℕ)
  | store (inodeTable : ℕ) (size : ℤ) (index : ℕ)
deriving DecidableEq

def Ext2Event.Right : Ext2Event → Prop
  | .shift count => count < 32
  | .divide divisor => divisor ≠ 0
  | .store inodeTable size index => inodeTable ≠ 0 ∧ sizeofInode * (index + 1) ≤ size

def RunsRight (run : Option (List Ext2Event)) : Prop := ∃ t, run = some t ∧ ∀ ev ∈ t, ev.Right

namespace Ext2

def storeEvents (e : Ext2) (inodeTable i : ℕ) : List Ext2Event :=
  (List.range e.inodesPerBlock).map (fun j =>
    .store inodeTable e.tableSize ((i + j + (e.inodesPerBlock - 1) * i) % 2 ^ 32))

def loopEvents (e : Ext2) (inodeTable : ℕ) (buffer : Heap → Option Heap) :
    ℕ → ℕ → Heap → Option (List Ext2Event)
  | 0, _, _ => some []
  | n + 1, i, h => do
    let h ← buffer h
    let rest ← loopEvents e inodeTable buffer n (i + 1) h
    some (e.storeEvents inodeTable i ++ rest)

def buildEvents (e : Ext2) (buffer : Heap → Option Heap) (h : Heap) : Option (List Ext2Event) :=
  if e.inodesPerBlock = 0 then some [.divide 0]
  else do
    let (inodeTable, h) ← kmalloc h e.tableSize
    let stores ← e.loopEvents inodeTable buffer e.nblockInodeTable 0 h
    some (.divide e.inodesPerBlock :: .divide e.inodesPerBlock :: stores)

def createInodeTableEvents (e : Ext2) (h : Heap) : Option (List Ext2Event) :=
  if e.blockSize = 0 then some [] else e.buildEvents some h

def requestBuffer (e : Ext2) (h : Heap) : Option Heap := (kmalloc h e.bufferSize).map Prod.snd

def createInodeTable2Events (e : Ext2) (h : Heap) : Option (List Ext2Event) :=
  e.buildEvents e.requestBuffer h

def inodes (e : Ext2) : ℕ := e.inodesPerBlock * e.nblockInodeTable

def KeepsHeap (buffer : Heap → Option Heap) : Prop := ∀ h free live, WellFormed h free live →
  ∃ h' free' live', buffer h = some h' ∧ WellFormed h' free' live'

def TableFits (e : Ext2) (free : List Block) : Prop :=
  e.sInodesPerGroup = 0 ∨ Roomy free (sizeofInode / blkSize * e.inodes + 1)

end Ext2

namespace Ext2

variable {e : Ext2} {h : Heap} {free live : List Block} {buffer : Heap → Option Heap} {r n i : ℕ}

theorem tableSize_lt (e : Ext2) : e.tableSize < 2 ^ 31 := by
  have hbmod := Int.bmod_lt (x := sizeofInode * e.tableLen) (m := 2 ^ 32) (by decide)
  rw [tableSize, int32]
  omega

theorem tableLen_eq (h : sizeofInode * e.inodes < 2 ^ 31) : e.tableLen = e.inodes := by
  unfold sizeofInode at h
  rw [tableLen, ← inodes]
  exact int32_eq (by omega) (by omega)

theorem tableSize_eq (h : sizeofInode * e.inodes < 2 ^ 31) : e.tableSize = (sizeofInode * e.inodes : ℕ) := by
  rw [tableSize, tableLen_eq h, Nat.cast_mul]
  unfold sizeofInode at h
  exact int32_eq (by unfold sizeofInode; omega) (by unfold sizeofInode; omega)

theorem nunits_tableSize_pos (e : Ext2) : 0 < nunits e.tableSize := by
  have hmod : e.tableSize % 128 = 0 := by
    have hwrap := int32_emod (sizeofInode * e.tableLen)
    rw [← tableSize] at hwrap
    unfold sizeofInode at hwrap
    omega
  have hlo := Int.le_bmod (x := sizeofInode * e.tableLen) (m := 2 ^ 32) (by decide)
  rw [← int32, ← tableSize] at hlo
  have hhi := e.tableSize_lt
  generalize e.tableSize = size at hmod hlo hhi
  have hround : roundUpBlock size blkSize = (size + 15).tdiv 16 := by
    rw [roundUpBlock, blkSize, int32_sub, int32_eq (by omega) (by omega)]
    congr 1
    omega
  have hunits : -2 ^ 27 ≤ (size + 15).tdiv 16 ∧ (size + 15).tdiv 16 < 2 ^ 27 ∧
      (size + 15).tdiv 16 ≠ -1 := by
    rw [Int.tdiv_eq_ediv, Int.sign_eq_one_of_pos (by decide)]
    split_ifs <;> omega
  rw [nunits, hround, int32_eq (by omega) (by omega), uint64]
  omega

theorem nunits_bufferSize_pos (e : Ext2) (hsize : e.blockSize < 2 ^ 16) : 0 < nunits e.bufferSize := by
  have hipb : sizeofInode * e.inodesPerBlock ≤ e.blockSize := Nat.mul_div_le e.blockSize sizeofInode
  have hbuffer : e.bufferSize = (sizeofInode * e.inodesPerBlock + 2 : ℕ) :=
    int32_eq (by omega) (by omega)
  rw [hbuffer]
  exact nunits_pos (by omega)

theorem keepsHeap_requestBuffer (hsize : e.blockSize < 2 ^ 16) : KeepsHeap e.requestBuffer := by
  intro h free live hw
  obtain ⟨r, h', free', live', hk, hw'⟩ := hw.kmalloc_keeps (e.nunits_bufferSize_pos hsize)
  exact ⟨h', free', live', Option.map_eq_some_iff.mpr ⟨_, hk, rfl⟩, hw'⟩

theorem keepsHeap_some : KeepsHeap some := fun h free live hw => ⟨h, free, live, rfl, hw⟩

theorem loopEvents_returns (hbuffer : KeepsHeap buffer) (hw : WellFormed h free live) :
    e.loopEvents r buffer n i h = some ((List.range' i n).flatMap (e.storeEvents r)) := by
  induction n generalizing i h free live with
  | zero => rfl
  | succ n ih =>
    obtain ⟨h', free', live', hnext, hw'⟩ := hbuffer h free live hw
    rw [loopEvents, hnext, Option.bind_eq_bind, Option.bind_some, ih hw', List.range'_succ,
      List.flatMap_cons]
    rfl

theorem stores_right_iff (hpos : 0 < e.inodesPerBlock) (hle : e.inodes ≤ 2 ^ 32) :
    (∀ ev ∈ (List.range' 0 e.nblockInodeTable).flatMap (e.storeEvents r), ev.Right) ↔
      e.nblockInodeTable = 0 ∨ r ≠ 0 ∧ (sizeofInode * e.inodes : ℕ) ≤ e.tableSize := by
  have hblock : ∀ i, i < e.nblockInodeTable → e.inodesPerBlock * (i + 1) ≤ e.inodes :=
    fun i hi => Nat.mul_le_mul_left _ hi
  constructor
  · intro hright
    rw [or_iff_not_imp_left]
    intro hne
    have hlast : e.inodesPerBlock * (e.nblockInodeTable - 1 + 1) = e.inodes := by
      rw [Nat.sub_add_cancel (by omega)]
      rfl
    -- the last store is the one that needs all the room
    have hindex : (e.nblockInodeTable - 1 + (e.inodesPerBlock - 1) +
        (e.inodesPerBlock - 1) * (e.nblockInodeTable - 1)) % 2 ^ 32 = e.inodes - 1 := by
      rw [index_eq (by omega) (by omega), ← hlast, Nat.mul_add_one, ← Nat.add_sub_assoc hpos]
    have hstored : .store r e.tableSize (e.inodes - 1) ∈
        (List.range' 0 e.nblockInodeTable).flatMap (e.storeEvents r) := by
      refine List.mem_flatMap.mpr ⟨e.nblockInodeTable - 1, by simp; omega, ?_⟩
      exact List.mem_map.mpr ⟨e.inodesPerBlock - 1, by simp; omega, by rw [hindex]⟩
    obtain ⟨hnull, hsize⟩ := hright _ hstored
    refine ⟨hnull, ?_⟩
    unfold sizeofInode at hsize ⊢
    rw [Nat.mul_add_one] at hlast
    omega
  · rintro hfits ev hev
    obtain ⟨i, hi, hev⟩ := List.mem_flatMap.mp hev
    obtain ⟨j, hj, rfl⟩ := List.mem_map.mp hev
    have hi' : i < e.nblockInodeTable := by simpa using hi
    have hj' : j < e.inodesPerBlock := List.mem_range.mp hj
    have hin := hblock i hi'
    rw [index_eq (by omega) hj']
    rw [Nat.mul_add_one] at hin
    obtain hzero | ⟨hnull, hsize⟩ := hfits
    · omega
    · refine ⟨hnull, ?_⟩
      unfold sizeofInode at hsize ⊢
      omega

theorem buildEvents_eq (hbuffer : KeepsHeap buffer) (hw : WellFormed h free live)
    (hpos : 0 < e.inodesPerBlock) :
    ∃ r h', kmalloc h e.tableSize = some (r, h') ∧ e.buildEvents buffer h =
      some (.divide e.inodesPerBlock :: .divide e.inodesPerBlock ::
        (List.range' 0 e.nblockInodeTable).flatMap (e.storeEvents r)) := by
  obtain ⟨r, h', free', live', hk, hw'⟩ := hw.kmalloc_keeps e.nunits_tableSize_pos
  refine ⟨r, h', hk, ?_⟩
  rw [buildEvents, if_neg hpos.ne', hk, Option.bind_eq_bind, Option.bind_some]
  dsimp only
  rw [loopEvents_returns hbuffer hw']
  rfl

theorem nblock_eq_zero_iff : e.nblockInodeTable = 0 ↔ e.sInodesPerGroup = 0 := by
  have hdm := Nat.div_add_mod e.sInodesPerGroup e.inodesPerBlock
  constructor
  · intro hzero
    rw [nblockInodeTable] at hzero
    split_ifs at hzero with hmod
    have hdiv : e.sInodesPerGroup / e.inodesPerBlock = 0 := by omega
    rw [hmod, hdiv] at hdm
    omega
  · intro hzero
    rw [nblockInodeTable, hzero, Nat.zero_div, Nat.zero_mod, if_pos rfl]

theorem table_granted_iff {h' : Heap} (hw : WellFormed h free live)
    (hk : kmalloc h e.tableSize = some (r, h')) :
    r ≠ 0 ∧ (sizeofInode * e.inodes : ℕ) ≤ e.tableSize ↔
      Roomy free (sizeofInode / blkSize * e.inodes + 1) := by
  have hexact : sizeofInode * e.inodes < 2 ^ 31 →
      (r ≠ 0 ↔ Roomy free (sizeofInode / blkSize * e.inodes + 1)) := by
    intro hsmall
    have hsize := tableSize_eq hsmall
    have hlimit : sizeofInode * e.inodes ≤ 2 ^ 31 - 16 := by
      unfold sizeofInode at hsmall ⊢
      omega
    obtain ⟨r', h'', hk', hiff, -⟩ := hw.kmalloc_answers (show 0 ≤ e.tableSize by omega) (by omega)
    obtain ⟨rfl, rfl⟩ := Prod.mk.inj (Option.some.inj (hk.symm.trans hk'))
    rw [hiff, hsize, Roomy, roundUpBlock_eq hlimit]
    have hunits : ∀ b : Block, ((sizeofInode * e.inodes + 15) / 16 : ℕ) + 1 ≤ (b.units : ℤ) ↔
        sizeofInode / blkSize * e.inodes + 1 ≤ b.units := by
      intro b
      unfold sizeofInode blkSize
      omega
    simp only [hunits]
  constructor
  · rintro ⟨hr, hle⟩
    have hlt := e.tableSize_lt
    exact (hexact (by omega)).mp hr
  · intro hroom
    obtain ⟨b, hb, hunits⟩ := hroom
    have hall := hw.units_le (b := b) (by simp [hb])
    have hsmall : sizeofInode * e.inodes < 2 ^ 31 := by
      unfold sizeofInode blkSize heapSize at *
      omega
    exact ⟨(hexact hsmall).mpr ⟨b, hb, hunits⟩, (tableSize_eq hsmall).ge⟩

theorem buildEvents_right_iff (hbuffer : KeepsHeap buffer) (hw : WellFormed h free live)
    (hpos : 0 < e.inodesPerBlock) (hle : e.inodes ≤ 2 ^ 32) :
    RunsRight (e.buildEvents buffer h) ↔ e.TableFits free := by
  obtain ⟨r, h', hk, hrun⟩ := buildEvents_eq hbuffer hw hpos
  rw [RunsRight, hrun, TableFits, ← nblock_eq_zero_iff, ← table_granted_iff hw hk,
    ← stores_right_iff hpos hle]
  constructor
  · rintro ⟨t, ht, hright⟩ ev hev
    obtain rfl := Option.some.inj ht
    exact hright ev (List.mem_cons_of_mem _ (List.mem_cons_of_mem _ hev))
  · intro hright
    refine ⟨_, rfl, ?_⟩
    simp only [List.forall_mem_cons]
    exact ⟨hpos.ne', hpos.ne', hright⟩

end Ext2

def SblockExt2.ext2 (sb : SblockExt2) (bgInodeTable : ℕ) : Ext2 :=
  ⟨1024 * 2 ^ sb.sLogBlockSize % 2 ^ 16, sb.sFirstIno, sb.sInodesPerGroup, bgInodeTable⟩

def checkExt2Events (create : Ext2 → Heap → Option (List Ext2Event)) (d : Disk) (h : Heap) :
    Option (List Ext2Event) := do
  let sb ← ext2CheckSblock d
  let bg ← ext2CheckBgDsc2 d
  if 32 ≤ sb.sLogBlockSize then some [.shift sb.sLogBlockSize]
  else (create (sb.ext2 (bgInodeTable bg)) h).map (.cons (.shift sb.sLogBlockSize))

section Superblock

variable {h : Heap} {free live : List Block} {sb : SblockExt2} {d : Disk} {k : ℕ}

theorem ext2_inodesPerBlock_of_le (hlog : sb.sLogBlockSize ≤ 5) :
    (sb.ext2 k).inodesPerBlock = 8 * 2 ^ sb.sLogBlockSize := by
  have hpow : 2 ^ sb.sLogBlockSize ≤ 2 ^ 5 := Nat.pow_le_pow_right (by decide) hlog
  have hsize : (sb.ext2 k).blockSize = 1024 * 2 ^ sb.sLogBlockSize := Nat.mod_eq_of_lt (by omega)
  rw [Ext2.inodesPerBlock, hsize, sizeofInode]
  omega

theorem ext2_blockSize_of_lt (hlog : 5 < sb.sLogBlockSize) : (sb.ext2 k).blockSize = 0 := by
  obtain ⟨n, hn⟩ := Nat.exists_eq_add_of_le hlog
  have hpow : 1024 * 2 ^ sb.sLogBlockSize = 2 ^ 16 * 2 ^ n := by
    rw [hn, Nat.pow_add]
    omega
  rw [SblockExt2.ext2, hpow]
  exact Nat.mul_mod_right ..

theorem ext2_inodes_le (hlog : sb.sLogBlockSize ≤ 5) (hlt : sb.sInodesPerGroup < 2 ^ 32) :
    0 < (sb.ext2 k).inodesPerBlock ∧ (sb.ext2 k).inodes ≤ 2 ^ 32 := by
  have hipb := ext2_inodesPerBlock_of_le (k := k) hlog
  have hpos : 0 < (sb.ext2 k).inodesPerBlock := by
    rw [hipb]
    exact Nat.mul_pos (by decide) (Nat.two_pow_pos _)
  have hdvd : (sb.ext2 k).inodesPerBlock ∣ 2 ^ 32 := by
    have hpow : 8 * 2 ^ sb.sLogBlockSize = 2 ^ (3 + sb.sLogBlockSize) :=
      (Nat.pow_add 2 3 sb.sLogBlockSize).symm
    rw [hipb, hpow]
    exact Nat.pow_dvd_pow 2 (by omega)
  obtain ⟨m, hm⟩ := hdvd
  have hblocks : (sb.ext2 k).sInodesPerGroup / (sb.ext2 k).inodesPerBlock < m :=
    Nat.div_lt_of_lt_mul (hm ▸ hlt)
  refine ⟨hpos, ?_⟩
  rw [hm, Ext2.inodes]
  apply Nat.mul_le_mul_left
  rw [Ext2.nblockInodeTable]
  split_ifs <;> omega

theorem checkExt2Events_right_iff {create : Ext2 → Heap → Option (List Ext2Event)}
    (hsb : SblockExt2.ofBytes (bytesAt d 1024 1024) = sb) :
    RunsRight (checkExt2Events create d h) ↔ sb.sLogBlockSize < 32 ∧
      RunsRight (create (sb.ext2 (bgInodeTable (bytesAt d 2048 32))) h) := by
  subst hsb
  set sb := SblockExt2.ofBytes (bytesAt d 1024 1024)
  have hrun : checkExt2Events create d h =
      if 32 ≤ sb.sLogBlockSize then some [.shift sb.sLogBlockSize]
      else (create (sb.ext2 (bgInodeTable (bytesAt d 2048 32))) h).map
        (.cons (.shift sb.sLogBlockSize)) := rfl
  rw [hrun]
  split_ifs with hlog
  · constructor
    · rintro ⟨t, ht, hright⟩
      obtain rfl := Option.some.inj ht
      exact absurd (hright _ (List.mem_singleton_self _)) (Nat.not_lt.mpr hlog)
    · rintro ⟨hlt, -⟩
      omega
  · constructor
    · rintro ⟨t, ht, hright⟩
      obtain ⟨t, hcreate, rfl⟩ := Option.map_eq_some_iff.mp ht
      exact ⟨by omega, t, hcreate, fun ev hev => hright ev (List.mem_cons_of_mem _ hev)⟩
    · rintro ⟨hlt, t, hcreate, hright⟩
      refine ⟨_, Option.map_eq_some_iff.mpr ⟨t, hcreate, rfl⟩, ?_⟩
      exact List.forall_mem_cons.mpr ⟨hlt, hright⟩

theorem createInodeTable2Events_right_iff (hw : WellFormed h free live)
    (hlt : sb.sInodesPerGroup < 2 ^ 32) : RunsRight ((sb.ext2 k).createInodeTable2Events h) ↔
      sb.sLogBlockSize ≤ 5 ∧ (sb.ext2 k).TableFits free := by
  obtain hlog | hlog := Nat.lt_or_ge 5 sb.sLogBlockSize
  · have hipb : (sb.ext2 k).inodesPerBlock = 0 := by
      rw [Ext2.inodesPerBlock, ext2_blockSize_of_lt hlog, Nat.zero_div]
    constructor
    · rintro ⟨t, ht, hright⟩
      rw [Ext2.createInodeTable2Events, Ext2.buildEvents, if_pos hipb] at ht
      obtain rfl := Option.some.inj ht
      exact absurd rfl (hright _ (List.mem_singleton_self _))
    · rintro ⟨hle, -⟩
      omega
  · obtain ⟨hpos, hle⟩ := ext2_inodes_le (k := k) hlog hlt
    have hbelow : (sb.ext2 k).blockSize < 2 ^ 16 := Nat.mod_lt _ (by decide)
    rw [and_iff_right hlog]
    exact Ext2.buildEvents_right_iff (Ext2.keepsHeap_requestBuffer hbelow) hw hpos hle

theorem createInodeTableEvents_right_iff (hw : WellFormed h free live)
    (hlt : sb.sInodesPerGroup < 2 ^ 32) : RunsRight ((sb.ext2 k).createInodeTableEvents h) ↔
      5 < sb.sLogBlockSize ∨ (sb.ext2 k).TableFits free := by
  rw [Ext2.createInodeTableEvents]
  obtain hlog | hlog := Nat.lt_or_ge 5 sb.sLogBlockSize
  · rw [if_pos (ext2_blockSize_of_lt hlog)]
    exact iff_of_true ⟨[], rfl, List.forall_mem_nil _⟩ (.inl hlog)
  · obtain ⟨hpos, hle⟩ := ext2_inodes_le (k := k) hlog hlt
    have hsize : (sb.ext2 k).blockSize ≠ 0 := by
      intro hzero
      rw [Ext2.inodesPerBlock, hzero] at hpos
      exact absurd hpos (by decide)
    rw [if_neg hsize, or_iff_right (Nat.not_lt.mpr hlog)]
    exact Ext2.buildEvents_right_iff Ext2.keepsHeap_some hw hpos hle

/-- The shift and the division are right up to blocks of 32 KiB, beyond which `create_inode_table`
halts, and the stores if a free block has room for the table that the superblock describes. -/
theorem table_runs_right_iff (hw : WellFormed h free live) (d : Disk) :
    let sb := SblockExt2.ofBytes (bytesAt d 1024 1024)
    let e := sb.ext2 (bgInodeTable (bytesAt d 2048 32))
    (RunsRight (checkExt2Events Ext2.createInodeTable2Events d h) ↔
      sb.sLogBlockSize ≤ 5 ∧ e.TableFits free) ∧
    (RunsRight (checkExt2Events Ext2.createInodeTableEvents d h) ↔
      sb.sLogBlockSize < 32 ∧ (5 < sb.sLogBlockSize ∨ e.TableFits free)) := by
  intro sb e
  have hlt : sb.sInodesPerGroup < 2 ^ 32 := number_slice_lt _ 40 4
  constructor
  · rw [checkExt2Events_right_iff rfl, createInodeTable2Events_right_iff hw hlt]
    exact and_iff_right_of_imp (fun hright => Nat.lt_of_le_of_lt hright.1 (by decide))
  · rw [checkExt2Events_right_iff rfl, createInodeTableEvents_right_iff hw hlt]

end Superblock

def sblockDisk (sLogBlockSize sInodesPerGroup : ℕ) : Disk := fun p =>
  if p = 1048 then .ofNat 8 sLogBlockSize else if p = 1064 then .ofNat 8 sInodesPerGroup else 0

theorem table_runs_right_iff_example :
    RunsRight (checkExt2Events Ext2.createInodeTable2Events (sblockDisk 0 8) freshHeap) ∧
      RunsRight (checkExt2Events Ext2.createInodeTableEvents (sblockDisk 0 8) freshHeap) := by
  obtain ⟨hbuffers, hstack⟩ := table_runs_right_iff freshHeap_wellFormed (sblockDisk 0 8)
  have hsb : SblockExt2.ofBytes (bytesAt (sblockDisk 0 8) 1024 1024) = ⟨0, 0, 8, 0, 0, 0⟩ := by
    decide +kernel
  rw [hsb] at hbuffers hstack
  have hfits : (SblockExt2.ext2 ⟨0, 0, 8, 0, 0, 0⟩ (bgInodeTable (bytesAt (sblockDisk 0 8) 2048 32))).TableFits
      [⟨0x400000, heapSize / blkSize⟩] :=
    .inr ⟨_, List.mem_singleton_self _, show 65 ≤ heapSize / blkSize by decide⟩
  exact ⟨hbuffers.mpr ⟨by decide, hfits⟩, hstack.mpr ⟨by decide, .inr hfits⟩⟩

/-- With blocks of 64 KiB `create_inode_table2` divides by zero. -/
theorem large_blocks_divide_by_zero :
    checkExt2Events Ext2.createInodeTable2Events (sblockDisk 6 8) freshHeap =
        some [.shift 6, .divide 0] ∧
      ¬ RunsRight (checkExt2Events Ext2.createInodeTable2Events (sblockDisk 6 8) freshHeap) := by
  have hrun : checkExt2Events Ext2.createInodeTable2Events (sblockDisk 6 8) freshHeap =
      some [.shift 6, .divide 0] := by decide +kernel
  refine ⟨hrun, ?_⟩
  rintro ⟨t, ht, hright⟩
  obtain rfl := Option.some.inj (hrun.symm.trans ht)
  exact hright (.divide 0) (by simp) rfl

end MinOS
