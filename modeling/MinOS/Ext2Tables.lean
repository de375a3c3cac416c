import MinOS.Boot
import MinOS.Ext2

namespace MinOS

open Library.Images Library.Integers

structure ImageLayout where
  sblock : SblockExt2
  inodeTable : ℕ
  magic : sblock.sMagic = 0xef53
  log_le : sblock.sLogBlockSize ≤ 5
  behind_sblock : 2048 ≤ (sblock.sFirstDataBlock + 1) * (1024 * 2 ^ sblock.sLogBlockSize)
  inodeSize_eq : ∃ k, sblock.sInodeSize = 128 * 2 ^ k
  inodeSize_le : sblock.sInodeSize ≤ 1024 * 2 ^ sblock.sLogBlockSize
  inodes_pos : 0 < sblock.sInodesPerGroup
  inodes_le : sblock.sInodesPerGroup ≤ 8 * (1024 * 2 ^ sblock.sLogBlockSize)
  behind_bgDsc : sblock.sFirstDataBlock + 1 < inodeTable

namespace ImageLayout

def blockSize (l : ImageLayout) : ℕ := 1024 * 2 ^ l.sblock.sLogBlockSize

def bgDsc (l : ImageLayout) : ℕ := (l.sblock.sFirstDataBlock + 1) * l.blockSize

def inodeAt (l : ImageLayout) (k : ℕ) : ℕ := l.inodeTable * l.blockSize + k * l.sblock.sInodeSize

structure Describes (l : ImageLayout) (d : Disk) : Prop where
  sblock : .ofBytes (bytesAt d 1024 1024) = l.sblock
  inodeTable : bgInodeTable (bytesAt d l.bgDsc 32) = l.inodeTable

def ReadsRight (l : ImageLayout) (h : Heap) (d : Disk) : Prop :=
  ∃ table h', checkExt2 d h = some (bytesAt d l.bgDsc 32, table, h') ∧
    ∀ k, k < l.sblock.sInodesPerGroup → table k = bytesAt d (l.inodeAt k) sizeofInode

def ext2 (l : ImageLayout) : Ext2 :=
  ⟨l.blockSize, l.sblock.sFirstIno, l.sblock.sInodesPerGroup, l.inodeTable⟩

end ImageLayout

namespace Ext2

variable {e : Ext2} {d : Disk} {buffer : Heap → Option Heap} {h : Heap} {n i k : ℕ}

def requests (e : Ext2) : List ℤ := e.tableSize :: List.replicate e.nblockInodeTable e.bufferSize

def entryAt (e : Ext2) (k : ℕ) : ℕ :=
  512 * ((e.bgInodeTable + k / e.inodesPerBlock) % 2 ^ 32 * e.block % 2 ^ 32) +
    sizeofInode * (k % e.inodesPerBlock)

theorem storeInodes_apply (hlt : e.inodesPerBlock * (i + 1) ≤ 2 ^ 32) (inodes : List (BitVec 8))
    (table : InodeTable) (k : ℕ) : e.storeInodes i inodes table k =
      if e.inodesPerBlock * i ≤ k ∧ k < e.inodesPerBlock * i + e.inodesPerBlock then
        slice inodes (sizeofInode * (k - e.inodesPerBlock * i)) sizeofInode
      else table k := by
  exact foldl_update (fun j hj => index_eq hlt hj) _ table k

theorem ahciReadByte_eq (d : Disk) (sector : ℕ) (hfit : sizeofInode * e.inodesPerBlock ≤ 512 * e.block) :
    ahciReadByte d sector e.block (sizeofInode * e.inodesPerBlock) 0 =
      some (bytesAt d (512 * sector) (sizeofInode * e.inodesPerBlock)) := by
  rw [ahciReadByte, Nat.zero_add, if_pos hfit, Nat.add_zero]

theorem slice_block {inodes : List (BitVec 8)} (hread : ahciReadByte d
      ((e.bgInodeTable + i) % 2 ^ 32 * e.block % 2 ^ 32) e.block (sizeofInode * e.inodesPerBlock) 0 =
        some inodes)
    (hk : e.inodesPerBlock * i ≤ k ∧ k < e.inodesPerBlock * i + e.inodesPerBlock) :
    slice inodes (sizeofInode * (k - e.inodesPerBlock * i)) sizeofInode =
      bytesAt d (e.entryAt k) sizeofInode := by
  rw [ahciReadByte] at hread
  split_ifs at hread with hfit
  obtain rfl := Option.some.inj hread
  have hdiv : k / e.inodesPerBlock = i := by
    apply Nat.div_eq_of_lt_le
    · rw [Nat.mul_comm]
      exact hk.1
    · rw [Nat.mul_comm, Nat.mul_add_one]
      exact hk.2
  have hmod : k - e.inodesPerBlock * i = k % e.inodesPerBlock := by
    have hdm := Nat.div_add_mod k e.inodesPerBlock
    rw [hdiv] at hdm
    omega
  have hlast : k % e.inodesPerBlock < e.inodesPerBlock := Nat.mod_lt _ (by omega)
  rw [hmod, slice_bytesAt (by simp only [sizeofInode]; omega), Nat.add_zero, entryAt, hdiv]

theorem readBlocks_table {x y : InodeTable × Heap} (hlt : e.inodesPerBlock * (i + n) ≤ 2 ^ 32)
    (h : e.readBlocks d buffer n i x = some y) (k : ℕ) :
    y.1 k = if e.inodesPerBlock * i ≤ k ∧ k < e.inodesPerBlock * (i + n) then
      bytesAt d (e.entryAt k) sizeofInode else x.1 k := by
  induction n generalizing i x with
  | zero =>
    obtain rfl := Option.some.inj h
    rw [Nat.add_zero, if_neg (by omega)]
  | succ n ih =>
    obtain ⟨table, h₀⟩ := x
    obtain ⟨h₁, -, hrest⟩ := Option.bind_eq_some_iff.mp h
    obtain ⟨inodes, hread, hrest⟩ := Option.bind_eq_some_iff.mp hrest
    have hsplit : i + (n + 1) = i + 1 + n := by omega
    have hnext : e.inodesPerBlock * (i + 1) ≤ e.inodesPerBlock * (i + 1 + n) :=
      Nat.mul_le_mul_left _ (by omega)
    have hstore := storeInodes_apply (le_trans hnext (hsplit ▸ hlt)) inodes table k
    rw [hsplit] at hlt ⊢
    rw [ih hlt hrest]
    dsimp only
    rw [hstore]
    rw [Nat.mul_add_one] at hnext ⊢
    by_cases hk : e.inodesPerBlock * i ≤ k ∧ k < e.inodesPerBlock * i + e.inodesPerBlock
    · rw [if_neg (by omega), if_pos hk, if_pos (by omega), slice_block hread hk]
    · rw [if_neg hk]
      by_cases hlater : e.inodesPerBlock * i + e.inodesPerBlock ≤ k ∧
          k < e.inodesPerBlock * (i + 1 + n)
      · rw [if_pos hlater, if_pos (by omega)]
      · rw [if_neg hlater, if_neg (by omega)]

theorem allocBuffer_eq {h' : Heap} : e.allocBuffer h = some h' ↔
    ∃ r, kmalloc h e.bufferSize = some (r, h') ∧ r ≠ 0 := by
  rw [allocBuffer, Option.bind_eq_some_iff]
  constructor
  · rintro ⟨⟨r, h₁⟩, hk, hr⟩
    split_ifs at hr with hnull
    obtain rfl := Option.some.inj hr
    exact ⟨r, hk, hnull⟩
  · rintro ⟨r, hk, hnull⟩
    exact ⟨(r, h'), hk, if_neg hnull⟩

theorem readBlocks_isSome (hfit : sizeofInode * e.inodesPerBlock ≤ 512 * e.block)
    {x : InodeTable × Heap} : (∃ y, e.readBlocks d e.allocBuffer n i x = some y) ↔
      Answered x.2 (List.replicate n e.bufferSize) := by
  induction n generalizing i x with
  | zero => exact ⟨fun _ => ⟨[], x.2, rfl, List.not_mem_nil⟩, fun _ => ⟨x, rfl⟩⟩
  | succ n ih =>
    obtain ⟨table, h⟩ := x
    rw [List.replicate_succ, answered_cons]
    simp only [readBlocks, ahciReadByte_eq d _ hfit, Option.bind_eq_bind, Option.bind_some, Option.bind_eq_some_iff,
      allocBuffer_eq]
    constructor
    · rintro ⟨y, h₁, ⟨r, hk, hnull⟩, hrest⟩
      exact ⟨r, h₁, hk, hnull, ih.mp ⟨y, hrest⟩⟩
    · rintro ⟨r, h₁, hk, hnull, hans⟩
      have hrest : ∀ table', ∃ y, e.readBlocks d e.allocBuffer n (i + 1) (table', h₁) = some y :=
        fun table' => ih.mpr hans
      exact (hrest _).imp (fun y hy => ⟨h₁, ⟨r, hk, hnull⟩, hy⟩)

theorem buildInodeTable_eq {y : InodeTable × Heap} : e.buildInodeTable d buffer h = some y ↔
    e.inodesPerBlock ≠ 0 ∧ ∃ r h', kmalloc h e.tableSize = some (r, h') ∧ r ≠ 0 ∧
      e.readBlocks d buffer e.nblockInodeTable 0 (fun _ => [], h') = some y := by
  rw [buildInodeTable]
  split_ifs with hipb
  · simp [hipb]
  · rw [Option.bind_eq_bind, Option.bind_eq_some_iff]
    constructor
    · rintro ⟨⟨r, h'⟩, hk, hrest⟩
      dsimp only at hrest
      split_ifs at hrest with hnull
      exact ⟨hipb, r, h', hk, hnull, hrest⟩
    · rintro ⟨-, r, h', hk, hnull, hrest⟩
      exact ⟨(r, h'), hk, (if_neg hnull).trans hrest⟩

theorem buildInodeTable_table {y : InodeTable × Heap}
    (hlt : e.inodesPerBlock * e.nblockInodeTable ≤ 2 ^ 32)
    (h : e.buildInodeTable d buffer h = some y) (hk : k < e.inodesPerBlock * e.nblockInodeTable) :
    y.1 k = bytesAt d (e.entryAt k) sizeofInode := by
  obtain ⟨-, r, h', -, -, hread⟩ := buildInodeTable_eq.mp h
  rw [readBlocks_table (by rwa [Nat.zero_add]) hread, if_pos ⟨by omega, by rwa [Nat.zero_add]⟩]

theorem createInodeTable2_isSome (hipb : 0 < e.inodesPerBlock)
    (hfit : sizeofInode * e.inodesPerBlock ≤ 512 * e.block) :
    (∃ y, e.createInodeTable2 d h = some y) ↔ Answered h e.requests := by
  simp only [createInodeTable2, buildInodeTable_eq, requests, answered_cons]
  constructor
  · rintro ⟨y, -, r, h', hk, hnull, hread⟩
    exact ⟨r, h', hk, hnull, (readBlocks_isSome hfit).mp ⟨y, hread⟩⟩
  · rintro ⟨r, h', hk, hnull, hans⟩
    have hread : ∃ y, e.readBlocks d e.allocBuffer e.nblockInodeTable 0 (fun _ => [], h') = some y :=
      (readBlocks_isSome hfit).mpr hans
    exact hread.imp (fun y hy => ⟨by omega, r, h', hk, hnull, hy⟩)

theorem nblock_bounds (hipb : 0 < e.inodesPerBlock) :
    e.sInodesPerGroup ≤ e.inodesPerBlock * e.nblockInodeTable ∧
      e.inodesPerBlock * e.nblockInodeTable < e.sInodesPerGroup + e.inodesPerBlock := by
  have hdm := Nat.div_add_mod e.sInodesPerGroup e.inodesPerBlock
  have hmod := Nat.mod_lt e.sInodesPerGroup hipb
  rw [nblockInodeTable, Nat.mul_add]
  split_ifs
  · omega
  · omega

theorem block_sizes (hk : k ≤ 5) (hsize : e.blockSize = 1024 * 2 ^ k) :
    512 * e.block = e.blockSize ∧ sizeofInode * e.inodesPerBlock = e.blockSize ∧
      1024 ≤ e.blockSize ∧ e.blockSize ≤ 32768 := by
  have hpow : 1 ≤ 2 ^ k := Nat.one_le_two_pow
  have hle : 2 ^ k ≤ 2 ^ 5 := Nat.pow_le_pow_right (by decide) hk
  simp only [block, inodesPerBlock, hsize, sizeofInode]
  omega

theorem entryAt_eq_iff {blockSize inodeSize : ℕ} (hinodes : sizeofInode * e.inodesPerBlock = blockSize)
    (hsectors : 512 * e.block = blockSize) (hblock : 0 < e.block) (hsize : sizeofInode ≤ inodeSize) :
    e.entryAt k = e.bgInodeTable * blockSize + k * inodeSize ↔
      (e.bgInodeTable + k / e.inodesPerBlock) * e.block < 2 ^ 32 ∧ k * inodeSize = k * sizeofInode := by
  have hdm := Nat.div_add_mod k e.inodesPerBlock
  generalize hx : e.bgInodeTable + k / e.inodesPerBlock = x
  generalize hz : x % 2 ^ 32 * e.block % 2 ^ 32 = z
  -- the place without wrap-around
  have hplain : 512 * (x * e.block) = e.bgInodeTable * blockSize +
      sizeofInode * (e.inodesPerBlock * (k / e.inodesPerBlock)) := by
    rw [Nat.mul_left_comm, hsectors, ← hx, Nat.add_mul, ← Nat.mul_assoc sizeofInode, hinodes,
      Nat.mul_comm (k / e.inodesPerBlock)]
  have hle : z ≤ x * e.block := by
    rw [← hz]
    exact le_trans (Nat.mod_le _ _) (Nat.mul_le_mul_right _ (Nat.mod_le _ _))
  have hlt : z < 2 ^ 32 := by
    rw [← hz]
    exact Nat.mod_lt _ (by decide)
  have hspread : k * sizeofInode ≤ k * inodeSize := Nat.mul_le_mul_left _ hsize
  have hk : k * sizeofInode = sizeofInode * (e.inodesPerBlock * (k / e.inodesPerBlock)) +
      sizeofInode * (k % e.inodesPerBlock) := by
    rw [← Nat.mul_add, hdm, Nat.mul_comm]
  rw [entryAt, hx, hz]
  constructor
  · intro heq
    constructor
    · omega
    · omega
  · rintro ⟨hwrap, heq⟩
    have hxlt : x < 2 ^ 32 := lt_of_le_of_lt (Nat.le_mul_of_pos_right x hblock) hwrap
    have hexact : z = x * e.block := by
      rw [← hz, Nat.mod_eq_of_lt hxlt, Nat.mod_eq_of_lt hwrap]
    omega

end Ext2

namespace ImageLayout

variable {l : ImageLayout} {d : Disk} {h : Heap} {k p : ℕ} {v : BitVec 8}

structure Suits (l : ImageLayout) (h : Heap) : Prop where
  bgDsc_eq : l.bgDsc = 2048
  inodeSize_eq : l.sblock.sInodeSize = sizeofInode ∨ l.sblock.sInodesPerGroup = 1
  sectors_lt : (l.inodeTable + (l.sblock.sInodesPerGroup - 1) / l.ext2.inodesPerBlock) *
    l.ext2.block < 2 ^ 32
  answered : Answered h l.ext2.requests

theorem block_sizes (l : ImageLayout) : 512 * l.ext2.block = l.blockSize ∧
    sizeofInode * l.ext2.inodesPerBlock = l.blockSize ∧ 1024 ≤ l.blockSize ∧ l.blockSize ≤ 32768 :=
  Ext2.block_sizes l.log_le rfl

theorem sizeofInode_le (l : ImageLayout) : sizeofInode ≤ l.sblock.sInodeSize := by
  obtain ⟨k, hk⟩ := l.inodeSize_eq
  rw [hk]
  exact Nat.le_mul_of_pos_right _ (Nat.two_pow_pos k)

theorem inodes_lt (l : ImageLayout) : l.sblock.sInodesPerGroup ≤ 8 * l.blockSize := l.inodes_le

theorem bgDsc_cases (l : ImageLayout) : 2048 = l.bgDsc ∨ 3072 ≤ l.bgDsc := by
  have hle : 2048 ≤ l.bgDsc := l.behind_sblock
  have hmul : l.bgDsc = 1024 * ((l.sblock.sFirstDataBlock + 1) * 2 ^ l.sblock.sLogBlockSize) := by
    rw [bgDsc, blockSize, Nat.mul_left_comm]
  omega

theorem le_inodeAt (l : ImageLayout) (k : ℕ) : l.bgDsc + l.blockSize ≤ l.inodeAt k := by
  have hle : (l.sblock.sFirstDataBlock + 2) * l.blockSize ≤ l.inodeTable * l.blockSize :=
    Nat.mul_le_mul_right _ l.behind_bgDsc
  rw [inodeAt, bgDsc, ← Nat.add_one_mul]
  exact le_trans hle (Nat.le_add_right _ _)

theorem bgInodeTable_bytesAt (d : Disk) (p : ℕ) :
    bgInodeTable (bytesAt d p 32) = number (bytesAt d (p + 8) 4) := by
  rw [bgInodeTable, slice_bytesAt (by decide)]

theorem bytesAt_update {q n : ℕ} (h : p < q ∨ q + n ≤ p) :
    bytesAt (Function.update d p v) q n = bytesAt d q n := by
  rw [bytesAt_eq_iff]
  intro i hi
  exact Function.update_of_ne (by omega) ..

theorem Describes.update (hd : l.Describes d) (hp : 2048 ≤ p)
    (hapart : p < l.bgDsc + 8 ∨ l.bgDsc + 12 ≤ p) : l.Describes (Function.update d p v) := by
  constructor
  · rw [bytesAt_update (by omega)]
    exact hd.sblock
  · rw [bgInodeTable_bytesAt, bytesAt_update (by omega), ← bgInodeTable_bytesAt]
    exact hd.inodeTable

theorem checkExt2_eq (hd : l.Describes d) (h : Heap) : checkExt2 d h =
    (Ext2.createInodeTable2 ⟨l.blockSize, l.sblock.sFirstIno, l.sblock.sInodesPerGroup,
      bgInodeTable (bytesAt d 2048 32)⟩ d h).map (fun x => (bytesAt d 2048 32, x.1, x.2)) := by
  have hsb : ext2CheckSblock d = some l.sblock := by
    rw [← hd.sblock]
    rfl
  have hbg : ext2CheckBgDsc2 d = some (bytesAt d 2048 32) := rfl
  have hsize : 1024 * 2 ^ l.sblock.sLogBlockSize % 2 ^ 16 = l.blockSize := by
    apply Nat.mod_eq_of_lt
    have hle := l.block_sizes.2.2.2
    simp only [blockSize] at hle
    omega
  rw [checkExt2, hsb, hbg]
  simp only [Option.bind_eq_bind, Option.bind_some, hsize]
  cases Ext2.createInodeTable2 _ d h <;> rfl

theorem entryAt_eq_inodeAt_iff : l.ext2.entryAt k = l.inodeAt k ↔
    (l.inodeTable + k / l.ext2.inodesPerBlock) * l.ext2.block < 2 ^ 32 ∧
      k * l.sblock.sInodeSize = k * sizeofInode := by
  obtain ⟨hsectors, hinodes, hpos, -⟩ := l.block_sizes
  exact Ext2.entryAt_eq_iff hinodes hsectors (by omega) l.sizeofInode_le

theorem buildInodeTable_table {buffer : Heap → Option Heap} {y : InodeTable × Heap}
    (hy : l.ext2.buildInodeTable d buffer h = some y) (hk : k < l.sblock.sInodesPerGroup) :
    y.1 k = bytesAt d (l.ext2.entryAt k) sizeofInode := by
  obtain ⟨-, hinodes, hpos, hle⟩ := l.block_sizes
  simp only [sizeofInode] at hinodes
  obtain ⟨hmin, hmax⟩ := Ext2.nblock_bounds (e := l.ext2) (by omega)
  have hlt := l.inodes_lt
  have hsame : l.ext2.sInodesPerGroup = l.sblock.sInodesPerGroup := rfl
  exact Ext2.buildInodeTable_table (by omega) hy (by omega)

theorem createInodeTable_eq {x : (InodeTable × ℤ) × Heap} {y : InodeTable × Heap} {h' : Heap}
    (hx : l.ext2.createInodeTable d h = some x) (hy : l.ext2.createInodeTable2 d h' = some y)
    (hk : k < l.sblock.sInodesPerGroup) : x.1.1 k = y.1 k := by
  obtain ⟨z, hz, rfl⟩ := Option.map_eq_some_iff.mp hx
  rw [buildInodeTable_table hz hk, buildInodeTable_table hy hk]

theorem ne_add_one (b : BitVec 8) : b + 1 ≠ b := by
  bv_omega

theorem ReadsRight.bgDsc (hd : l.Describes d) (hright : l.ReadsRight h d) :
    bytesAt d 2048 32 = bytesAt d l.bgDsc 32 := by
  obtain ⟨table, h', hcheck, -⟩ := hright
  rw [checkExt2_eq hd, Option.map_eq_some_iff] at hcheck
  obtain ⟨x, -, hx⟩ := hcheck
  exact congrArg Prod.fst hx

theorem readsRight_iff (hd : l.Describes d) (hbg : l.bgDsc = 2048) : l.ReadsRight h d ↔
    ∃ y, l.ext2.createInodeTable2 d h = some y ∧
      ∀ k, k < l.sblock.sInodesPerGroup → y.1 k = bytesAt d (l.inodeAt k) sizeofInode := by
  have htable := hd.inodeTable
  rw [hbg] at htable
  rw [ReadsRight, checkExt2_eq hd, htable, hbg]
  simp only [Option.map_eq_some_iff, Prod.mk.injEq, true_and]
  constructor
  · rintro ⟨table, h', ⟨y, hy, rfl, -⟩, hentries⟩
    exact ⟨y, hy, hentries⟩
  · rintro ⟨y, hy, hentries⟩
    exact ⟨y.1, y.2, ⟨y, hy, rfl, rfl⟩, hentries⟩

theorem bgDsc_eq_of_readsRight (hd : l.Describes d)
    (hall : ∀ d, l.Describes d → l.ReadsRight h d) : l.bgDsc = 2048 := by
  rcases l.bgDsc_cases with heq | hlt
  · exact heq.symm
  · -- change a byte of what stands at 2048
    have hd' := hd.update (p := 2060) (v := d (l.bgDsc + 12) + 1) (by decide) (by omega)
    have hbytes := bytesAt_eq_iff.mp ((hall _ hd').bgDsc hd') 12 (by decide)
    rw [Function.update_self, Function.update_of_ne (by omega)] at hbytes
    exact absurd hbytes (ne_add_one _)

theorem entryAt_eq_of_readsRight (hd : l.Describes d)
    (hall : ∀ d, l.Describes d → l.ReadsRight h d) (hk : k < l.sblock.sInodesPerGroup) :
    l.ext2.entryAt k = l.inodeAt k := by
  have hbg := bgDsc_eq_of_readsRight hd hall
  have hbehind := l.le_inodeAt k
  have hsize := l.block_sizes.2.2.1
  by_contra hne
  -- change the first byte of the inode
  have hd' := hd.update (p := l.inodeAt k) (v := d (l.ext2.entryAt k) + 1) (by omega) (by omega)
  obtain ⟨y, hy, hentries⟩ := (readsRight_iff hd' hbg).mp (hall _ hd')
  have hsame := (buildInodeTable_table hy hk).symm.trans (hentries k hk)
  have hbytes := bytesAt_eq_iff.mp hsame 0 (by decide)
  rw [Nat.add_zero, Nat.add_zero, Function.update_self, Function.update_of_ne hne] at hbytes
  exact absurd hbytes.symm (ne_add_one _)

theorem suits_of_readsRight (hd : l.Describes d)
    (hall : ∀ d, l.Describes d → l.ReadsRight h d) : l.Suits h := by
  have hbg := bgDsc_eq_of_readsRight hd hall
  have hplace : ∀ k, k < l.sblock.sInodesPerGroup →
      (l.inodeTable + k / l.ext2.inodesPerBlock) * l.ext2.block < 2 ^ 32 ∧
        k * l.sblock.sInodeSize = k * sizeofInode :=
    fun k hk => entryAt_eq_inodeAt_iff.mp (entryAt_eq_of_readsRight hd hall hk)
  have hpos := l.inodes_pos
  obtain ⟨hsectors, hinodes, hmin, -⟩ := l.block_sizes
  constructor
  · exact hbg
  · by_cases hone : l.sblock.sInodesPerGroup = 1
    · exact .inr hone
    · left
      simpa using (hplace 1 (by omega)).2
  · exact (hplace _ (by omega)).1
  · obtain ⟨y, hy, -⟩ := (readsRight_iff hd hbg).mp (hall d hd)
    apply (Ext2.createInodeTable2_isSome _ (by omega)).mp ⟨y, hy⟩
    simp only [sizeofInode] at hinodes
    omega

theorem Suits.readsRight (hs : l.Suits h) (hd : l.Describes d) : l.ReadsRight h d := by
  obtain ⟨hsectors, hinodes, hmin, -⟩ := l.block_sizes
  have hipb : 0 < l.ext2.inodesPerBlock := by
    simp only [sizeofInode] at hinodes
    omega
  obtain ⟨y, hy⟩ := (Ext2.createInodeTable2_isSome (d := d) hipb (by omega)).mpr hs.answered
  rw [readsRight_iff hd hs.bgDsc_eq]
  refine ⟨y, hy, fun k hk => ?_⟩
  have hplace : l.ext2.entryAt k = l.inodeAt k := by
    apply entryAt_eq_inodeAt_iff.mpr
    constructor
    · refine lt_of_le_of_lt (Nat.mul_le_mul_right _ (Nat.add_le_add_left ?_ _)) hs.sectors_lt
      exact Nat.div_le_div_right (by omega)
    · rcases hs.inodeSize_eq with hsize | hone
      · rw [hsize]
      · obtain rfl : k = 0 := by omega
        rw [Nat.zero_mul, Nat.zero_mul]
  rw [buildInodeTable_table hy hk, hplace]

/-- On every image with the layout of a given one the right descriptor is used and the right table is
built exactly when the descriptors begin at the byte 2048, the inodes have 128 bytes or there is one,
no sector number of the table exceeds 32 bits, and the heap has room. -/
theorem ext2_table_iff (hd : l.Describes d) :
    (∀ d, l.Describes d → l.ReadsRight h d) ↔ l.Suits h := by
  constructor
  · exact suits_of_readsRight hd
  · exact fun hs d hd => hs.readsRight hd

def disk (l : ImageLayout) : Disk := fun p =>
  let fields : List (ℕ × ℕ) := [(1044, l.sblock.sFirstDataBlock), (1048, l.sblock.sLogBlockSize),
    (1064, l.sblock.sInodesPerGroup), (1080, 0x53), (1081, 0xef), (1108, l.sblock.sFirstIno),
    (1112, l.sblock.sInodeSize % 256), (1113, l.sblock.sInodeSize / 256), (l.bgDsc + 8, l.inodeTable)]
  .ofNat 8 ((fields.lookup p).getD (if p < 0x4000 then 0 else p / 128))

def plain : ImageLayout where
  sblock := ⟨1, 0, 8, 0xef53, 11, 128⟩
  inodeTable := 16
  magic := rfl
  log_le := by decide
  behind_sblock := by decide
  inodeSize_eq := ⟨0, rfl⟩
  inodeSize_le := by decide
  inodes_pos := by decide
  inodes_le := by decide
  behind_bgDsc := by decide

def wide : ImageLayout where
  sblock := ⟨1, 0, 8, 0xef53, 11, 256⟩
  inodeTable := 16
  magic := rfl
  log_le := by decide
  behind_sblock := by decide
  inodeSize_eq := ⟨1, rfl⟩
  inodeSize_le := by decide
  inodes_pos := by decide
  inodes_le := by decide
  behind_bgDsc := by decide

def large : ImageLayout where
  sblock := ⟨0, 2, 32, 0xef53, 11, 128⟩
  inodeTable := 4
  magic := rfl
  log_le := by decide
  behind_sblock := by decide
  inodeSize_eq := ⟨0, rfl⟩
  inodeSize_le := by decide
  inodes_pos := by decide
  inodes_le := by decide
  behind_bgDsc := by decide

def firstHeap : Heap := (Kernel.zeroKernel.initKernel 0x400000).heap

theorem ext2_table_iff_example : plain.ReadsRight firstHeap plain.disk := by
  have hd : plain.Describes plain.disk := by
    constructor <;> decide +kernel
  have hs : plain.Suits firstHeap := by
    constructor <;> decide +kernel
  exact (ext2_table_iff hd).mpr hs _ hd

/-- With blocks of 4096 bytes the descriptor is not the one of the image, and with inodes of 256 bytes
the second entry is not the second inode. -/
theorem check_ext2_misreads :
    (large.Describes large.disk ∧ ∃ bg table h', checkExt2 large.disk firstHeap = some (bg, table, h') ∧
      bg ≠ bytesAt large.disk large.bgDsc 32) ∧
    wide.Describes wide.disk ∧ ∃ bg table h', checkExt2 wide.disk firstHeap = some (bg, table, h') ∧
      table 1 ≠ bytesAt wide.disk (wide.inodeAt 1) sizeofInode := by
  have hlarge : (checkExt2 large.disk firstHeap).map
      (fun x => decide (x.1 = bytesAt large.disk large.bgDsc 32)) = some false := by decide +kernel
  have hwide : (checkExt2 wide.disk firstHeap).map
      (fun x => decide (x.2.1 1 = bytesAt wide.disk (wide.inodeAt 1) sizeofInode)) = some false := by
    decide +kernel
  obtain ⟨⟨bg, table, h'⟩, hcheck, hbg⟩ := Option.map_eq_some_iff.mp hlarge
  obtain ⟨⟨bg', table', h''⟩, hcheck', htable⟩ := Option.map_eq_some_iff.mp hwide
  refine ⟨⟨?_, bg, table, h', hcheck, of_decide_eq_false hbg⟩,
    ?_, bg', table', h'', hcheck', of_decide_eq_false htable⟩
  · constructor <;> decide +kernel
  · constructor <;> decide +kernel

end ImageLayout

end MinOS
