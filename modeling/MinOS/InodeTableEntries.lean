import MinOS.Ext2Bounds
import MinOS.Ext2Tables

namespace MinOS

open Library.Images Library.Integers

namespace Ext2

def inodeWrites (e : Ext2) (i : ℕ) (inodes : List (BitVec 8)) : List (ℕ × List (BitVec 8)) :=
  (List.range e.inodesPerBlock).map (fun j =>
    ((i + j + (e.inodesPerBlock - 1) * i) % 2 ^ 32, slice inodes (sizeofInode * j) sizeofInode))

def blockWrites (e : Ext2) (d : Disk) : ℕ → ℕ → Option (List (ℕ × List (BitVec 8)))
  | 0, _ => some []
  | n + 1, i => do
    let inodes ← ahciReadByte d ((e.bgInodeTable + i) % 2 ^ 32 * e.block % 2 ^ 32) e.block
      (sizeofInode * e.inodesPerBlock) 0
    let rest ← blockWrites e d n (i + 1)
    some (e.inodeWrites i inodes ++ rest)

def tableWrites (e : Ext2) (d : Disk) : Option (List (ℕ × List (BitVec 8))) :=
  e.blockWrites d e.nblockInodeTable 0

structure CopiesInodes (e : Ext2) (d : Disk) (table : InodeTable) (ws : List (ℕ × List (BitVec 8))) :
    Prop where
  written_eq : table = written (fun _ => []) ws
  indices : ws.map Prod.fst = List.range e.tableLen.toNat
  le_tableLen : e.sInodesPerGroup ≤ e.tableLen
  tableLen_lt : e.tableLen < e.sInodesPerGroup + e.inodesPerBlock
  entries : ∀ k : ℕ, k < e.tableLen →
    table k = bytesAt d (e.bgInodeTable * e.blockSize + sizeofInode * k) sizeofInode

variable {e : Ext2} {d : Disk} {h h' : Heap} {table : InodeTable} {n i k r : ℕ}

theorem storeInodes_written (i : ℕ) (inodes : List (BitVec 8)) (table : InodeTable) :
    e.storeInodes i inodes table = written table (e.inodeWrites i inodes) := by
  rw [storeInodes, written, inodeWrites, List.foldl_map]

theorem readBlocks_written : e.readBlocks d some n i (table, h) =
    (e.blockWrites d n i).map (fun ws => (written table ws, h)) := by
  induction n generalizing i table with
  | zero => rfl
  | succ n ih =>
    rw [readBlocks, blockWrites]
    cases ahciReadByte d ((e.bgInodeTable + i) % 2 ^ 32 * e.block % 2 ^ 32) e.block
        (sizeofInode * e.inodesPerBlock) 0 with
    | none => rfl
    | some inodes =>
      simp only [Option.bind_eq_bind, Option.bind_some, ih, storeInodes_written]
      cases e.blockWrites d n (i + 1) with
      | none => rfl
      | some rest => simp only [Option.map_some, Option.bind_some, written_append]

theorem createInodeTable_written (hipb : e.inodesPerBlock ≠ 0)
    (hk : kmalloc h e.tableSize = some (r, h')) (hr : r ≠ 0) : e.createInodeTable d h =
      (e.tableWrites d).map (fun ws => ((written (fun _ => []) ws, e.tableLen), h')) := by
  rw [createInodeTable, buildInodeTable, if_neg hipb, hk, Option.bind_eq_bind, Option.bind_some]
  dsimp only
  rw [if_neg hr, readBlocks_written, Option.map_map]
  rfl

theorem inodeWrites_eq {inodes : List (BitVec 8)} (hlt : e.inodesPerBlock * (i + 1) ≤ 2 ^ 32)
    (hread : ahciReadByte d ((e.bgInodeTable + i) % 2 ^ 32 * e.block % 2 ^ 32) e.block
      (sizeofInode * e.inodesPerBlock) 0 = some inodes) :
    e.inodeWrites i inodes = (List.range' (e.inodesPerBlock * i) e.inodesPerBlock).map
      (fun k => (k, bytesAt d (e.entryAt k) sizeofInode)) := by
  rw [inodeWrites, List.range'_eq_map_range, List.map_map]
  apply List.map_congr_left
  intro j hj
  have hj := List.mem_range.mp hj
  have hslice := slice_block hread (k := e.inodesPerBlock * i + j) ⟨by omega, by omega⟩
  rw [Nat.add_sub_cancel_left] at hslice
  rw [index_eq hlt hj, hslice]
  rfl

theorem blockWrites_eq (hfit : sizeofInode * e.inodesPerBlock ≤ 512 * e.block)
    (hlt : e.inodesPerBlock * (i + n) ≤ 2 ^ 32) : e.blockWrites d n i =
      some ((List.range' (e.inodesPerBlock * i) (e.inodesPerBlock * n)).map
        (fun k => (k, bytesAt d (e.entryAt k) sizeofInode))) := by
  induction n generalizing i with
  | zero => rfl
  | succ n ih =>
    have hsplit : i + (n + 1) = i + 1 + n := by omega
    have hnext : e.inodesPerBlock * (i + 1) ≤ e.inodesPerBlock * (i + (n + 1)) :=
      Nat.mul_le_mul_left _ (by omega)
    have hread := ahciReadByte_eq d ((e.bgInodeTable + i) % 2 ^ 32 * e.block % 2 ^ 32) hfit
    rw [blockWrites, hread, ih (hsplit ▸ hlt)]
    simp only [Option.bind_eq_bind, Option.bind_some]
    rw [inodeWrites_eq (hnext.trans hlt) hread, ← List.map_append, Nat.mul_add_one, List.range'_append_1,
      Nat.mul_add_one, Nat.add_comm e.inodesPerBlock]

theorem tableWrites_eq (hfit : sizeofInode * e.inodesPerBlock ≤ 512 * e.block)
    (hlt : e.inodes ≤ 2 ^ 32) : e.tableWrites d =
      some ((List.range e.inodes).map (fun k => (k, bytesAt d (e.entryAt k) sizeofInode))) := by
  rw [tableWrites, blockWrites_eq hfit (by rwa [Nat.zero_add]), Nat.mul_zero, ← List.range_eq_range']
  rfl

/-- When the table has less than 2^31 bytes, there is memory for it and no sector number wraps around,
the inodes on the disk are copied without gap and without overlap. -/
theorem createInodeTable_copies (hk : k ≤ 5) (hsize : e.blockSize = 1024 * 2 ^ k)
    (hlen : sizeofInode * e.inodes < 2 ^ 31)
    (hsectors : ∀ i, i < e.nblockInodeTable → (e.bgInodeTable + i) * e.block < 2 ^ 32)
    (hkmalloc : kmalloc h e.tableSize = some (r, h')) (hr : r ≠ 0) :
    ∃ table ws, e.createInodeTable d h = some ((table, e.tableLen), h') ∧
      e.tableWrites d = some ws ∧ e.CopiesInodes d table ws := by
  obtain ⟨hsector, hinodes, hmin, -⟩ := block_sizes hk hsize
  have hipb : 0 < e.inodesPerBlock := by
    simp only [sizeofInode] at hinodes
    omega
  have hlt : e.inodes < 2 ^ 32 := by
    unfold sizeofInode at hlen
    omega
  have hwrites := e.tableWrites_eq (d := d) (by omega) hlt.le
  have hcreate := createInodeTable_written (d := d) hipb.ne' hkmalloc hr
  rw [hwrites, Option.map_some] at hcreate
  obtain ⟨hle, hmore⟩ := nblock_bounds hipb
  refine ⟨_, _, hcreate, hwrites, rfl, ?_, ?_, ?_, ?_⟩
  · rw [List.map_map, tableLen_eq hlen]
    exact List.map_id _
  · rw [tableLen_eq hlen]
    exact_mod_cast hle
  · rw [tableLen_eq hlen]
    exact_mod_cast hmore
  · intro k hk
    have hk : k < e.inodes := by
      rw [tableLen_eq hlen] at hk
      exact_mod_cast hk
    rw [written_range, if_pos hk, Nat.mul_comm sizeofInode]
    have hplace : e.entryAt k = e.bgInodeTable * e.blockSize + k * sizeofInode := by
      apply (entryAt_eq_iff hinodes hsector (by omega) le_rfl).mpr
      exact ⟨hsectors _ (Nat.div_lt_of_lt_mul hk), rfl⟩
    rw [hplace]

end Ext2

def twoBlocks : Ext2 := ⟨1024, 11, 12, 5⟩

theorem createInodeTable_copies_twoBlocks : ∃ table ws h',
    twoBlocks.createInodeTable (.ofNat 8) freshHeap = some ((table, twoBlocks.tableLen), h') ∧
      twoBlocks.tableWrites (.ofNat 8) = some ws ∧ twoBlocks.CopiesInodes (.ofNat 8) table ws := by
  have hgranted : (kmalloc freshHeap twoBlocks.tableSize).map (fun x => decide (x.1 = 0)) =
      some false := by decide +kernel
  obtain ⟨⟨r, h'⟩, hkmalloc, hr⟩ := Option.map_eq_some_iff.mp hgranted
  obtain ⟨table, ws, hcreate, hrest⟩ := Ext2.createInodeTable_copies (d := .ofNat 8)
    (Nat.zero_le 5) rfl (by decide) (by decide) hkmalloc (of_decide_eq_false hr)
  exact ⟨table, ws, h', hcreate, hrest⟩

end MinOS
