import MinOS.HeapRequests
import MinOS.Library.Images

/-!
`check_ext2` of `ext2.c` up to the table of the inodes. `ahci_read` delivers the sectors of the disk
that it is asked for.
-/

namespace MinOS

open Library.Images Library.Integers

abbrev Disk := ℕ → BitVec 8

def sizeofInode : ℕ := 128

/-- The result is `none` when bytes of `pool` are copied that no sector was read to. -/
def ahciReadByte (d : Disk) (startSector count byte offset : ℕ) : Option (List (BitVec 8)) :=
  if offset + byte ≤ 512 * count then some (bytesAt d (512 * startSector + offset) byte) else none

structure SblockExt2 where
  sFirstDataBlock : ℕ
  sLogBlockSize : ℕ
  sInodesPerGroup : ℕ
  sMagic : ℕ
  sFirstIno : ℕ
  sInodeSize : ℕ
deriving DecidableEq

def SblockExt2.ofBytes (bytes : List (BitVec 8)) : SblockExt2 where
  sFirstDataBlock := number (slice bytes 20 4)
  sLogBlockSize := number (slice bytes 24 4)
  sInodesPerGroup := number (slice bytes 40 4)
  sMagic := number (slice bytes 56 2)
  sFirstIno := number (slice bytes 84 4)
  sInodeSize := number (slice bytes 88 2)

def bgInodeTable (bgDsc : List (BitVec 8)) : ℕ := number (slice bgDsc 8 4)

def ext2CheckSblock (d : Disk) : Option SblockExt2 :=
  (ahciReadByte d 2 (1024 / 512) 1024 0).map SblockExt2.ofBytes

def ext2CheckBgDsc2 (d : Disk) : Option (List (BitVec 8)) := ahciReadByte d 4 2 32 0

abbrev InodeTable := ℕ → List (BitVec 8)

structure Ext2 where
  blockSize : ℕ
  sFirstIno : ℕ
  sInodesPerGroup : ℕ
  bgInodeTable : ℕ

namespace Ext2

def block (e : Ext2) : ℕ := e.blockSize / 512

def inodesPerBlock (e : Ext2) : ℕ := e.blockSize / sizeofInode

def nblockInodeTable (e : Ext2) : ℕ :=
  e.sInodesPerGroup / e.inodesPerBlock + if e.sInodesPerGroup % e.inodesPerBlock = 0 then 0 else 1

def tableLen (e : Ext2) : ℤ := int32 (e.inodesPerBlock * e.nblockInodeTable : ℕ)

def tableSize (e : Ext2) : ℤ := int32 (sizeofInode * e.tableLen)

def bufferSize (e : Ext2) : ℤ := int32 (sizeofInode * e.inodesPerBlock + 2)

def storeInodes (e : Ext2) (i : ℕ) (inodes : List (BitVec 8)) (table : InodeTable) : InodeTable :=
  (List.range e.inodesPerBlock).foldl (fun table j =>
    Function.update table ((i + j + (e.inodesPerBlock - 1) * i) % 2 ^ 32)
      (slice inodes (sizeofInode * j) sizeofInode)) table

theorem index_eq {e : Ext2} {i j : ℕ} (hlt : e.inodesPerBlock * (i + 1) ≤ 2 ^ 32)
    (hj : j < e.inodesPerBlock) :
    (i + j + (e.inodesPerBlock - 1) * i) % 2 ^ 32 = e.inodesPerBlock * i + j := by
  have hpos : 0 < e.inodesPerBlock := by omega
  have hsum : i + (e.inodesPerBlock - 1) * i = e.inodesPerBlock * i := by
    rw [Nat.sub_one_mul, ← Nat.add_sub_assoc (Nat.le_mul_of_pos_left i hpos), Nat.add_sub_cancel_left]
  rw [Nat.mul_add_one] at hlt
  rw [Nat.mod_eq_of_lt (by omega)]
  omega

def readBlocks (e : Ext2) (d : Disk) (buffer : Heap → Option Heap) :
    ℕ → ℕ → InodeTable × Heap → Option (InodeTable × Heap)
  | 0, _, x => some x
  | n + 1, i, (table, h) => do
    let h ← buffer h
    let inodes ← ahciReadByte d ((e.bgInodeTable + i) % 2 ^ 32 * e.block % 2 ^ 32) e.block
      (sizeofInode * e.inodesPerBlock) 0
    readBlocks e d buffer n (i + 1) (e.storeInodes i inodes table, h)

/-- The result is `none` where the code divides by zero or stores through a null pointer. -/
def buildInodeTable (e : Ext2) (d : Disk) (buffer : Heap → Option Heap) (h : Heap) :
    Option (InodeTable × Heap) :=
  if e.inodesPerBlock = 0 then none
  else do
    let (inodeTable, h) ← kmalloc h e.tableSize
    if inodeTable = 0 then none
    else e.readBlocks d buffer e.nblockInodeTable 0 (fun _ => [], h)

def createInodeTable (e : Ext2) (d : Disk) (h : Heap) : Option ((InodeTable × ℤ) × Heap) :=
  (e.buildInodeTable d some h).map (fun x => ((x.1, e.tableLen), x.2))

def allocBuffer (e : Ext2) (h : Heap) : Option Heap :=
  (kmalloc h e.bufferSize).bind (fun x => if x.1 = 0 then none else some x.2)

def createInodeTable2 (e : Ext2) (d : Disk) (h : Heap) : Option (InodeTable × Heap) :=
  e.buildInodeTable d e.allocBuffer h

end Ext2

def checkExt2 (d : Disk) (h : Heap) : Option (List (BitVec 8) × InodeTable × Heap) := do
  let sb ← ext2CheckSblock d
  let bg ← ext2CheckBgDsc2 d
  let e : Ext2 := ⟨1024 * 2 ^ sb.sLogBlockSize % 2 ^ 16, sb.sFirstIno, sb.sInodesPerGroup, bgInodeTable bg⟩
  let (table, h) ← e.createInodeTable2 d h
  some (bg, table, h)

end MinOS
