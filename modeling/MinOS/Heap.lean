import Mathlib.Logic.Function.Basic
import MinOS.Library.Integers
import MinOS.Library.Rings

/-!
The kernel heap of `mm.c`: a free list threaded through the block headers. Memory is
seen through its headers, one `MallocHeader` for each address, and pointers are byte
addresses; `blkSize` turns a length in headers into bytes.
-/

namespace MinOS

open Library.Integers Library.Rings

structure MallocHeader where
  next : ℕ
  size : ℕ
deriving DecidableEq

def heapSize : ℕ := 0x400000

/-- `sizeof(malloc_header)`. -/
def blkSize : ℕ := 16

structure Heap where
  mem : ℕ → MallocHeader
  base : ℕ
  kheap : ℕ
  freep : ℕ

namespace Heap

def next (h : Heap) (p : ℕ) : ℕ := (h.mem p).next
def size (h : Heap) (p : ℕ) : ℕ := (h.mem p).size

def setNext (h : Heap) (p v : ℕ) : Heap :=
  { h with mem := Function.update h.mem p { h.mem p with next := v } }

def setSize (h : Heap) (p v : ℕ) : Heap :=
  { h with mem := Function.update h.mem p { h.mem p with size := v } }

def setFreep (h : Heap) (p : ℕ) : Heap := { h with freep := p }

@[simp] theorem next_setNext (h : Heap) (p v a : ℕ) :
    (h.setNext p v).next a = if a = p then v else h.next a := by
  by_cases ha : a = p <;> simp [next, setNext, ha]

@[simp] theorem size_setNext (h : Heap) (p v a : ℕ) : (h.setNext p v).size a = h.size a := by
  by_cases ha : a = p <;> simp [size, setNext, ha]

@[simp] theorem next_setSize (h : Heap) (p v a : ℕ) : (h.setSize p v).next a = h.next a := by
  by_cases ha : a = p <;> simp [next, setSize, ha]

@[simp] theorem size_setSize (h : Heap) (p v a : ℕ) :
    (h.setSize p v).size a = if a = p then v else h.size a := by
  by_cases ha : a = p <;> simp [size, setSize, ha]

@[simp] theorem base_setNext (h : Heap) (p v : ℕ) : (h.setNext p v).base = h.base := rfl
@[simp] theorem base_setSize (h : Heap) (p v : ℕ) : (h.setSize p v).base = h.base := rfl
@[simp] theorem base_setFreep (h : Heap) (p : ℕ) : (h.setFreep p).base = h.base := rfl
@[simp] theorem kheap_setNext (h : Heap) (p v : ℕ) : (h.setNext p v).kheap = h.kheap := rfl
@[simp] theorem kheap_setSize (h : Heap) (p v : ℕ) : (h.setSize p v).kheap = h.kheap := rfl
@[simp] theorem kheap_setFreep (h : Heap) (p : ℕ) : (h.setFreep p).kheap = h.kheap := rfl
@[simp] theorem freep_setFreep (h : Heap) (p : ℕ) : (h.setFreep p).freep = p := rfl
@[simp] theorem next_setFreep (h : Heap) (p : ℕ) : (h.setFreep p).next = h.next := rfl
@[simp] theorem size_setFreep (h : Heap) (p : ℕ) : (h.setFreep p).size = h.size := rfl

end Heap

def initKheap (h : Heap) (kheapStart : ℕ) : Heap :=
  let h := { h with kheap := kheapStart }
  let h := h.setNext kheapStart h.base
  let h := h.setSize kheapStart (heapSize / blkSize)
  let h := h.setNext h.base kheapStart
  h.setSize h.base 0

def roundUpBlock (byte block : ℤ) : ℤ := (int32 (int32 (byte + block) - 1)).tdiv block

/-- The length in headers that a request of `size` bytes is rounded up to. -/
def nunits (size : ℤ) : ℕ := uint64 (int32 (roundUpBlock size blkSize + 1))

/-- More headers than the heap area and `base` hold: no walk round a free list of
distinct headers needs as many steps. -/
@[irreducible] def loopBound : ℕ := heapSize / blkSize + 2

def takeBlock (h : Heap) (q p n : ℕ) : ℕ × Heap :=
  if h.size p = n then (p + blkSize, (h.setNext q (h.next p)).setFreep q)
  else
    let h := h.setSize p (h.size p - n)
    let p := p + blkSize * h.size p
    (p + blkSize, (h.setSize p n).setFreep q)

def kmalloc (h : Heap) (size : ℤ) : Option (ℕ × Heap) :=
  let n := nunits size
  match search h.next (fun p => decide (n ≤ h.size p)) h.freep loopBound h.freep (h.next h.freep) with
  | none => none
  | some none => some (0, h)
  | some (some (q, p)) => some (takeBlock h q p n)

def alignedLoop (start : ℕ) (alignSize : ℕ) : ℕ → ℕ
  | 0 => 0
  | k + 1 =>
    if (start + blkSize * (k + 1)) % alignSize = 0 then start + blkSize * (k + 1)
    else alignedLoop start alignSize k

def getAlignedAddress (start : ℕ) (blockLength alignSize : ℤ) : ℕ :=
  alignedLoop start (uint64 alignSize) (blockLength - 1).toNat

def alignedAddr (h : Heap) (alignSize : ℤ) (p : ℕ) : ℕ :=
  getAlignedAddress p (int32 (h.size p)) alignSize

def fitsAligned (h : Heap) (alignSize : ℤ) (n p : ℕ) : Bool :=
  let a := alignedAddr h alignSize p
  decide (a ≠ 0 ∧ a - blkSize + blkSize * n ≤ p + blkSize * h.size p)

def takeAligned (h : Heap) (q p a n : ℕ) : ℕ × Heap :=
  if a - blkSize + blkSize * n = p + blkSize * h.size p then
    let h := h.setSize p (h.size p - n)
    (a, (h.setSize (a - blkSize) n).setFreep q)
  else
    let fdiffBlock : ℤ := ((a - blkSize : ℕ) - p : ℤ).tdiv blkSize
    let bdiffBlock : ℤ :=
      ((p + blkSize * h.size p : ℕ) - ((a - blkSize : ℕ) - (blkSize * n : ℕ)) : ℤ).tdiv blkSize
    let h := h.setSize p (uint64 fdiffBlock)
    let h := h.setSize (a - blkSize) n
    let nextP := p + blkSize * (fdiffBlock.toNat + n)
    let h := h.setSize nextP (uint64 bdiffBlock)
    let h := h.setNext nextP (h.next p)
    (a, (h.setNext p nextP).setFreep q)

def kmallocAlignas (h : Heap) (size alignSize : ℤ) : Option (ℕ × Heap) :=
  if alignSize ≤ 16 then kmalloc h size
  else
    let n := nunits size
    match search h.next (fitsAligned h alignSize n) h.freep loopBound h.freep (h.next h.freep) with
    | none => none
    | some none => some (0, h)
    | some (some (q, p)) => some (takeAligned h q p (alignedAddr h alignSize p) n)

def precedes (h : Heap) (p q : ℕ) : Bool :=
  decide ((q < p ∧ p < h.next q) ∨ (h.next q ≤ q ∧ (q < p ∨ p < h.next q)))

def joinNext (h : Heap) (q p : ℕ) : Heap :=
  if p + blkSize * h.size p = h.next q then
    let h := h.setSize p (h.size p + h.size (h.next q))
    h.setNext p (h.next (h.next q))
  else h.setNext p (h.next q)

def joinPrev (h : Heap) (q p : ℕ) : Heap :=
  if q + blkSize * h.size q = p then
    let h := h.setSize q (h.size q + h.size p)
    h.setNext q (h.next p)
  else h.setNext q p

def kfree (h : Heap) (ptr : ℕ) : Option Heap :=
  let p := ptr - blkSize
  match walk h.next (precedes h p) loopBound h.freep with
  | none => none
  | some q => some ((joinPrev (joinNext h q p) q p).setFreep q)

end MinOS
