import Mathlib.Data.List.TakeWhile
import MinOS.Library.Loops
import MinOS.Library.Queues
import MinOS.Library.Runs

namespace MinOS

open Library.Loops Library.Queues Library.Runs

def queueSize : ℤ := 1600

/-- `data` also has what stands in memory around the buffer. -/
structure QueueChar where
  head : ℤ
  num : ℤ
  data : ℤ → BitVec 8

structure CString where
  chars : List (BitVec 8)
  ne_nul : ∀ c ∈ chars, c ≠ 0

def CString.bytes (s : CString) : List (BitVec 8) := s.chars ++ [0]

theorem CString.nul_notMem (s : CString) : 0 ∉ s.chars := fun h => s.ne_nul 0 h rfl

def CString.letters (n : ℕ) : CString where
  chars := List.replicate n 97
  ne_nul := by
    intro c hc
    rw [List.eq_of_mem_replicate hc]
    decide

structure Dequeued where
  ret : ℤ
  buf : List (BitVec 8)
  que : QueueChar

namespace QueueChar

def zeroed : QueueChar := ⟨0, 0, fun _ => 0⟩

def flushQueueChar (que : QueueChar) : QueueChar :=
  ⟨0, 0, fun i => if 0 ≤ i ∧ i < queueSize then 0 else que.data i⟩

def queueCharHead (que : QueueChar) : BitVec 8 := que.data que.head

def push (que : QueueChar) (c : BitVec 8) : QueueChar :=
  ⟨que.head, que.num + 1, Function.update que.data ((que.head + que.num).tmod queueSize) c⟩

def pop (que : QueueChar) : QueueChar := ⟨(que.head + 1).tmod queueSize, que.num - 1, que.data⟩

/-- The result is `none` when the call returns 0. It changes nothing then. -/
def enqueueChar (que : QueueChar) (c : BitVec 8) : Option QueueChar :=
  if que.num < queueSize then some (que.push c) else none

def enqueueChars (que : QueueChar) : List (BitVec 8) → ℤ × QueueChar
  | [] =>
    match que.enqueueChar 0 with
    | none => (0, que)
    | some que => (1, que)
  | c :: chars =>
    match que.enqueueChar c with
    | none => (0, que)
    | some que => que.enqueueChars chars

def enqueueStr (que : QueueChar) (s : CString) : ℤ × QueueChar := que.enqueueChars s.chars

def dequeueChar (que : QueueChar) : Option (BitVec 8 × QueueChar) :=
  if 0 < que.num then some (que.queueCharHead, que.pop) else none

def skipNul (que : QueueChar) : QueueChar ⊕ QueueChar :=
  if que.queueCharHead = 0 then
    match que.dequeueChar with
    | none => .inl que
    | some (_, que) => .inl que
  else .inr que

def deliver (x : List (BitVec 8) × QueueChar) : (List (BitVec 8) × QueueChar) ⊕ Dequeued :=
  match x.2.dequeueChar with
  | none => .inr ⟨0, x.1, x.2⟩
  | some (c, que) => if c ≠ 0 then .inl (x.1 ++ [c], que) else .inr ⟨1, x.1 ++ [c], que⟩

def dequeueStr (fuel : ℕ) (que : QueueChar) : Option Dequeued := do
  let que ← loop skipNul fuel que
  loop deliver fuel ([], que)

def DequeuesStr (que : QueueChar) (r : Dequeued) : Prop := ∃ fuel, que.dequeueStr fuel = some r

def chars (que : QueueChar) : List (BitVec 8) := contents queueSize que.data que.head que.num.toNat

def free (que : QueueChar) : ℕ := (queueSize - que.num).toNat

structure WellFormed (que : QueueChar) : Prop where
  head_nonneg : 0 ≤ que.head
  head_lt : que.head < queueSize
  num_nonneg : 0 ≤ que.num
  num_le : que.num ≤ queueSize

inductive QueueOp where
  | enqueueChar (c : BitVec 8)
  | enqueueStr (s : CString)
  | dequeueChar
  | dequeueStr

inductive QueueStep : QueueChar → QueueOp → QueueChar → Prop
  | enqueueChar {que : QueueChar} (c : BitVec 8) :
      QueueStep que (.enqueueChar c) ((que.enqueueChar c).getD que)
  | enqueueStr {que : QueueChar} (s : CString) : QueueStep que (.enqueueStr s) (que.enqueueStr s).2
  | dequeueChar {que : QueueChar} :
      QueueStep que .dequeueChar ((que.dequeueChar.map Prod.snd).getD que)
  | dequeueStr {que : QueueChar} {r : Dequeued} :
      que.DequeuesStr r → QueueStep que .dequeueStr r.que

def Reachable (que : QueueChar) : Prop := ∃ que₀ ops, Run QueueStep (flushQueueChar que₀) ops que

variable {que que' : QueueChar} {c : BitVec 8} {cs : List (BitVec 8)} {r : Dequeued}

@[simp] theorem length_chars : que.chars.length = que.num.toNat := length_contents

theorem WellFormed.flush (que : QueueChar) : que.flushQueueChar.WellFormed := by
  constructor <;> simp [flushQueueChar, queueSize]

theorem WellFormed.push (h : que.WellFormed) (hnum : que.num < queueSize) : (que.push c).WellFormed := by
  obtain ⟨h₁, h₂, h₃, h₄⟩ := h
  constructor <;> simp only [QueueChar.push] <;> omega

theorem WellFormed.pop (h : que.WellFormed) (hnum : 0 < que.num) : que.pop.WellFormed := by
  obtain ⟨h₁, h₂, h₃, h₄⟩ := h
  have hpos : 0 < queueSize := by decide
  constructor <;> simp only [QueueChar.pop]
  · exact Int.tmod_nonneg _ (by omega)
  · exact Int.tmod_lt_of_pos _ hpos
  · omega
  · omega

theorem chars_push (h : que.WellFormed) (hnum : que.num < queueSize) :
    (que.push c).chars = que.chars ++ [c] := by
  have hn := h.num_nonneg
  have hsucc : (que.num + 1).toNat = que.num.toNat + 1 := by omega
  have hcast : (que.num.toNat : ℤ) = que.num := by omega
  have hlt : (que.num.toNat : ℤ) < queueSize := by rwa [hcast]
  have hpush := contents_push que.data h.head_nonneg hlt c
  rw [hcast] at hpush
  rw [chars, push, hsucc]
  exact hpush

theorem chars_eq_cons (h : que.WellFormed) (hnum : 0 < que.num) :
    que.chars = que.queueCharHead :: que.pop.chars := by
  have hsucc : que.num.toNat = (que.num - 1).toNat + 1 := by omega
  rw [chars, hsucc, contents_pop h.head_nonneg h.head_lt]
  rfl

end QueueChar

end MinOS
