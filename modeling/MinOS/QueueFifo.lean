import MinOS.QueueStrings

namespace MinOS

open Library.Queues Library.Runs

namespace QueueChar

def queueCharIsempty (que : QueueChar) : ℤ := if que.num = 0 then 1 else 0

def queueCharIsfull (que : QueueChar) : ℤ := if que.num = queueSize then 1 else 0

inductive CharStep : QueueChar → FifoCall (BitVec 8) → QueueChar → Prop
  | flush {que : QueueChar} : CharStep que .flush que.flushQueueChar
  | enqueueChar {que que' : QueueChar} {c : BitVec 8} :
      que.enqueueChar c = some que' → CharStep que (.enqueue c true) que'
  | full {que : QueueChar} {c : BitVec 8} :
      que.enqueueChar c = none → CharStep que (.enqueue c false) que
  | dequeueChar {que que' : QueueChar} {c : BitVec 8} :
      que.dequeueChar = some (c, que') → CharStep que (.dequeue (some c)) que'
  | empty {que : QueueChar} : que.dequeueChar = none → CharStep que (.dequeue none) que

structure StandsFor (que : QueueChar) (cs : List (BitVec 8)) : Prop where
  head : 0 ≤ que.head ∧ que.head < queueSize
  num : 0 ≤ que.num ∧ que.num ≤ queueSize
  chars : que.chars = cs
  isempty_iff : que.queueCharIsempty ≠ 0 ↔ cs = []
  isfull_iff : que.queueCharIsfull ≠ 0 ↔ (cs.length : ℤ) = queueSize
  head_eq : ∀ c ∈ cs.head?, que.queueCharHead = c
  enqueueChar_none_iff : ∀ c, que.enqueueChar c = none ↔ (cs.length : ℤ) = queueSize
  dequeueChar_none_iff : que.dequeueChar = none ↔ cs = []

variable {que que' que₀ : QueueChar} {cs : List (BitVec 8)} {call : FifoCall (BitVec 8)}
  {calls : List (FifoCall (BitVec 8))}

theorem WellFormed.length_chars (h : que.WellFormed) : (que.chars.length : ℤ) = que.num := by
  have hnum := h.num_nonneg
  rw [QueueChar.length_chars]
  omega

theorem WellFormed.chars_eq_nil_iff (h : que.WellFormed) : que.chars = [] ↔ que.num = 0 := by
  rw [← List.length_eq_zero_iff, ← Int.natCast_eq_zero, h.length_chars]

theorem WellFormed.standsFor (h : que.WellFormed) : que.StandsFor que.chars := by
  have hle := h.num_le
  have hnonneg := h.num_nonneg
  constructor
  · exact ⟨h.head_nonneg, h.head_lt⟩
  · exact ⟨hnonneg, hle⟩
  · rfl
  · rw [h.chars_eq_nil_iff]
    simp [queueCharIsempty]
  · rw [h.length_chars]
    simp [queueCharIsfull]
  · intro c hc
    rcases h.chars_cases with ⟨-, hnil⟩ | ⟨-, hcons⟩
    · rw [hnil] at hc
      cases hc
    · rw [hcons] at hc
      exact Option.some.inj hc
  · intro c
    rw [h.length_chars, enqueueChar, ite_eq_right_iff]
    simp only [reduceCtorEq, imp_false]
    omega
  · rw [h.chars_eq_nil_iff, dequeueChar, ite_eq_right_iff]
    simp only [reduceCtorEq, imp_false]
    omega

theorem StandsFor.wellFormed (h : que.StandsFor cs) : que.WellFormed :=
  ⟨h.head.1, h.head.2, h.num.1, h.num.2⟩

theorem StandsFor.flush (que : QueueChar) : que.flushQueueChar.StandsFor [] := by
  have hwf := WellFormed.flush que
  have hnil : que.flushQueueChar.chars = [] := hwf.chars_eq_nil_iff.mpr rfl
  rw [← hnil]
  exact hwf.standsFor

theorem StandsFor.step (h : que.StandsFor cs) (hstep : CharStep que call que') :
    ∃ cs', FifoStep queueSize.toNat cs call cs' ∧ que'.StandsFor cs' := by
  have hwf := h.wellFormed
  have hlen := hwf.length_chars
  have hle := h.num.2
  obtain rfl := h.chars
  cases hstep with
  | flush => exact ⟨[], .flush, .flush que⟩
  | @enqueueChar _ c hsome =>
    rcases enqueueChar_cases que c with ⟨hnone, -⟩ | ⟨hnum, hpush⟩
    · rw [hnone] at hsome
      cases hsome
    · obtain rfl := Option.some.inj (hpush.symm.trans hsome)
      refine ⟨que.chars ++ [c], .enqueue (by omega), ?_⟩
      rw [← chars_push hwf hnum]
      exact (hwf.push hnum).standsFor
  | full hnone =>
    have hfull := (h.enqueueChar_none_iff _).mp hnone
    exact ⟨que.chars, .full (by omega), h⟩
  | dequeueChar hsome =>
    rcases hwf.chars_cases with ⟨hnum, -⟩ | ⟨hnum, hcons⟩
    · rw [dequeueChar_of_empty hnum] at hsome
      cases hsome
    · rw [dequeueChar_of_pos hnum] at hsome
      obtain ⟨rfl, rfl⟩ := Prod.mk.inj (Option.some.inj hsome)
      refine ⟨que.pop.chars, ?_, (hwf.pop hnum).standsFor⟩
      rw [hcons]
      exact .dequeue
  | empty hnone =>
    have hnil := h.dequeueChar_none_iff.mp hnone
    refine ⟨[], ?_, hnil ▸ h⟩
    rw [hnil]
    exact .empty

/-- In every sequence of calls, these answer as calls on a list do, and the queue stands for the
list. -/
theorem queue_is_fifo (hrun : Run CharStep que₀.flushQueueChar calls que) :
    ∃ cs, Run (FifoStep queueSize.toNat) [] calls cs ∧ que.StandsFor cs :=
  hrun.simulation (.flush que₀) StandsFor.step

theorem queue_is_fifo_letter : ∃ cs,
    Run (FifoStep queueSize.toNat) [] [.enqueue 97 true, .dequeue (some 97)] cs ∧
      (zeroed.flushQueueChar.push 97).pop.StandsFor cs := by
  have hpush : zeroed.flushQueueChar.enqueueChar 97 = some (zeroed.flushQueueChar.push 97) := rfl
  have hpop : (zeroed.flushQueueChar.push 97).dequeueChar =
      some (97, (zeroed.flushQueueChar.push 97).pop) := rfl
  exact queue_is_fifo ((Run.single (.enqueueChar hpush)).snoc (.dequeueChar hpop))

end QueueChar

end MinOS
