import Mathlib.Data.List.Nodup
import Mathlib.Data.Set.Insert
import Mathlib.Logic.Function.Basic
import MinOS.Library.Runs

/-!
First-in first-out lists, ring buffers over an array, read as the list of what they hold, families of
queues in which the members of a set wait, and how long they wait over a whole run.
-/

namespace Library.Queues

section Fifos

variable {α : Type*}

inductive FifoCall (α : Type*) where
  | flush
  | enqueue (a : α) (taken : Bool)
  | dequeue (answer : Option α)

inductive FifoStep (n : ℕ) : List α → FifoCall α → List α → Prop
  | flush {xs : List α} : FifoStep n xs .flush []
  | enqueue {xs : List α} {a : α} : xs.length < n → FifoStep n xs (.enqueue a true) (xs ++ [a])
  | full {xs : List α} {a : α} : xs.length = n → FifoStep n xs (.enqueue a false) xs
  | dequeue {a : α} {xs : List α} : FifoStep n (a :: xs) (.dequeue (some a)) xs
  | empty : FifoStep n [] (.dequeue none) []

end Fifos

section RingBuffers

variable {α : Type*}

def contents (n : ℤ) (que : ℤ → α) (head : ℤ) (num : ℕ) : List α :=
  (List.range num).map (fun i : ℕ => que ((head + i).tmod n))

variable {n : ℤ} {que : ℤ → α} {head : ℤ} {num : ℕ}

theorem length_contents : (contents n que head num).length = num := by simp [contents]

theorem slot_ne (hhead : 0 ≤ head) {i j : ℕ} (hij : i < j) (hj : j < n) :
    (head + i).tmod n ≠ (head + j).tmod n := by
  rw [Int.tmod_eq_emod_of_nonneg (by omega), Int.tmod_eq_emod_of_nonneg (by omega)]
  intro h
  have hdvd : n ∣ (head + j) - (head + i) :=
    Int.dvd_of_emod_eq_zero (Int.emod_eq_emod_iff_emod_sub_eq_zero.mp h.symm)
  have hle := Int.le_of_dvd (by omega) hdvd
  omega

theorem contents_push (que : ℤ → α) (hhead : 0 ≤ head) (hnum : num < n) (a : α) :
    contents n (Function.update que ((head + num).tmod n) a) head (num + 1) =
      contents n que head num ++ [a] := by
  have hold : ∀ i ∈ List.range num,
      Function.update que ((head + num).tmod n) a ((head + i).tmod n) = que ((head + i).tmod n) := by
    intro i hi
    exact Function.update_of_ne (slot_ne hhead (List.mem_range.mp hi) hnum) ..
  simp only [contents, List.range_succ, List.map_append, List.map_cons, List.map_nil,
    Function.update_self, List.map_congr_left hold]

theorem tmod_add {i : ℤ} (hn : 0 < n) (hhead : 0 ≤ head) (hi : 0 ≤ i) :
    (head.tmod n + i).tmod n = (head + i).tmod n := by
  have hpos : 0 ≤ head % n := Int.emod_nonneg _ (by omega)
  rw [Int.tmod_eq_emod_of_nonneg hhead, Int.tmod_eq_emod_of_nonneg (by omega),
    Int.tmod_eq_emod_of_nonneg (by omega), Int.emod_add_emod]

theorem contents_pop (hhead : 0 ≤ head) (hlt : head < n) :
    contents n que head (num + 1) = que head :: contents n que ((head + 1).tmod n) num := by
  have hfirst : (head + (0 : ℕ)).tmod n = head := by
    rw [Int.natCast_zero, Int.add_zero, Int.tmod_eq_of_lt hhead hlt]
  have hnext : ∀ i : ℕ, ((head + 1).tmod n + i).tmod n = (head + (i + 1 : ℕ)).tmod n := by
    intro i
    rw [tmod_add (by omega) (by omega) (by omega)]
    congr 1
    omega
  rw [contents, List.range_succ_eq_map, List.map_cons, List.map_map, hfirst]
  simp only [contents, hnext, Function.comp_def, Nat.succ_eq_add_one]

end RingBuffers

section WaitQueues

variable {ι κ : Type*} {q : κ → List ι} {waiting : Set ι} {k : κ} {x : ι}

structure Queued (q : κ → List ι) (waiting : Set ι) : Prop where
  nodup : ∀ k, (q k).Nodup
  disjoint : ∀ k l x, x ∈ q k → x ∈ q l → k = l
  mem_iff : ∀ x, x ∈ waiting ↔ ∃ k, x ∈ q k

namespace Queued

theorem empty : Queued (fun _ : κ => ([] : List ι)) ∅ :=
  ⟨fun _ => List.nodup_nil, fun _ _ _ hx => by simp at hx, fun _ => by simp⟩

variable [DecidableEq κ]

theorem block (h : Queued q waiting) (k : κ) (hx : x ∉ waiting) :
    Queued (Function.update q k (q k ++ [x])) (insert x waiting) := by
  have hnew : ∀ l, x ∉ q l := fun l hl => hx ((h.mem_iff x).mpr ⟨l, hl⟩)
  have hmem : ∀ l y, y ∈ Function.update q k (q k ++ [x]) l ↔ y ∈ q l ∨ (l = k ∧ y = x) := by
    intro l y
    by_cases hl : l = k
    · subst hl
      simp
    · simp [hl]
  constructor
  · intro l
    by_cases hl : l = k
    · subst hl
      rw [Function.update_self, List.nodup_append]
      exact ⟨h.nodup l, List.nodup_singleton x, fun a ha b hb => by
        rintro rfl
        rw [List.mem_singleton.mp hb] at ha
        exact hnew l ha⟩
    · rw [Function.update_of_ne hl]
      exact h.nodup l
  · intro l m y hl hm
    rcases (hmem l y).mp hl with hold | ⟨rfl, rfl⟩
    · rcases (hmem m y).mp hm with hold' | ⟨rfl, rfl⟩
      · exact h.disjoint l m y hold hold'
      · exact absurd hold (hnew l)
    · rcases (hmem m y).mp hm with hold' | ⟨rfl, -⟩
      · exact absurd hold' (hnew m)
      · rfl
  · intro y
    simp only [Set.mem_insert_iff, h.mem_iff y, hmem]
    constructor
    · rintro (rfl | ⟨l, hl⟩)
      · exact ⟨k, .inr ⟨rfl, rfl⟩⟩
      · exact ⟨l, .inl hl⟩
    · rintro ⟨l, hl | ⟨-, rfl⟩⟩
      · exact .inr ⟨l, hl⟩
      · exact .inl rfl

theorem wake {xs : List ι} (h : Queued q waiting) (hk : q k = x :: xs) :
    Queued (Function.update q k xs) (waiting \ {x}) := by
  have hnd : x ∉ xs ∧ xs.Nodup := List.nodup_cons.mp (hk ▸ h.nodup k)
  have hmem : ∀ l y, y ∈ Function.update q k xs l ↔ y ∈ q l ∧ y ≠ x := by
    intro l y
    by_cases hl : l = k
    · subst hl
      rw [Function.update_self, hk, List.mem_cons]
      constructor
      · intro hy
        exact ⟨.inr hy, fun he => hnd.1 (he ▸ hy)⟩
      · rintro ⟨hy, hne⟩
        exact hy.resolve_left hne
    · rw [Function.update_of_ne hl]
      constructor
      · intro hy
        refine ⟨hy, ?_⟩
        rintro rfl
        exact hl (h.disjoint l k y hy (by simp [hk]))
      · exact And.left
  constructor
  · intro l
    by_cases hl : l = k
    · subst hl
      rw [Function.update_self]
      exact hnd.2
    · rw [Function.update_of_ne hl]
      exact h.nodup l
  · intro l m y hl hm
    exact h.disjoint l m y ((hmem l y).mp hl).1 ((hmem m y).mp hm).1
  · intro y
    simp only [Set.mem_sdiff, Set.mem_singleton_iff, h.mem_iff y, hmem, exists_and_right]

end Queued

end WaitQueues

section Turns

open Library.Runs

variable {State Op α : Type*} {step : State → Op → State → Prop} {s t : State} {ops : List Op} {x : α}
  {before after : List α}

/-- Some operations take the first entry out of the queue, and the others at most add entries behind
the last one. -/
def InOrder (step : State → Op → State → Prop) (I : State → Prop) (q : State → List α) (takes : Op → Bool) :
    Prop :=
  ∀ s op t, I s → step s op t → I t ∧ if takes op then q t = (q s).tail else q s <+: q t

variable {I : State → Prop} {q : State → List α} {takes : Op → Bool}

theorem InOrder.moves_up (h : InOrder step I q takes) (hrun : Run step s ops t) (h0 : I s)
    (hq : q s = before ++ x :: after) (hle : ops.countP takes ≤ before.length) :
    I t ∧ ∃ more, q t = before.drop (ops.countP takes) ++ x :: (after ++ more) := by
  induction hrun with
  | nil => exact ⟨h0, [], by simpa using hq⟩
  | @snoc ops t op u _ hstep ih =>
    rw [List.countP_append, List.countP_singleton] at hle ⊢
    obtain ⟨ht, more, hmore⟩ := ih (by omega)
    obtain ⟨hu, hnext⟩ := h _ _ _ ht hstep
    refine ⟨hu, ?_⟩
    cases htakes : takes op with
    | false =>
      rw [htakes, if_neg Bool.false_ne_true] at hnext
      obtain ⟨new, hnew⟩ := hnext
      exact ⟨more ++ new, by simp [← hnew, hmore]⟩
    | true =>
      rw [htakes, if_pos rfl] at hnext hle
      have hlt : ops.countP takes < before.length := by omega
      refine ⟨more, ?_⟩
      rw [hnext, hmore, List.drop_eq_getElem_cons hlt, if_pos rfl]
      rfl

theorem InOrder.taken (h : InOrder step I q takes) (hrun : Run step s ops t) (h0 : I s)
    (hq : q s = before ++ x :: after) (hlt : before.length < ops.countP takes) :
    ∃ ops₁ op ops₂ u v rest, ops = ops₁ ++ op :: ops₂ ∧ Run step s ops₁ u ∧ step u op v ∧ takes op ∧
      ops₁.countP takes = before.length ∧ I u ∧ q u = x :: rest := by
  induction hrun with
  | nil => exact absurd hlt (Nat.not_lt_zero _)
  | @snoc ops t op u hrun hstep ih =>
    by_cases hearlier : before.length < ops.countP takes
    · obtain ⟨ops₁, op', ops₂, u', v, rest, rfl, hrest⟩ := ih hearlier
      exact ⟨ops₁, op', ops₂ ++ [op], u', v, rest, by simp, hrest⟩
    · rw [List.countP_append, List.countP_singleton] at hlt
      have htakes : takes op := by
        by_contra hno
        rw [if_neg hno] at hlt
        omega
      have hcount : ops.countP takes = before.length := by
        rw [if_pos htakes] at hlt
        omega
      obtain ⟨ht, more, hmore⟩ := h.moves_up hrun h0 hq hcount.le
      rw [hcount, List.drop_length, List.nil_append] at hmore
      exact ⟨ops, op, [], t, u, after ++ more, rfl, hrun, hstep, htakes, hcount, ht, hmore⟩

end Turns

end Library.Queues
