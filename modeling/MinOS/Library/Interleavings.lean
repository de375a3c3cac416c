import Mathlib.Algebra.BigOperators.Group.Finset.Basic
import Mathlib.Logic.Function.Basic
import MinOS.Library.Runs

/-!
Threads that share a state and one processor: each stands at a point of its program and executes
one statement at a time, and between two statements the processor can go to another thread.
-/

namespace Library.Interleavings

open Library.Runs

/-- `current` is the thread that has the processor, `next` its next statement, `begins` says which
calls it can begin, and `switch` gives the processor to another thread. -/
structure Threads (σ ι π : Type) where
  current : σ → ι
  next : π → σ → Option (π × σ)
  begins : σ → π → π → Bool
  switch : σ → ι → Option σ

structure Config (σ ι π : Type) where
  state : σ
  points : ι → π

inductive Event (ι π : Type) where
  | stmt
  | call (p : π)
  | tick (i : ι)

variable {σ ι π : Type} [DecidableEq ι] {T : Threads σ ι π} {c d : Config σ ι π} {e : Event ι π}

namespace Threads

def point (T : Threads σ ι π) (c : Config σ ι π) : π := c.points (T.current c.state)

def move (T : Threads σ ι π) (c : Config σ ι π) (p : π) (s : σ) : Config σ ι π :=
  ⟨s, Function.update c.points (T.current c.state) p⟩

def exec (T : Threads σ ι π) (c : Config σ ι π) : Event ι π → Option (Config σ ι π)
  | .stmt => (T.next (T.point c) c.state).map (fun x => T.move c x.1 x.2)
  | .call p => if T.begins c.state (T.point c) p then some (T.move c p c.state) else none
  | .tick i => (T.switch c.state i).map (fun s => ⟨s, c.points⟩)

theorem exec_cases (h : T.exec c e = some d) :
    (∃ p s, e = .stmt ∧ T.next (T.point c) c.state = some (p, s) ∧ d = T.move c p s) ∨
    (∃ p, e = .call p ∧ T.begins c.state (T.point c) p = true ∧ d = T.move c p c.state) ∨
    ∃ i s, e = .tick i ∧ T.switch c.state i = some s ∧ d = ⟨s, c.points⟩ := by
  cases e with
  | stmt =>
    obtain ⟨⟨p, s⟩, hnext, rfl⟩ := Option.map_eq_some_iff.mp h
    exact .inl ⟨p, s, rfl, hnext, rfl⟩
  | call p =>
    rw [exec, Option.ite_none_right_eq_some, Option.some.injEq] at h
    exact .inr (.inl ⟨p, rfl, h.1, h.2.symm⟩)
  | tick i =>
    obtain ⟨s, hs, rfl⟩ := Option.map_eq_some_iff.mp h
    exact .inr (.inr ⟨i, s, rfl, hs, rfl⟩)

end Threads

theorem forall_points {A B : ι → π → Prop} {points : ι → π} {i : ι} {p : π}
    (hall : ∀ j, A j (points j)) (hself : B i p) (hothers : ∀ j, j ≠ i → ∀ q, A j q → B j q) :
    ∀ j, B j (Function.update points i p j) := by
  intro j
  by_cases hj : j = i
  · subst hj
    rw [Function.update_self]
    exact hself
  · rw [Function.update_of_ne hj]
    exact hothers j hj _ (hall j)

theorem sum_update {n i : ℕ} (w : π → ℕ) (points : ℕ → π) (p : π) (hi : i < n) :
    ∑ k ∈ Finset.range n, w (Function.update points i p k) + w (points i) =
      ∑ k ∈ Finset.range n, w (points k) + w p := by
  have hmem : i ∈ Finset.range n := Finset.mem_range.mpr hi
  have hrest : ∀ k ∈ (Finset.range n).erase i, w (Function.update points i p k) = w (points k) := by
    intro k hk
    rw [Function.update_of_ne (Finset.ne_of_mem_erase hk)]
  rw [← Finset.add_sum_erase _ _ hmem, ← Finset.add_sum_erase (Finset.range n) (fun k => w (points k)) hmem,
    Finset.sum_congr rfl hrest, Function.update_self]
  omega

section Execution

variable {S O : Type}

def execAll (f : S → O → Option S) : S → List O → Option S
  | s, [] => some s
  | s, o :: os => (f s o).bind (fun t => execAll f t os)

theorem execAll_run {f : S → O → Option S} {s t : S} {os : List O} (h : execAll f s os = some t) :
    Run (fun s o t => f s o = some t) s os t := by
  induction os generalizing s with
  | nil =>
    obtain rfl := Option.some.inj h
    exact .nil
  | cons o os ih =>
    obtain ⟨u, hu, hrest⟩ := Option.bind_eq_some_iff.mp h
    exact .cons hu (ih hrest)

end Execution

end Library.Interleavings
