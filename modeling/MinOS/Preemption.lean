import MinOS.Library.Interleavings
import MinOS.Statements
import MinOS.ThreadStates

namespace MinOS

open Library.Interleavings

namespace Core

def setTasks (m : Core) (tasks : Tasks) : Core := { m with kernel := m.kernel.setTasks tasks }

def current (m : Core) : ℕ := m.kernel.tasks.curThreadIndex.toNat

def tick (m : Core) (i : ℕ) : Option Core :=
  if m.intr ∧ i < threadNum ∧ (m.kernel.tasks.thread i).state = .runnable then
    some (m.setTasks { m.kernel.tasks with curThreadIndex := i })
  else none

end Core

def preemptive {π : Type} (next : π → Core → Option (π × Core)) (begins : Core → π → π → Bool) :
    Threads Core ℕ π where
  current := Core.current
  next := next
  begins := begins
  switch := Core.tick

namespace Core

variable {m t : Core} {c i : ℕ}

theorem current_eq (h : m.kernel.tasks.Running c) : m.current = c := by
  rw [current, h.1, Int.toNat_natCast]

theorem tick_cases (h : m.tick i = some t) : m.intr = true ∧ t.kernel.tasks.Running i ∧
    t = m.setTasks { m.kernel.tasks with curThreadIndex := i } := by
  rw [tick, Option.ite_none_right_eq_some] at h
  obtain ⟨⟨hintr, hi, hstate⟩, ht⟩ := h
  rw [Option.some.injEq] at ht
  subst ht
  exact ⟨hintr, ⟨rfl, hi, hstate⟩, rfl⟩

end Core

end MinOS
