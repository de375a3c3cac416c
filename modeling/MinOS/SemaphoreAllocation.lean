import Mathlib.Data.Finset.Card
import MinOS.SemaphoreCount

namespace MinOS

open Library.Integers Library.Runs

inductive AllocOp where
  | createSem (initCount : ℤ)
  | deleteSem (sem : ℤ)
  | wait (sem : ℤ)
  | signal (sem : ℤ)
  | other

namespace Kernel

def usedIds (s : Kernel) : Finset ℕ := (Finset.range nsem).filter (fun i : ℕ => s.Used i)

def CreatesRight (s : Kernel) (n : ℤ) : Prop :=
  0 ≤ n → (∃ sem t, s.createSem n = (sem, t) ∧ ¬ isbadsem sem ∧ ¬ s.Used sem ∧ t.Used sem ∧
      (t.semtable sem).semcount = n ∧ (t.semtable sem).semqueue.num = 0) ∨
    (s.createSem n).1 = -1 ∧ ∀ sem, ¬ isbadsem sem → s.Used sem

def DeleteAvoids (s : Kernel) (sem k : ℤ) : Prop :=
  ∀ e, (s.setEntry k e).deleteSem sem = ((s.deleteSem sem).1, (s.deleteSem sem).2.setEntry k e)

def DeletesRight (s : Kernel) (sem : ℤ) : Prop :=
  (s.Used sem → (s.deleteSem sem).1 = 1 ∧
    ((s.deleteSem sem).2.semtable sem).semstate = sFree ∧
    ((s.deleteSem sem).2.semtable sem).semqueue.num = 0 ∧
    ∀ tid ∈ (s.semtable sem).semqueue.tids, ∀ i, s.tasks.Live i → (s.tasks.thread i).tid = tid →
      ((s.deleteSem sem).2.tasks.thread i).state = .runnable) ∧
  (¬ s.Used sem → s.deleteSem sem = (0, s) ∧ ∀ k, isbadsem k → s.DeleteAvoids sem k)

end Kernel

/-- A kernel, how many semaphores `create_sem` has handed out, and how many calls of `delete_sem`
there were on a semaphore in use. -/
structure Tally where
  kernel : Kernel
  created : ℕ
  deleted : ℕ

inductive AllocStep : Tally → AllocOp → Tally → Prop
  | createSem {w : Tally} {n : ℤ} : AllocStep w (.createSem n)
      ⟨(w.kernel.createSem n).2,
        if (w.kernel.createSem n).1 = -1 then w.created else w.created + 1, w.deleted⟩
  | deleteSem {w : Tally} {sem : ℤ} : AllocStep w (.deleteSem sem)
      ⟨(w.kernel.deleteSem sem).2, w.created,
        if w.kernel.Used sem then w.deleted + 1 else w.deleted⟩
  | wait {w : Tally} {t : Kernel} {sem r : ℤ} : w.kernel.wait sem = some (r, t) →
      AllocStep w (.wait sem) ⟨t, w.created, w.deleted⟩
  | signal {w : Tally} {t : Kernel} {sem r : ℤ} : w.kernel.signal sem = some (r, t) →
      AllocStep w (.signal sem) ⟨t, w.created, w.deleted⟩
  | other {w : Tally} {t : Kernel} : t.semtable = w.kernel.semtable →
      AllocStep w .other ⟨t, w.created, w.deleted⟩

def AllocOp.Right (s : Kernel) : AllocOp → Prop
  | .createSem n => s.CreatesRight n
  | .deleteSem sem => s.DeletesRight sem
  | _ => True

def AllocOp.DeletesFree (s : Kernel) (op : AllocOp) : Prop :=
  ∀ sem, op = .deleteSem sem → ¬ isbadsem sem ∧ ¬ s.Used sem

namespace Kernel

variable {s t : Kernel} {sem k n r : ℤ}

theorem mem_usedIds {i : ℕ} : i ∈ s.usedIds ↔ s.Used i := by
  rw [usedIds, Finset.mem_filter, Finset.mem_range]
  constructor
  · exact And.right
  · intro hu
    have hgood := hu.1
    simp only [isbadsem] at hgood
    exact ⟨by omega, hu⟩

theorem wait_semstate (h : s.wait sem = some (r, t)) (k : ℤ) :
    (t.semtable k).semstate = (s.semtable k).semstate := by
  by_cases hk : k = sem
  · subst hk
    rcases wait_cases h with ⟨-, rfl⟩ | ⟨-, -, -, rfl⟩ | ⟨-, -, tid, -, hblock⟩
    · rfl
    · rw [setSemcount, semtable_setEntry_self]
    · rcases block_semtable hblock with ⟨-, ht⟩ | ⟨-, -, ht⟩
      · rw [ht, setSemcount, semtable_setEntry_self]
      · rw [ht, setSemqueue, semtable_setEntry_self, setSemcount, semtable_setEntry_self]
  · rw [wait_other h hk]

theorem signal_semstate (h : s.signal sem = some (r, t)) (k : ℤ) :
    (t.semtable k).semstate = (s.semtable k).semstate := by
  by_cases hk : k = sem
  · subst hk
    rcases signal_cases h with ⟨rfl, -⟩ | ⟨-, -, ⟨-, rfl⟩ | ⟨-, ht⟩⟩
    · rfl
    · rw [setSemcount, semtable_setEntry_self]
    · rw [ht, semtable_setEntry_self]
  · rw [signal_other h hk]

theorem usedIds_congr (h : ∀ k, ¬ isbadsem k → (t.semtable k).semstate = (s.semtable k).semstate) :
    t.usedIds = s.usedIds := by
  ext i
  rw [mem_usedIds, mem_usedIds, Used, Used]
  apply and_congr_right
  intro hgood
  rw [h i hgood]

def Marked (s : Kernel) : Prop :=
  ∀ sem, ¬ isbadsem sem → (s.semtable sem).semstate = sFree ∨ (s.semtable sem).semstate = sUsed

theorem not_used_of_free (h : (s.semtable sem).semstate = sFree) : ¬ s.Used sem := by
  rintro ⟨-, hu⟩
  exact absurd (h.symm.trans hu) (by decide)

theorem createSem_right (hs : s.Marked) (n : ℤ) : s.CreatesRight n := by
  intro h0
  rcases s.newsem_cases with hfull | ⟨i, hi, hfree, hnew⟩
  · refine .inr ⟨by simp [createSem, hfull, show ¬ n < 0 by omega], fun sem hgood => ⟨hgood, ?_⟩⟩
    have hrange : 0 ≤ sem ∧ sem < nsem := by
      simp only [isbadsem] at hgood
      omega
    obtain ⟨j, rfl⟩ := Int.eq_ofNat_of_zero_le hrange.1
    exact (hs _ hgood).resolve_left (newsem_full hfull (by omega))
  · refine .inl ⟨i, s.setEntry i ⟨sUsed, n, ⟨0, 0, fun _ => -1⟩⟩, ?_, not_isbadsem hi,
      not_used_of_free hfree, ⟨not_isbadsem hi, ?_⟩, ?_, ?_⟩
    · simp [createSem, hnew, setEntry, show ¬ n < 0 by omega, show ¬ ((i : ℤ) < 0) by omega]
    · rw [semtable_setEntry_self]
    · rw [semtable_setEntry_self]
    · rw [semtable_setEntry_self]

theorem deleteSem_of_bad (hbad : isbadsem sem) (hnum : (s.semtable sem).semqueue.num = 0) :
    (s.deleteSem sem).1 = if (s.semtable sem).semstate = sFree then 1 else 0 := by
  rw [deleteSem, if_neg (not_not.mpr hbad)]
  by_cases hstate : (s.semtable sem).semstate = sFree
  · rw [if_neg (not_not.mpr hstate), if_pos hstate]
    simp only [semtable_setEntry_self, hnum, Int.toNat_zero, releaseWaiters]
  · rw [if_pos hstate, if_neg hstate]

theorem deletesRight_iff : s.DeletesRight sem ↔ ¬ isbadsem sem ∧ ¬ s.Used sem := by
  constructor
  · rintro ⟨hused, hfree⟩
    by_cases hu : s.Used sem
    · have hone := (hused hu).1
      rw [deleteSem_of_good hu.1] at hone
      exact absurd hone zero_ne_one
    · refine ⟨fun hbad => ?_, hu⟩
      have havoid : ∀ state, (s.deleteSem sem).1 = if state = sFree then 1 else 0 := by
        intro state
        have hentry := semtable_setEntry_self s sem ⟨state, 0, ⟨0, 0, fun _ => 0⟩⟩
        have hfst := congrArg Prod.fst ((hfree hu).2 sem hbad ⟨state, 0, ⟨0, 0, fun _ => 0⟩⟩)
        rw [deleteSem_of_bad hbad (by rw [hentry]), hentry] at hfst
        exact hfst.symm
      exact absurd ((havoid sFree).symm.trans (havoid sUsed)) (by decide)
  · rintro ⟨hgood, hu⟩
    refine ⟨fun h => absurd h hu, fun _ => ⟨deleteSem_of_good hgood s, fun k _ e => ?_⟩⟩
    rw [deleteSem_of_good hgood, deleteSem_of_good hgood]

theorem Marked.of_semstate (hs : s.Marked)
    (h : ∀ k, ¬ isbadsem k → (t.semtable k).semstate = (s.semtable k).semstate) : t.Marked := by
  intro k hgood
  rw [h k hgood]
  exact hs k hgood

end Kernel

namespace Tally

variable {v w : Tally} {op : AllocOp} {ops : List AllocOp} {s₀ : Kernel}

structure Leaks (w : Tally) : Prop where
  marked : w.kernel.Marked
  card_eq : w.kernel.usedIds.card = w.created

theorem Leaks.init (h : ∀ sem, ¬ isbadsem sem → (s₀.semtable sem).semstate = sFree) :
    Leaks ⟨s₀, 0, 0⟩ := by
  constructor
  · exact fun sem hgood => .inl (h sem hgood)
  · rw [Finset.card_eq_zero, Finset.eq_empty_iff_forall_notMem]
    intro i hi
    have hu := Kernel.mem_usedIds.mp hi
    exact Kernel.not_used_of_free (h i hu.1) hu

theorem Leaks.keep {t : Kernel} {deleted : ℕ} (hv : v.Leaks)
    (h : ∀ k, ¬ isbadsem k → (t.semtable k).semstate = (v.kernel.semtable k).semstate) :
    Leaks ⟨t, v.created, deleted⟩ := by
  constructor
  · exact hv.marked.of_semstate h
  · rw [Kernel.usedIds_congr h]
    exact hv.card_eq

theorem Leaks.createSem (hv : v.Leaks) (n : ℤ) : Leaks ⟨(v.kernel.createSem n).2,
    if (v.kernel.createSem n).1 = -1 then v.created else v.created + 1, v.deleted⟩ := by
  rcases v.kernel.createSem_cases n with h | ⟨-, i, hi, hfree, que, h⟩
  · rw [h, if_pos rfl]
    exact hv
  · rw [h, if_neg (show ¬ (i : ℤ) = -1 by omega)]
    have hself : ((v.kernel.setEntry i ⟨sUsed, n, ⟨0, 0, que⟩⟩).semtable i).semstate = sUsed := by
      rw [Kernel.semtable_setEntry_self]
    constructor
    · intro k hgood
      by_cases hk : k = i
      · exact .inr (hk ▸ hself)
      · dsimp only
        rw [Kernel.semtable_setEntry_of_ne _ hk]
        exact hv.marked k hgood
    · have hinsert : (v.kernel.setEntry i ⟨sUsed, n, ⟨0, 0, que⟩⟩).usedIds =
          insert i v.kernel.usedIds := by
        ext j
        rw [Finset.mem_insert, Kernel.mem_usedIds, Kernel.mem_usedIds]
        by_cases hj : j = i
        · subst hj
          simpa using ⟨Kernel.not_isbadsem hi, hself⟩
        · rw [Kernel.Used, Kernel.semtable_setEntry_of_ne _ (show (j : ℤ) ≠ i by omega)]
          simp [hj, Kernel.Used]
      have hnew : i ∉ v.kernel.usedIds := by
        rw [Kernel.mem_usedIds]
        exact Kernel.not_used_of_free hfree
      dsimp only
      rw [hinsert, Finset.card_insert_of_notMem hnew, hv.card_eq]

theorem Leaks.step (hv : v.Leaks) (h : AllocStep v op w) : w.Leaks := by
  cases h with
  | createSem => exact hv.createSem _
  | deleteSem =>
    apply hv.keep
    intro k hgood
    rw [Kernel.deleteSem_other hgood]
  | wait h => exact hv.keep (fun k _ => Kernel.wait_semstate h k)
  | signal h => exact hv.keep (fun k _ => Kernel.signal_semstate h k)
  | other h => exact hv.keep (fun k _ => by rw [h])

theorem deleted_eq (h : AllocStep v op w) (hfree : op.DeletesFree v.kernel) :
    w.deleted = v.deleted := by
  cases h with
  | deleteSem => exact if_neg (hfree _ rfl).2
  | createSem | wait _ | signal _ | other _ => rfl

theorem right_of_deletesFree (hv : v.Leaks) (hfree : op.DeletesFree v.kernel) :
    op.Right v.kernel := by
  cases op with
  | createSem n => exact Kernel.createSem_right hv.marked n
  | deleteSem sem => exact Kernel.deletesRight_iff.mpr (hfree sem rfl)
  | wait _ | signal _ | other => trivial

theorem deletesFree_of_right (h : op.Right v.kernel) : op.DeletesFree v.kernel := by
  rintro sem rfl
  exact Kernel.deletesRight_iff.mp h

/-- The calls keep their promises, and the ids in use are those created less those deleted, in a run
exactly when none of its calls deletes a semaphore in use or a number outside the table. -/
theorem sem_allocation_iff
    (hfree : ∀ sem, ¬ isbadsem sem → (s₀.semtable sem).semstate = sFree) :
    Run (fun v op w => AllocStep v op w ∧ op.Right v.kernel ∧
        (w.kernel.usedIds.card : ℤ) = w.created - w.deleted) ⟨s₀, 0, 0⟩ ops w ↔
      Run (fun v op w => AllocStep v op w ∧ op.DeletesFree v.kernel) ⟨s₀, 0, 0⟩ ops w := by
  constructor
  · intro hrun
    exact hrun.mono (fun h => ⟨h.1, deletesFree_of_right h.2.1⟩)
  · intro hrun
    suffices h : (w.Leaks ∧ w.deleted = 0) ∧ Run (fun v op w => AllocStep v op w ∧
        op.Right v.kernel ∧ (w.kernel.usedIds.card : ℤ) = w.created - w.deleted) ⟨s₀, 0, 0⟩ ops w by
      exact h.2
    induction hrun with
    | nil => exact ⟨⟨.init hfree, rfl⟩, .nil⟩
    | snoc _ h ih =>
      obtain ⟨⟨hleaks, hzero⟩, hright⟩ := ih
      have hnext := hleaks.step h.1
      have hdeleted := (deleted_eq h.1 h.2).trans hzero
      refine ⟨⟨hnext, hdeleted⟩, hright.snoc ⟨h.1, right_of_deletesFree hleaks h.2, ?_⟩⟩
      rw [hnext.card_eq, hdeleted]
      simp

theorem idleKernel_free (sem : ℤ) (_ : ¬ isbadsem sem) :
    (Kernel.idleKernel.semtable sem).semstate = sFree := rfl

theorem sem_allocation_iff_example : ∃ w : Tally,
    Run AllocStep ⟨Kernel.idleKernel, 0, 0⟩ [.createSem 3, .deleteSem 7] w ∧
      w.kernel.usedIds.card = 1 ∧ (w.kernel.semtable 0).semcount = 3 := by
  have hstep : ∀ n, AllocOp.DeletesFree Kernel.idleKernel (.createSem n) := by
    rintro n sem h
    cases h
  have hdelete : AllocOp.DeletesFree (Kernel.idleKernel.createSem 3).2 (.deleteSem 7) := by
    rintro sem h
    obtain rfl : 7 = sem := by simpa using h
    decide +kernel
  have hright := (sem_allocation_iff idleKernel_free).mpr
    (.cons ⟨.createSem, hstep 3⟩ (.single ⟨.deleteSem, hdelete⟩))
  exact ⟨_, hright.mono (fun h => h.1), by decide +kernel, by decide +kernel⟩

/-- `delete_sem` answers 0 for a semaphore in use and leaves it in use, and 1 for the first number
behind the table. -/
theorem delete_sem_refuses : ∃ w : Tally,
    Run AllocStep ⟨Kernel.idleKernel, 0, 0⟩ [.createSem 3, .deleteSem 0] w ∧
      (Kernel.idleKernel.createSem 3).1 = 0 ∧ (Kernel.idleKernel.createSem 3).2.Used 0 ∧
      ((Kernel.idleKernel.createSem 3).2.deleteSem 0).1 = 0 ∧
      (w.kernel.usedIds.card : ℤ) ≠ w.created - w.deleted ∧
      ¬ Kernel.idleKernel.Used 100 ∧ (Kernel.idleKernel.deleteSem 100).1 = 1 := by
  refine ⟨_, .cons .createSem (.single .deleteSem), ?_⟩
  decide +kernel

end Tally

end MinOS
