import MinOS.SemaphoreCalls
import MinOS.ThreadTableRuns

namespace MinOS

open Library.Integers Library.Runs

inductive SemOp where
  | createSem (initCount : ℤ)
  | wait (sem : ℤ)
  | signal (sem : ℤ)
  | deleteSem (sem : ℤ)
  | other
deriving DecidableEq

/-- The calls on semaphores by any threads, and everything else between them. The calls of `wait`
and `signal` on `sem` return 1. -/
inductive SemStep (sem : ℤ) : Kernel → SemOp → Kernel → Prop
  | createSem {s : Kernel} {initCount : ℤ} :
      SemStep sem s (.createSem initCount) (s.createSem initCount).2
  | wait {s t : Kernel} {k r : ℤ} : s.wait k = some (r, t) → (k = sem → r = 1) →
      SemStep sem s (.wait k) t
  | signal {s t : Kernel} {k r : ℤ} : s.signal k = some (r, t) → (k = sem → r = 1) →
      SemStep sem s (.signal k) t
  | deleteSem {s : Kernel} {k : ℤ} : SemStep sem s (.deleteSem k) (s.deleteSem k).2
  | other {s t : Kernel} : t.semtable = s.semtable → SemStep sem s .other t

def SemOp.Wakes (sem : ℤ) (s : Kernel) (op : SemOp) : Prop :=
  op = .signal sem → (s.semtable sem).semcount < 0

namespace Kernel

variable {s t s₀ : Kernel} {sem n : ℤ} {op : SemOp} {ops : List SemOp}

def Counts (s : Kernel) (sem count : ℤ) : Prop :=
  s.Used sem ∧ (s.semtable sem).Balanced ∧ (s.semtable sem).semcount = count

theorem Counts.of_same {count : ℤ} (hc : s.Counts sem count)
    (h : t.semtable sem = s.semtable sem) : t.Counts sem count := by
  obtain ⟨hu, hb, hcount⟩ := hc
  exact ⟨⟨hu.1, by rw [h]; exact hu.2⟩, by rw [h]; exact hb, by rw [h]; exact hcount⟩

theorem wait_counts {count : ℤ} (hc : s.Counts sem count) (h : s.wait sem = some (1, t)) :
    t.Counts sem (count - 1) := by
  obtain ⟨hu, hb, rfl⟩ := hc
  have hdec := hb.int32_dec
  rcases wait_cases h with ⟨h0, -⟩ | ⟨-, hnn, -, rfl⟩ | ⟨-, hneg, tid, -, hblock⟩
  · cases h0
  · rw [hdec] at hnn ⊢
    have hentry : (s.setSemcount sem ((s.semtable sem).semcount - 1)).semtable sem =
        { s.semtable sem with semcount := (s.semtable sem).semcount - 1 } := semtable_setEntry_self ..
    exact ⟨⟨hu.1, by rw [hentry]; exact hu.2⟩, by rw [hentry]; exact hb.take (by omega), by rw [hentry]⟩
  · rw [hdec] at hneg hblock
    rcases block_semtable hblock with ⟨h0, -⟩ | ⟨-, hroom, ht⟩
    · cases h0
    · have hentry : t.semtable sem = ⟨(s.semtable sem).semstate, (s.semtable sem).semcount - 1,
          (s.semtable sem).semqueue.push tid⟩ := by
        rw [ht]
        simp [setSemqueue, setSemcount]
      simp only [setSemcount, semtable_setEntry_self] at hroom
      exact ⟨⟨hu.1, by rw [hentry]; exact hu.2⟩, by rw [hentry]; exact hb.push (by omega) hroom tid,
        by rw [hentry]⟩

theorem signal_counts {count : ℤ} (hc : s.Counts sem count) (h : s.signal sem = some (1, t)) :
    t.Counts sem (if count < 0 then count + 1 else count) := by
  obtain ⟨hu, hb, rfl⟩ := hc
  rcases signal_cases h with ⟨rfl, hr⟩ | ⟨-, hneg, ⟨h0, -⟩ | ⟨hpos, ht⟩⟩
  · rw [if_neg (by have := (hr rfl).2; omega)]
    exact ⟨hu, hb, rfl⟩
  · cases h0
  · rw [if_pos hneg]
    have hentry : t.semtable sem = ⟨(s.semtable sem).semstate, (s.semtable sem).semcount + 1,
        (s.semtable sem).semqueue.pop⟩ := by
      rw [ht, semtable_setEntry_self, hb.int32_inc hneg]
    exact ⟨⟨hu.1, by rw [hentry]; exact hu.2⟩, by rw [hentry]; exact hb.pop hneg, by rw [hentry]⟩

theorem step_counts {count : ℤ} (hc : s.Counts sem count) (h : SemStep sem s op t) :
    t.Counts sem (if op = .wait sem then count - 1
      else if op = .signal sem ∧ count < 0 then count + 1 else count) := by
  cases h with
  | createSem => exact hc.of_same (createSem_other hc.1 _)
  | @wait _ k r h hr =>
    by_cases hk : k = sem
    · subst hk
      rw [if_pos rfl]
      exact wait_counts hc (hr rfl ▸ h)
    · simpa [hk] using hc.of_same (wait_other h (Ne.symm hk))
  | @signal _ k r h hr =>
    by_cases hk : k = sem
    · subst hk
      simpa using signal_counts hc (hr rfl ▸ h)
    · simpa [hk] using hc.of_same (signal_other h (Ne.symm hk))
  | deleteSem => exact hc.of_same (deleteSem_other hc.1.1 _)
  | other h => exact hc.of_same (congrFun h sem)

theorem createSem_counts (hcreate : s.createSem n = (sem, s₀)) (hsem : sem ≠ -1)
    (hn : n < 2 ^ 31) : s₀.Counts sem n := by
  rcases s.createSem_cases n with h | ⟨h0, i, hi, -, que, h⟩
  · rw [h] at hcreate
    exact absurd (congrArg Prod.fst hcreate).symm hsem
  · obtain ⟨rfl, rfl⟩ : (i : ℤ) = sem ∧ _ = s₀ := by simpa [h] using hcreate
    have hentry := semtable_setEntry_self s i ⟨sUsed, n, ⟨0, 0, que⟩⟩
    exact ⟨⟨not_isbadsem hi, by rw [hentry]⟩, by rw [hentry]; exact .init h0 hn que, by rw [hentry]⟩

theorem count_snoc (ops : List SemOp) (op x : SemOp) :
    ((ops ++ [op]).count x : ℤ) = ops.count x + if op = x then 1 else 0 := by
  rw [List.count_append, List.count_singleton]
  by_cases h : op = x <;> simp [h]

theorem run_counts (h₀ : s₀.Counts sem n) (hrun : Run (SemStep sem) s₀ ops t) :
    ∃ count, t.Counts sem count ∧ count ≤ n + ops.count (.signal sem) - ops.count (.wait sem) ∧
      (count = n + ops.count (.signal sem) - ops.count (.wait sem) →
        Run (fun s op t => SemStep sem s op t ∧ op.Wakes sem s) s₀ ops t) := by
  induction hrun with
  | nil => exact ⟨n, h₀, by simp, fun _ => .nil⟩
  | @snoc ops t op u hrun hstep ih =>
    obtain ⟨count, hc, hle, hwake⟩ := ih
    have hcount : (t.semtable sem).semcount = count := hc.2.2
    rw [count_snoc, count_snoc]
    refine ⟨_, step_counts hc hstep, ?_⟩
    by_cases hw : op = .wait sem
    · subst hw
      simp only [↓reduceIte, reduceCtorEq]
      exact ⟨by omega, fun heq => (hwake (by omega)).snoc ⟨hstep, by simp [SemOp.Wakes]⟩⟩
    · by_cases hs : op = .signal sem
      · subst hs
        simp only [↓reduceIte, reduceCtorEq, true_and]
        split_ifs with hneg
        · exact ⟨by omega, fun heq => (hwake (by omega)).snoc ⟨hstep, fun _ => hcount ▸ hneg⟩⟩
        · exact ⟨by omega, fun heq => by omega⟩
      · simp only [hw, hs, ↓reduceIte, false_and]
        exact ⟨by omega, fun heq => (hwake (by omega)).snoc ⟨hstep, fun h => absurd h hs⟩⟩

theorem run_counts_of_wakes (h₀ : s₀.Counts sem n)
    (hrun : Run (fun s op t => SemStep sem s op t ∧ op.Wakes sem s) s₀ ops t) :
    t.Counts sem (n + ops.count (.signal sem) - ops.count (.wait sem)) := by
  induction hrun with
  | nil => simpa using h₀
  | @snoc ops t op u _ hstep ih =>
    have hu := step_counts ih hstep.1
    rw [count_snoc, count_snoc]
    by_cases hw : op = .wait sem
    · subst hw
      simp only [↓reduceIte, reduceCtorEq] at hu ⊢
      convert hu using 1
      omega
    · by_cases hs : op = .signal sem
      · have hneg := hstep.2 hs
        rw [ih.2.2] at hneg
        subst hs
        simp only [hneg, ↓reduceIte, reduceCtorEq, and_self] at hu ⊢
        convert hu using 1
        omega
      · simp only [hw, hs, ↓reduceIte, false_and] at hu ⊢
        simpa using hu

/-- Over a run of calls that all return 1 the count follows the law exactly when every signal
found a thread waiting. -/
theorem semcount_law_iff (hcreate : s.createSem n = (sem, s₀)) (hsem : sem ≠ -1)
    (hn : n < 2 ^ 31) (hrun : Run (SemStep sem) s₀ ops t) :
    (t.semtable sem).semcount = n + ops.count (.signal sem) - ops.count (.wait sem) ↔
      Run (fun s op t => SemStep sem s op t ∧ op.Wakes sem s) s₀ ops t := by
  have h₀ := createSem_counts hcreate hsem hn
  constructor
  · intro hlaw
    obtain ⟨count, hc, -, hwake⟩ := run_counts h₀ hrun
    exact hwake (hc.2.2.symm.trans hlaw)
  · intro hwakes
    exact (run_counts_of_wakes h₀ hwakes).2.2

def idleKernel : Kernel where
  tasks := (Tasks.twoTasks.changeState 1 .runnable).2
  heap := ⟨fun _ => ⟨0, 0⟩, 0, 0, 0⟩
  semtable _ := ⟨sFree, 0, ⟨0, 0, fun _ => 0⟩⟩
  sids _ := 0
  pipes _ := ⟨0, .empty⟩
  threadExec := 0

theorem semcount_law_iff_example : ∃ s₁ s₂ : Kernel,
    (idleKernel.createSem 0).2.wait 0 = some (1, s₁) ∧ s₁.signal 0 = some (1, s₂) ∧
      (s₁.semtable 0).semcount = -1 ∧ (s₂.semtable 0).semcount = 0 := by
  have hvals : ((idleKernel.createSem 0).2.wait 0).bind
      (fun x => (x.2.signal 0).map (fun y => [x.1, (x.2.semtable 0).semcount, y.1])) =
        some [1, -1, 1] := by decide +kernel
  obtain ⟨⟨r, s₁⟩, hwait, hsig⟩ := Option.bind_eq_some_iff.mp hvals
  obtain ⟨⟨r', s₂⟩, hsignal, hrs⟩ := Option.map_eq_some_iff.mp hsig
  simp only [List.cons.injEq, and_true] at hrs
  obtain ⟨rfl, hcount, rfl⟩ := hrs
  have hfirst : SemStep 0 (idleKernel.createSem 0).2 (.wait 0) s₁ := .wait hwait (fun _ => rfl)
  have hsecond : SemStep 0 s₁ (.signal 0) s₂ := .signal hsignal (fun _ => rfl)
  have hwakes : (SemOp.wait 0).Wakes 0 (idleKernel.createSem 0).2 ∧ (SemOp.signal 0).Wakes 0 s₁ :=
    ⟨by simp [SemOp.Wakes], fun _ => by rw [hcount]; decide⟩
  have hlaw := (semcount_law_iff (s := idleKernel) (n := 0) rfl (by decide) (by decide)
    (.cons hfirst (.single hsecond))).mpr (.cons ⟨hfirst, hwakes.1⟩ (.single ⟨hsecond, hwakes.2⟩))
  exact ⟨s₁, s₂, hwait, hsignal, hcount, hlaw⟩

/-- A signal that nobody waits for changes nothing, and the next wait still blocks. -/
theorem signal_forgotten : ∃ s₁ s₂ : Kernel,
    Run (SemStep 0) (idleKernel.createSem 0).2 [.signal 0] s₁ ∧
      (s₁.semtable 0).semcount ≠ 0 + [SemOp.signal 0].count (.signal 0) - [SemOp.signal 0].count (.wait 0) ∧
      s₁.wait 0 = some (1, s₂) ∧ (s₂.tasks.thread 0).state = .wait := by
  have hvals : ((idleKernel.createSem 0).2.signal 0).bind (fun x => (x.2.wait 0).map (fun y =>
      ([x.1, (x.2.semtable 0).semcount, y.1], (y.2.tasks.thread 0).state))) =
        some ([1, 0, 1], .wait) := by decide +kernel
  obtain ⟨⟨r, s₁⟩, hsignal, hsig⟩ := Option.bind_eq_some_iff.mp hvals
  obtain ⟨⟨r', s₂⟩, hwait, hrs⟩ := Option.map_eq_some_iff.mp hsig
  simp only [Prod.mk.injEq, List.cons.injEq, and_true] at hrs
  obtain ⟨⟨rfl, hcount, rfl⟩, hstate⟩ := hrs
  exact ⟨s₁, s₂, .single (.signal hsignal (fun _ => rfl)), by rw [hcount]; decide, hwait, hstate⟩

end Kernel

end MinOS
