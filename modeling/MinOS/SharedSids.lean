import MinOS.FailedCalls
import MinOS.Scheduling

namespace MinOS

open Library.Integers Library.Runs

namespace Kernel

def callerPtr (s : Kernel) : Option ThreadPtr := s.tasks.getCurThreadTid.map s.tasks.getThreadPtr

def Other (s : Kernel) (i : ℕ) : Prop := s.tasks.Live i ∧ s.callerPtr ≠ some (s.tasks.threads i)

def sidOf (s : Kernel) (i : ℕ) : ℤ := s.sids (s.tasks.thread i).sidPtr

instance (s : Kernel) (i : ℕ) : Decidable (s.Other i) := inferInstanceAs (Decidable ((_ ∧ _) ∧ _))

instance (s : Kernel) (sem : ℤ) : Decidable (s.Blocks sem) := inferInstanceAs (Decidable (_ ∧ _))

end Kernel

def SchedOp.KeepsSids (s t : Kernel) (op : SchedOp) : Prop :=
  ∀ sem, op = .wait sem → s.Blocks sem → ¬ s.WaitStuck sem → ∀ i, s.Other i → t.sidOf i = s.sidOf i

def SchedOp.SidsApart (s : Kernel) (op : SchedOp) : Prop :=
  ∀ sem p, op = .wait sem → s.Blocks sem → ¬ s.WaitStuck sem → s.callerPtr = some p →
    (∀ i, s.Other i → (s.tasks.thread i).sidPtr ≠ (s.tasks.obj p).sidPtr) ∨
      s.sids (s.tasks.obj p).sidPtr = sem

namespace Kernel

variable {s t s₀ : Kernel} {sem tid r : ℤ} {op : SchedOp} {ops : List SchedOp}

theorem sidPtr_setObj {tasks : Tasks} {p : ThreadPtr} {x : Thread} (hx : x.sidPtr = (tasks.obj p).sidPtr)
    (i : ℕ) : ((tasks.setObj p x).thread i).sidPtr = (tasks.thread i).sidPtr := by
  by_cases hp : tasks.threads i = p
  · rw [Tasks.thread_setObj_self x hp, hx, ← hp]
    rfl
  · rw [Tasks.thread_setObj_of_ne x hp]

theorem sids_blocking (s : Kernel) (sem tid : ℤ) : (s.blocking sem tid).sids =
    Function.update s.sids (s.tasks.obj (s.tasks.getThreadPtr tid)).sidPtr sem := by
  have hptr : (s.tasks.changeState tid .wait).2.getThreadPtr tid = s.tasks.getThreadPtr tid := by
    rw [Tasks.changeState]
    split_ifs <;> rfl
  have hsid : ((s.tasks.changeState tid .wait).2.obj (s.tasks.getThreadPtr tid)).sidPtr =
      (s.tasks.obj (s.tasks.getThreadPtr tid)).sidPtr := by
    rw [Tasks.changeState]
    split_ifs
    · rfl
    · rw [Tasks.obj_setObj_self]
  simp only [blocking, setSid, setTasks, hptr, hsid]

theorem sidPtr_blocking (s : Kernel) (sem tid : ℤ) (i : ℕ) :
    ((s.blocking sem tid).tasks.thread i).sidPtr = (s.tasks.thread i).sidPtr := by
  rw [tasks_blocking, Tasks.changeState]
  split_ifs
  · rfl
  · apply sidPtr_setObj
    rfl

theorem block_sids (hnull : s.tasks.getThreadPtr tid ≠ .at 0) (h : s.block sem tid = some (r, t)) :
    t.sids = Function.update s.sids (s.tasks.obj (s.tasks.getThreadPtr tid)).sidPtr sem ∧
      ∀ i, (t.tasks.thread i).sidPtr = (s.tasks.thread i).sidPtr := by
  rw [block_eq, if_neg hnull] at h
  split_ifs at h with hroom
  · obtain ⟨u, hu, hut⟩ := Option.map_eq_some_iff.mp h
    obtain ⟨-, rfl⟩ : 1 = r ∧ u = t := by simpa using hut
    obtain ⟨tasks, hnext, rfl⟩ := threadScheduler_cases hu
    obtain ⟨k, -, rfl⟩ := Option.map_eq_some_iff.mp hnext
    exact ⟨s.sids_blocking sem tid, s.sidPtr_blocking sem tid⟩
  · obtain ⟨-, rfl⟩ : 0 = r ∧ s.blocking sem tid = t := by simpa using h
    exact ⟨s.sids_blocking sem tid, s.sidPtr_blocking sem tid⟩

theorem step_blocks (h : SchedStep s (.wait sem) t) (hblocks : s.Blocks sem)
    (hfree : ¬ s.WaitStuck sem) : ∃ p, s.callerPtr = some p ∧
      ∀ i, t.sidOf i = Function.update s.sids (s.tasks.obj p).sidPtr sem (s.tasks.thread i).sidPtr := by
  rw [SchedStep, perform_wait] at h
  obtain ⟨⟨r, u⟩, hwait, rfl⟩ := Option.map_eq_some_iff.mp h
  rw [wait_of_neg hblocks.1 hblocks.2] at hwait
  obtain ⟨tid, htid, hblock⟩ := Option.bind_eq_some_iff.mp hwait
  have hnull : s.tasks.getThreadPtr tid ≠ .at 0 := by
    intro hnull
    exact hfree ⟨hblocks.1, hblocks.2, tid, htid, .inl hnull⟩
  obtain ⟨hsids, hptrs⟩ := block_sids (s := s.setSemcount sem _) hnull hblock
  refine ⟨s.tasks.getThreadPtr tid, by rw [callerPtr, htid, Option.map_some], fun i => ?_⟩
  rw [sidOf, hsids, hptrs]
  rfl

theorem step_keepsSids_iff (h : SchedStep s op t) : op.KeepsSids s t ↔ op.SidsApart s := by
  constructor
  · rintro hkeeps sem p rfl hblocks hfree hcaller
    obtain ⟨q, hq, hread⟩ := step_blocks h hblocks hfree
    obtain rfl := Option.some.inj (hcaller.symm.trans hq)
    by_cases hsid : s.sids (s.tasks.obj p).sidPtr = sem
    · exact .inr hsid
    · left
      intro i hi hshared
      apply hsid
      have hsame := hkeeps sem rfl hblocks hfree i hi
      rw [hread, hshared, Function.update_self, sidOf, hshared] at hsame
      exact hsame.symm
  · rintro hapart sem rfl hblocks hfree i hi
    obtain ⟨p, hp, hread⟩ := step_blocks h hblocks hfree
    rw [hread]
    by_cases hshared : (s.tasks.thread i).sidPtr = (s.tasks.obj p).sidPtr
    · rcases hapart sem p rfl hblocks hfree hp with hne | hsid
      · exact absurd hshared (hne i hi)
      · rw [sidOf, hshared, Function.update_self, hsid]
    · exact Function.update_of_ne hshared ..

/-- In every run a thread that blocks leaves alone what the other threads read through their
`sid_ptr`, exactly when none of these pointers is its own or the semaphore is there already. -/
theorem sids_kept_iff : Run (fun s op t => SchedStep s op t ∧ op.KeepsSids s t) s₀ ops t ↔
    Run (fun s op t => SchedStep s op t ∧ op.SidsApart s) s₀ ops t := by
  constructor
  · intro hrun
    exact hrun.mono (fun h => ⟨h.1, (step_keepsSids_iff h.1).mp h.2⟩)
  · intro hrun
    exact hrun.mono (fun h => ⟨h.1, (step_keepsSids_iff h.1).mpr h.2⟩)

/-- A forked child waits on a semaphore of its own choice, and the parent then takes that for the
one of its pipe. -/
theorem child_wait_redirects : ∃ (s₀ s t : Kernel) (p : ThreadPtr),
    zeroKernel.boot 0x400000 ⟨0, 0, 0⟩ = some s₀ ∧ s₀.tasks.threads 0 = p ∧
      Run SchedStep s₀ [.genPipe p, .createSem 0, .forkThread] s ∧
      s.wait 1 = some (1, t) ∧ s.Blocks 1 ∧ s.Other 0 ∧ s.sidOf 0 = 0 ∧ t.sidOf 0 = 1 := by
  have hvals : (zeroKernel.boot 0x400000 ⟨0, 0, 0⟩).bind (fun s₀ =>
      (s₀.genPipe (s₀.tasks.threads 0)).bind (fun x => ((x.2.createSem 0).2.forkThread).bind
        (fun s => (s.wait 1).map (fun y => ([y.1, s.sidOf 0, y.2.sidOf 0],
          decide (s.Blocks 1 ∧ s.Other 0)))))) = some ([1, 0, 1], true) := by
    decide +kernel
  obtain ⟨s₀, hboot, hvals⟩ := Option.bind_eq_some_iff.mp hvals
  obtain ⟨⟨r, s₁⟩, hgen, hvals⟩ := Option.bind_eq_some_iff.mp hvals
  obtain ⟨s, hfork, hvals⟩ := Option.bind_eq_some_iff.mp hvals
  obtain ⟨⟨r', t⟩, hwait, hfacts⟩ := Option.map_eq_some_iff.mp hvals
  simp only [Prod.mk.injEq, List.cons.injEq, and_true, decide_eq_true_eq] at hfacts
  obtain ⟨⟨rfl, hbefore, hafter⟩, hblocks, hother⟩ := hfacts
  have hpipe : SchedStep s₀ (.genPipe (s₀.tasks.threads 0)) s₁ := by
    rw [SchedStep, perform, hgen]
    rfl
  have hchild : SchedStep (s₁.createSem 0).2 .forkThread s := by
    rw [SchedStep, perform, hfork]
    rfl
  exact ⟨s₀, s, t, _, hboot, rfl, .cons hpipe (.cons rfl (.single hchild)), hwait, hblocks, hother,
    hbefore, hafter⟩

end Kernel

end MinOS
