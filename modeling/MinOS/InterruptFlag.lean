import MinOS.SemaphoreCount
import MinOS.Statements

namespace MinOS

open Library.Integers Library.Programs Library.Programs.Program

def Exit.finish : Exit → Kernel → Option (ℤ × Kernel)
  | .stiRet r, s => some (r, s)
  | .threadScheduler, s => s.threadScheduler.map (fun t => (1, t))

namespace Code

variable {m : Core} {tid sem : ℤ}

@[simp] theorem fetch_run {α : Type} (f : Kernel → α) : (fetch f).run m = some (f m.kernel, m) :=
  run_single _

@[simp] theorem assign_run (f : Kernel → Kernel) :
    (assign f).run m = some ((), { m with kernel := f m.kernel }) :=
  run_single _

@[simp] theorem ioCli_run : ioCli.run m = some ((), { m with intr := false }) := run_single _

@[simp] theorem ioSti_run : ioSti.run m = some ((), { m with intr := true }) := run_single _

@[simp] theorem writeAll_run (cs : List Char) : (writeAll cs).run m = some ((), m) := by
  induction cs with
  | nil => rfl
  | cons c cs ih => simpa [writeAll, writeSerial] using ih

@[simp] theorem putsSerial_run (s : String) :
    (putsSerial s).run m = some ((), { m with intr := true }) := by
  simp [putsSerial]

@[simp] theorem putsnSerial_run (s : String) (n : ℤ) :
    (putsnSerial s n).run m = some ((), { m with intr := true }) := by
  simp [putsnSerial, putnSerial]

@[simp] theorem getCurThreadTid_run : getCurThreadTid.run m =
    m.kernel.tasks.getCurThreadTid.map (fun tid => (tid, { m with intr := true })) := by
  cases h : m.kernel.tasks.getCurThreadTid <;> simp [getCurThreadTid, h]

@[simp] theorem searchFrom_run (is : List ℕ) : (searchFrom tid is).run m =
    some (match is.find? (fun i => decide (m.kernel.tasks.tidIndexDict i = tid)) with
      | some i => (i : ℤ)
      | none => -1, m) := by
  induction is with
  | nil => rfl
  | cons i is ih =>
    by_cases h : m.kernel.tasks.tidIndexDict i = tid
    · simp [searchFrom, h]
    · simpa [searchFrom, h] using ih

@[simp] theorem searchIndexFromTid_run : (searchIndexFromTid tid).run m =
    some (m.kernel.tasks.searchIndexFromTid tid,
      { m with intr := m.intr || decide (m.kernel.tasks.searchIndexFromTid tid = -1) }) := by
  have hloop : (searchFrom tid (List.range threadNum)).run m =
      some (m.kernel.tasks.searchIndexFromTid tid, m) := searchFrom_run _
  rw [searchIndexFromTid, run_bind, hloop, Option.bind_some]
  by_cases h : m.kernel.tasks.searchIndexFromTid tid = -1
  · simp [h]
  · simp [h]

@[simp] theorem getThreadPtr_run : (getThreadPtr tid).run m =
    some (m.kernel.tasks.getThreadPtr tid,
      { m with intr := m.intr || decide (m.kernel.tasks.searchIndexFromTid tid = -1) }) := by
  simp [getThreadPtr, Tasks.getThreadPtr]

theorem changeState_run (state : ThreadState) : (changeState tid state).run m =
    some ((m.kernel.tasks.changeState tid state).1,
      { m with
        kernel := m.kernel.setTasks (m.kernel.tasks.changeState tid state).2
        intr := m.intr || decide (m.kernel.tasks.searchIndexFromTid tid = -1) }) := by
  by_cases h : m.kernel.tasks.getThreadPtr tid = .at 0
  · simp [changeState, Tasks.changeState, h, Kernel.setTasks]
  · simp [changeState, Tasks.changeState, h]

theorem enqueueSem_run : (enqueueSem tid sem).run m = some (match m.kernel.enqueueSem tid sem with
    | some s => ((1 : ℤ), { m with kernel := s })
    | none => (0, m)) := by
  by_cases h : (m.kernel.semtable sem).semqueue.num < nsemQueue
  · simp [enqueueSem, Kernel.enqueueSem, h, Kernel.setSemqueue, Kernel.setEntry, QueueSem.push]
  · simp [enqueueSem, Kernel.enqueueSem, h]

theorem dequeueSem_run : (dequeueSem sem).run m = some (match m.kernel.dequeueSem sem with
    | some x => ((1, x.1), { m with kernel := x.2 })
    | none => ((0, 0), m)) := by
  by_cases h : 0 < (m.kernel.semtable sem).semqueue.num
  · simp [dequeueSem, Kernel.dequeueSem, h, Kernel.setSemqueue, Kernel.setEntry, QueueSem.pop]
  · simp [dequeueSem, Kernel.dequeueSem, h]

theorem block_run : ((block sem tid).run m).bind (fun x => x.1.finish x.2.kernel) =
    m.kernel.block sem tid := by
  rw [block, run_bind, changeState_run, Option.bind_some, Kernel.block]
  dsimp only
  by_cases hfound : (m.kernel.tasks.changeState tid .wait).1 = 0
  · simp [hfound, Exit.finish]
  · rw [if_neg hfound, if_neg hfound]
    generalize (m.kernel.setTasks (m.kernel.tasks.changeState tid .wait).2) = s
    simp only [run_bind, getThreadPtr_run, Option.bind_some, assign_run, enqueueSem_run]
    cases henq : (s.setSid (s.tasks.obj (s.tasks.getThreadPtr tid)).sidPtr sem).enqueueSem tid sem with
    | none => simp [Exit.finish]
    | some t => simp [Exit.finish]

theorem wait_run (m : Core) (sem : ℤ) :
    ((wait sem).run m).bind (fun x => x.1.finish x.2.kernel) = m.kernel.wait sem := by
  by_cases hbad : isbadsem sem
  · simp [wait, Kernel.wait, hbad, Exit.finish]
  by_cases hstate : (m.kernel.semtable sem).semstate = sUsed
  · simp only [wait, Kernel.wait, hbad, hstate, run_bind, ioCli_run, fetch_run, assign_run, Option.bind_some,
      ↓reduceIte, ne_eq, not_true_eq_false]
    split_ifs with hneg
    · cases hcur : m.kernel.tasks.getCurThreadTid with
      | none => simp [Kernel.setSemcount, Kernel.setEntry, hcur]
      | some tid => simp [Kernel.setSemcount, Kernel.setEntry, hcur, block_run]
    · simp [Exit.finish]
  · simp [wait, Kernel.wait, hbad, hstate, Exit.finish]

theorem wake_run : ((wake sem).run m).bind (fun x => x.1.finish x.2.kernel) =
    match m.kernel.dequeueSem sem with
    | none => some (0, m.kernel)
    | some (tid, s) =>
      let (found, tasks) := s.tasks.changeState tid .runnable
      let s := s.setTasks tasks
      if found = 0 then some (0, s) else s.threadScheduler.map (fun s => (1, s)) := by
  rw [wake, run_bind, dequeueSem_run, Option.bind_some]
  cases m.kernel.dequeueSem sem with
  | none => simp [Exit.finish]
  | some x =>
    by_cases hfound : (x.2.tasks.changeState x.1 .runnable).1 = 0
    · simp [changeState_run, hfound, Exit.finish]
    · simp [changeState_run, hfound, Exit.finish]

theorem signal_run (m : Core) (sem : ℤ) :
    ((signal sem).run m).bind (fun x => x.1.finish x.2.kernel) = m.kernel.signal sem := by
  by_cases hbad : isbadsem sem
  · simp [signal, Kernel.signal, hbad, Exit.finish]
  by_cases hstate : (m.kernel.semtable sem).semstate = sUsed
  · simp only [signal, Kernel.signal, hbad, hstate, run_bind, ioCli_run, fetch_run, Option.bind_some,
      ↓reduceIte, ne_eq, not_true_eq_false]
    split_ifs with hneg
    · simp only [run_bind, assign_run, Option.bind_some]
      exact wake_run
    · simp [Exit.finish]
  · simp [signal, Kernel.signal, hbad, hstate, Exit.finish]

def Quiet (m : Core) : Prop := m.intr = false

@[simp] theorem fetch_quiet {α : Type} (f : Kernel → α) : Always Quiet (fetch f) m ↔ m.intr = false := by
  simp [fetch, Quiet]

@[simp] theorem assign_quiet (f : Kernel → Kernel) : Always Quiet (assign f) m ↔ m.intr = false := by
  simp [assign, Quiet]

@[simp] theorem ioCli_quiet : Always Quiet ioCli m := by simp [ioCli, Quiet]

@[simp] theorem ioSti_not_quiet : ¬ Always Quiet ioSti m := by simp [ioSti, Quiet]

theorem putsSerial_not_quiet (s : String) : ¬ Always Quiet (putsSerial s) m := by
  simp [putsSerial, always_bind]

theorem putsnSerial_not_quiet (s : String) (n : ℤ) : ¬ Always Quiet (putsnSerial s n) m := by
  intro h
  exact putsSerial_not_quiet s (always_bind.mp h).1

theorem getCurThreadTid_not_quiet (h : m.kernel.tasks.getCurThreadTid = some tid) :
    ¬ Always Quiet getCurThreadTid m := by
  simp [getCurThreadTid, always_bind, h]

theorem dequeueSem_quiet (h : m.intr = false) : Always Quiet (dequeueSem sem) m := by
  by_cases hpos : 0 < (m.kernel.semtable sem).semqueue.num
  · simp [dequeueSem, always_bind, h, hpos]
  · simp [dequeueSem, always_bind, h, hpos]

theorem wake_quiet_iff (h : m.intr = false) : Always Quiet (wake sem) m ↔
    (m.kernel.semtable sem).semqueue.num ≤ 0 := by
  rw [wake, always_bind, dequeueSem_run]
  rcases m.kernel.dequeueSem_cases sem with ⟨hnone, hle⟩ | ⟨hpos, heq⟩
  · simp [hnone, dequeueSem_quiet h, hle]
  · simp only [heq, dequeueSem_quiet h, true_and]
    constructor
    · intro hquiet
      have hputs := hquiet _ _ rfl
      rw [if_neg (by simp)] at hputs
      exact absurd (always_bind.mp hputs).1 (putsnSerial_not_quiet _ _)
    · omega

theorem wait_quiet_iff (hcur : m.kernel.tasks.getCurThreadTid = some tid) : Always Quiet (wait sem) m ↔
    ¬ (m.kernel.Used sem ∧ int32 ((m.kernel.semtable sem).semcount - 1) < 0) := by
  by_cases hbad : isbadsem sem
  · simp [wait, always_bind, hbad, Kernel.Used]
  by_cases hstate : (m.kernel.semtable sem).semstate = sUsed
  · have hu : m.kernel.Used sem := ⟨hbad, hstate⟩
    by_cases hneg : int32 ((m.kernel.semtable sem).semcount - 1) < 0
    · refine iff_of_false (fun hquiet => ?_) (fun hnot => hnot ⟨hu, hneg⟩)
      simp only [wait, hbad, ↓reduceIte, ne_eq, Kernel.setSemcount, ite_not, always_bind, ioCli_quiet,
        ioCli_run, Option.some.injEq, Prod.mk.injEq, true_and, fetch_quiet, fetch_run, and_imp,
        forall_apply_eq_imp_iff, forall_eq', hstate, assign_quiet, assign_run,
        Kernel.semtable_setEntry_self, hneg] at hquiet
      obtain ⟨hquiet, -⟩ := hquiet () ()
      exact absurd hquiet (getCurThreadTid_not_quiet hcur)
    · simp [wait, always_bind, hbad, hstate, hneg, Kernel.setSemcount]
  · simp [wait, always_bind, hbad, hstate, Kernel.Used]

theorem signal_quiet_iff : Always Quiet (signal sem) m ↔
    ¬ (m.kernel.Used sem ∧ (m.kernel.semtable sem).semcount < 0 ∧
      0 < (m.kernel.semtable sem).semqueue.num) := by
  by_cases hbad : isbadsem sem
  · simp [signal, always_bind, hbad, Kernel.Used]
  by_cases hstate : (m.kernel.semtable sem).semstate = sUsed
  · have hu : m.kernel.Used sem := ⟨hbad, hstate⟩
    by_cases hneg : (m.kernel.semtable sem).semcount < 0
    · simp [signal, always_bind, hbad, hstate, hneg, hu, Kernel.setSemcount, wake_quiet_iff]
    · simp [signal, always_bind, hbad, hstate, hneg, Kernel.setSemcount]
  · simp [signal, always_bind, hbad, hstate, Kernel.Used]

/-- No tick can come from the `io_cli` of `wait` or `signal` to its exit exactly when the caller of
`wait` does not have to wait and the call of `signal` finds no thread in the queue. -/
theorem critical_section_iff {m : Core} (hc : 0 ≤ m.kernel.tasks.curThreadIndex)
    (hcn : m.kernel.tasks.curThreadIndex < threadNum) (sem : ℤ) :
    (Always Quiet (wait sem) m ↔
      ¬ (m.kernel.Used sem ∧ int32 ((m.kernel.semtable sem).semcount - 1) < 0)) ∧
    (Always Quiet (signal sem) m ↔
      ¬ (m.kernel.Used sem ∧ (m.kernel.semtable sem).semcount < 0 ∧
        0 < (m.kernel.semtable sem).semqueue.num)) :=
  ⟨wait_quiet_iff (if_pos ⟨hc, hcn⟩), signal_quiet_iff⟩

theorem critical_section_iff_free :
    Always Quiet (wait 0) ⟨(Kernel.idleKernel.createSem 1).2, true, fun _ => 0⟩ ∧
    Always Quiet (signal 0) ⟨(Kernel.idleKernel.createSem 1).2, true, fun _ => 0⟩ := by
  obtain ⟨hwait, hsignal⟩ := @critical_section_iff
    ⟨(Kernel.idleKernel.createSem 1).2, true, fun _ => 0⟩ (by decide +kernel) (by decide +kernel) 0
  exact ⟨hwait.mpr (by decide +kernel), hsignal.mpr (by decide +kernel)⟩

/-- The thread 0 has counted itself as waiting, and a tick comes before it leaves the state `RUNNABLE`
and enters the queue. -/
theorem wait_interrupted : ∃ t ∈ (wait 0).path ⟨(Kernel.idleKernel.createSem 0).2, true, fun _ => 0⟩,
    t.intr = true ∧ (t.kernel.semtable 0).semcount = -1 ∧ (t.kernel.semtable 0).semqueue.num = 0 ∧
      (t.kernel.tasks.thread 0).state = .runnable := by
  have hvals : (((wait 0).path ⟨(Kernel.idleKernel.createSem 0).2, true, fun _ => 0⟩)[6]?).map
      (fun t => (t.intr, (t.kernel.semtable 0).semcount, (t.kernel.semtable 0).semqueue.num,
        (t.kernel.tasks.thread 0).state)) = some (true, -1, 0, .runnable) := by decide +kernel
  obtain ⟨t, ht, hfields⟩ := Option.map_eq_some_iff.mp hvals
  simp only [Prod.mk.injEq] at hfields
  exact ⟨t, List.mem_of_getElem? ht, hfields⟩

end Code

end MinOS
