import MinOS.Boot
import MinOS.TidLookups

namespace MinOS

open Library.Integers Library.Runs

def QueueSem.drained : ℕ → QueueSem → List ℤ
  | 0, _ => []
  | n + 1, que => que.que que.head :: drained n que.pop

namespace Kernel

def releaseIndices (sem : ℤ) : ℕ → Kernel → List ℤ
  | 0, _ => []
  | n + 1, s =>
    match s.dequeueSem sem with
    | none => []
    | some (tid, s) =>
      let (found, tasks) := s.tasks.changeState tid .runnable
      s.tasks.searchIndexFromTid tid ::
        if found = 0 then [] else releaseIndices sem n (s.setTasks tasks)

def deleteIndices (s : Kernel) (sem : ℤ) : List ℤ :=
  if ¬ isbadsem sem then []
  else if (s.semtable sem).semstate ≠ sFree then []
  else
    let s := s.setEntry sem { s.semtable sem with semstate := sFree }
    releaseIndices sem (s.semtable sem).semqueue.num.toNat s

/-- The indices into `threads` and `tid_index_dict` that `thread_end` uses, one after the other. -/
def endIndices (s : Kernel) (p : ThreadPtr) : List ℤ :=
  let t := s.tasks.obj p
  [t.index, s.tasks.searchIndexFromTid t.ptid, t.index] ++
    match s.tasks.unregister p with
    | none => []
    | some tasks =>
      let s := s.setTasks tasks
      if s.getSemcount (s.sids t.sidPtr) = 0 then s.deleteIndices (s.sids t.sidPtr) else []

def wokenAtEnd (s : Kernel) (t : Thread) : List ℤ :=
  let sem := s.sids t.sidPtr
  if s.getSemcount sem = 0 ∧ isbadsem sem ∧ (s.semtable sem).semstate = sFree then
    (s.semtable sem).semqueue.drained (s.semtable sem).semqueue.num.toNat
  else []

def InTable (i : ℤ) : Prop := 0 ≤ i ∧ i < threadNum

variable {s : Kernel} {sem : ℤ}

theorem searchIndexFromTid_inTable (s : Tasks) (tid : ℤ) :
    InTable (s.searchIndexFromTid tid) ↔ s.searchIndexFromTid tid ≠ -1 := by
  rcases s.searchIndexFromTid_cases tid with ⟨he, -⟩ | ⟨k, he, hk, -⟩
  · rw [he]
    exact iff_of_false (fun h => absurd h.1 (by decide)) (fun h => h rfl)
  · rw [he]
    exact iff_of_true ⟨by omega, by exact_mod_cast hk⟩ (by omega)

def wakeFirst (s : Kernel) (sem : ℤ) : Kernel :=
  let que := (s.semtable sem).semqueue
  (s.setSemqueue sem que.pop).setTasks (s.tasks.changeState (que.que que.head) .runnable).2

theorem releaseIndices_succ {n : ℕ} (hpos : 0 < (s.semtable sem).semqueue.num) :
    releaseIndices sem (n + 1) s =
      s.tasks.searchIndexFromTid ((s.semtable sem).semqueue.que (s.semtable sem).semqueue.head) ::
        if (s.tasks.changeState ((s.semtable sem).semqueue.que (s.semtable sem).semqueue.head)
          .runnable).1 = 0 then [] else releaseIndices sem n (s.wakeFirst sem) := by
  rw [releaseIndices, dequeueSem, if_pos hpos]
  rfl

theorem changeState_kept (s : Tasks) (tid : ℤ) (state : ThreadState) :
    (s.changeState tid state).2.threads = s.threads ∧
      (s.changeState tid state).2.tidIndexDict = s.tidIndexDict := by
  rw [Tasks.changeState]
  split_ifs
  · exact ⟨rfl, rfl⟩
  · exact ⟨rfl, rfl⟩

theorem releaseIndices_inTable {n : ℕ} (hptr : ∀ k, k < threadNum → s.tasks.threads k ≠ .at 0)
    (hn : n ≤ (s.semtable sem).semqueue.num) :
    (∀ i ∈ releaseIndices sem n s, InTable i) ↔
      ∀ tid ∈ (s.semtable sem).semqueue.drained n, s.tasks.searchIndexFromTid tid ≠ -1 := by
  induction n generalizing s with
  | zero => simp [releaseIndices, QueueSem.drained]
  | succ n ih =>
    rw [releaseIndices_succ (by omega), QueueSem.drained, List.forall_mem_cons, List.forall_mem_cons,
      searchIndexFromTid_inTable]
    apply and_congr_right
    intro hfound
    generalize (s.semtable sem).semqueue.que (s.semtable sem).semqueue.head = tid at hfound
    have hget : s.tasks.getThreadPtr tid ≠ .at 0 := by
      rcases s.tasks.searchIndexFromTid_cases tid with ⟨he, -⟩ | ⟨k, he, hk, -⟩
      · exact absurd he hfound
      · rw [Tasks.getThreadPtr, if_neg hfound, he, Int.toNat_natCast]
        exact hptr k hk
    have hone : (s.tasks.changeState tid .runnable).1 = 1 := by
      rw [Tasks.changeState, if_neg hget]
    obtain ⟨hthreads, hdict⟩ := changeState_kept s.tasks
      ((s.semtable sem).semqueue.que (s.semtable sem).semqueue.head) .runnable
    have hque : ((s.wakeFirst sem).semtable sem).semqueue = (s.semtable sem).semqueue.pop := by
      simp [wakeFirst, setSemqueue, setEntry, setTasks]
    have hsearch : ∀ x, (s.wakeFirst sem).tasks.searchIndexFromTid x = s.tasks.searchIndexFromTid x := by
      intro x
      simp only [Tasks.searchIndexFromTid, wakeFirst, setTasks, hdict]
    have hrest := ih (s := s.wakeFirst sem) (fun k hk => ?_) ?_
    · rw [hone, if_neg (by decide), hrest, hque]
      simp only [hsearch]
    · simp only [wakeFirst, setTasks, hthreads]
      exact hptr k hk
    · rw [hque]
      simp only [QueueSem.pop]
      omega

theorem deleteIndices_inTable (t : Thread) (hptr : ∀ k, k < threadNum → s.tasks.threads k ≠ .at 0) :
    (∀ i ∈ (if s.getSemcount (s.sids t.sidPtr) = 0 then s.deleteIndices (s.sids t.sidPtr) else []),
      InTable i) ↔ ∀ tid ∈ s.wokenAtEnd t, s.tasks.searchIndexFromTid tid ≠ -1 := by
  rw [wokenAtEnd, deleteIndices]
  by_cases hcount : s.getSemcount (s.sids t.sidPtr) = 0
  · by_cases hbad : isbadsem (s.sids t.sidPtr)
    · by_cases hfree : (s.semtable (s.sids t.sidPtr)).semstate = sFree
      · have hsame :
            s.setEntry (s.sids t.sidPtr) { s.semtable (s.sids t.sidPtr) with semstate := sFree } = s := by
          rw [setEntry, ← hfree]
          simp only [Function.update_eq_self]
        simp only [hcount, hbad, hfree, hsame, and_self, if_true, not_true_eq_false, if_false, ne_eq]
        by_cases hnum : 0 ≤ (s.semtable (s.sids t.sidPtr)).semqueue.num
        · exact releaseIndices_inTable hptr (by omega)
        · have hzero : (s.semtable (s.sids t.sidPtr)).semqueue.num.toNat = 0 := by omega
          rw [hzero]
          simp [releaseIndices, QueueSem.drained]
      · simp [hcount, hbad, hfree]
    · simp [hcount, hbad]
  · simp [hcount]

end Kernel

namespace Lifetimes

variable {s : Lifetimes} {tasks : Tasks} {before : ThreadPtr} {obj : ThreadPtr → Thread}
  {ops : List LifeOp} {tid : ℤ} {c : ℕ} {k : Kernel}

def Listed (s : Lifetimes) (tid : ℤ) : Prop :=
  (∃ i, s.tasks.Live i ∧ (s.tasks.thread i).tid = tid) ∨
    (tid = 0 ∧ ∃ i, 0 < i ∧ i < threadNum ∧ ¬ s.used i) ∨
    (tid = -1 ∧ ∃ i, i < threadNum ∧ ¬ s.tasks.Live i ∧ (s.used i ∨ i = 0))

theorem Registry.search_listed (h : s.Registry before) :
    s.tasks.searchIndexFromTid tid ≠ -1 ↔ s.Listed tid := by
  rw [Ne, Tasks.searchIndexFromTid_eq_neg_one]
  constructor
  · intro hfound
    push Not at hfound
    obtain ⟨i, hi, hdict⟩ := hfound
    by_cases hl : s.tasks.Live i
    · exact .inl ⟨i, hl, (h.table.tid i hl).symm.trans hdict⟩
    · by_cases hu : s.used i
      · exact .inr (.inr ⟨(h.ended i hi hu hl).symm.trans hdict |>.symm, i, hi, hl, .inl hu⟩)
      · rw [h.unused i hi hu] at hdict
        split_ifs at hdict with hz
        · exact .inr (.inr ⟨hdict.symm, i, hi, hl, .inr hz⟩)
        · exact .inr (.inl ⟨hdict.symm, i, by omega, hi, hu⟩)
  · rintro (⟨i, hl, rfl⟩ | ⟨rfl, i, hpos, hi, hu⟩ | ⟨rfl, i, hi, hl, hu⟩) hno
    · exact hno i hl.1 (h.table.tid i hl)
    · apply hno i hi
      rw [h.unused i hi hu, if_neg (by omega)]
    · apply hno i hi
      by_cases hu' : s.used i
      · exact h.ended i hi hu' hl
      · rw [h.unused i hi hu', if_pos (hu.resolve_left hu')]

/-- Whichever thread of the table `thread_end` gets the structure of, it uses the indices of entries only
if it finds the parent and the threads that it wakes. -/
theorem endIndices_inTable_iff
    (hrun : Run (fun s op t => LifeStep s op t ∧ op.InRange s) (boot before obj) ops s)
    (hk : k.tasks = s.tasks) (hend : s.tasks.EndsAt c tasks) :
    (∀ i ∈ k.endIndices (s.tasks.threads c), Kernel.InTable i) ↔
      s.Listed (s.tasks.thread c).ptid ∧
        ∀ tid ∈ k.wokenAtEnd (s.tasks.thread c), (s.become tasks).Listed tid := by
  have h := run_registry hrun
  have h' := h.finish hend
  obtain ⟨hl, hend⟩ := hend
  have hindex : (s.tasks.obj (s.tasks.threads c)).index = c := h.table.index c hl
  have hin : Kernel.InTable c := ⟨by omega, by exact_mod_cast hl.1⟩
  have hptr : ∀ i, i < threadNum → (k.setTasks tasks).tasks.threads i ≠ .at 0 :=
    fun i hi => h'.table.ptr_ne_null i hi
  have hdelete := Kernel.deleteIndices_inTable (s.tasks.thread c) hptr
  have hlisted : ∀ tid, (k.setTasks tasks).tasks.searchIndexFromTid tid ≠ -1 ↔
      (s.become tasks).Listed tid := fun tid => h'.search_listed
  have hwoken : (k.setTasks tasks).wokenAtEnd (s.tasks.thread c) = k.wokenAtEnd (s.tasks.thread c) := rfl
  rw [hwoken] at hdelete
  simp only [hlisted] at hdelete
  have hparent : Kernel.InTable (s.tasks.searchIndexFromTid (s.tasks.thread c).ptid) ↔
      s.Listed (s.tasks.thread c).ptid :=
    (Kernel.searchIndexFromTid_inTable _ _).trans h.search_listed
  rw [Kernel.endIndices, hk]
  dsimp only
  rw [hend, hindex]
  simp only [List.cons_append, List.nil_append, List.forall_mem_cons, hin, true_and]
  exact and_congr hparent hdelete

def created : Lifetimes :=
  first.become (((loneTasks.setObj (.at 32) childless).threadRun (.at 32)).get (by decide))

theorem created_step : LifeStep first (.create (.at 32) emptyThread) created :=
  .create (.inr ⟨0, rfl, by decide, by decide⟩) ⟨by decide, by decide, by decide⟩ (Option.some_get _).symm

theorem endIndices_inTable_iff_example :
    Kernel.endIndices { Kernel.zeroKernel with tasks := created.tasks } (.at 32) = [1, 0, 1] ∧
      ∀ i ∈ Kernel.endIndices { Kernel.zeroKernel with tasks := created.tasks } (.at 32),
        Kernel.InTable i := by
  have hrun : Run (fun s op t => LifeStep s op t ∧ op.InRange s) (boot (.at 0) (fun _ => emptyThread))
      [.create (.at 16) emptyThread, .create (.at 32) emptyThread] created :=
    .cons ⟨first_step, fun _ => show (0 : ℤ) + 1 < 2 ^ 31 by decide⟩
      (.single ⟨created_step, fun _ => show (1 : ℤ) + 1 < 2 ^ 31 by decide⟩)
  refine ⟨by decide, ?_⟩
  refine (endIndices_inTable_iff (k := { Kernel.zeroKernel with tasks := created.tasks }) (c := 1) hrun
    rfl ⟨⟨by decide, by decide⟩, (Option.some_get (by decide)).symm⟩).mpr ⟨?_, ?_⟩
  · exact .inl ⟨0, ⟨by decide, by decide⟩, by decide⟩
  · intro tid htid
    have hnone : Kernel.wokenAtEnd { Kernel.zeroKernel with tasks := created.tasks }
        (created.tasks.thread 1) = [] := by decide
    rw [hnone] at htid
    cases htid

/-- The end of the first thread, which has no parent: `threads[-1]` is read. -/
theorem first_end_outside :
    Run LifeStep (boot (.at 0) (fun _ => emptyThread)) [.create (.at 16) emptyThread] first ∧
      LifeStep first (.finish 0) firstEnded ∧
      Kernel.endIndices { Kernel.zeroKernel with tasks := first.tasks } (.at 16) = [0, -1, 0] ∧
      ¬ ∀ i ∈ Kernel.endIndices { Kernel.zeroKernel with tasks := first.tasks } (.at 16),
        Kernel.InTable i := by
  have hindices : Kernel.endIndices { Kernel.zeroKernel with tasks := first.tasks } (.at 16) =
      [0, -1, 0] := by decide
  refine ⟨.single first_step, firstEnded_step, hindices, fun hall => ?_⟩
  rw [hindices] at hall
  exact absurd (hall (-1) (by simp)).1 (by decide)

end Lifetimes

end MinOS
