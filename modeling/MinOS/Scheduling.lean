import MinOS.Boot
import MinOS.InterruptFlag
import MinOS.ThreadForks

/-!
What the operations of the threads leave for `thread_scheduler` to find.
-/

namespace MinOS

open Library.Integers Library.Programs Library.Programs.Program Library.Runs

inductive Stop where
  | ends (s : Kernel)
  | calls (s : Kernel)

inductive SchedOp where
  | createSem (initCount : ℤ)
  | genPipe (t : ThreadPtr)
  | createThread (func : ThreadFunc)
  | forkThread
  | wait (sem : ℤ)
  | signal (sem : ℤ)
  | threadExit (t : ℕ)
  | timer

namespace Stop

def ofExit (x : Exit × Core) : Stop :=
  match x.1 with
  | .stiRet _ => .ends x.2.kernel
  | .threadScheduler => .calls x.2.kernel

def kernel : Stop → Kernel
  | ends s => s
  | calls s => s

def next : Stop → Option Kernel
  | ends s => some s
  | calls s => s.threadScheduler

theorem kernel_ofExit (e : Exit) (m : Core) : (ofExit (e, m)).kernel = m.kernel := by
  cases e <;> rfl

end Stop

namespace Tasks

def Awake (s : Tasks) (i : ℕ) : Prop := i < threadNum ∧ (s.thread i).state = .runnable

instance (s : Tasks) (i : ℕ) : Decidable (s.Awake i) := inferInstanceAs (Decidable (_ ∧ _))

end Tasks

namespace Kernel

def perform (s : Kernel) : SchedOp → Option Stop
  | .createSem initCount => some (.ends (s.createSem initCount).2)
  | .genPipe t => (s.genPipe t).map (fun x => .ends x.2)
  | .createThread func => (s.createThread func).map (fun x => .ends x.2)
  | .forkThread => s.forkThread.map .ends
  | .wait sem => ((Code.wait sem).run ⟨s, true, fun _ => 0⟩).map .ofExit
  | .signal sem => ((Code.signal sem).run ⟨s, true, fun _ => 0⟩).map .ofExit
  | .threadExit t => (s.threadExit t).map .calls
  | .timer => some (.calls s)

def Blocks (s : Kernel) (sem : ℤ) : Prop := s.Used sem ∧ int32 ((s.semtable sem).semcount - 1) < 0

def LeavesAwake (s : Kernel) : SchedOp → Prop
  | .wait sem => s.Blocks sem → ∀ tid, s.tasks.getCurThreadTid = some tid →
      ∃ i, s.tasks.Awake i ∧ s.tasks.threads i ≠ s.tasks.getThreadPtr tid
  | .threadExit t => ∃ i, s.tasks.Awake i ∧ (i : ℤ) ≠ (s.tasks.obj (.at t)).index
  | _ => True

end Kernel

def SchedStep (s : Kernel) (op : SchedOp) (t : Kernel) : Prop := (s.perform op).bind Stop.next = some t

namespace Tasks

structure Keeps (i : ℕ) (s t : Tasks) : Prop where
  cur : t.curThreadIndex = s.curThreadIndex
  awake : s.Awake i → t.Awake i

variable {s t u : Tasks} {i k : ℕ} {p : ThreadPtr} {tid : ℤ}

namespace Keeps

theorem refl (i : ℕ) (s : Tasks) : Keeps i s s := ⟨rfl, id⟩

theorem trans (h : Keeps i s t) (h' : Keeps i t u) : Keeps i s u :=
  ⟨h'.cur.trans h.cur, fun hi => h'.awake (h.awake hi)⟩

theorem setObj_of_ne (x : Thread) (hp : s.threads i ≠ p) : Keeps i s (s.setObj p x) := by
  refine ⟨rfl, fun hi => ⟨hi.1, ?_⟩⟩
  rw [thread_setObj_of_ne x hp]
  exact hi.2

theorem setObj {x : Thread} (hx : x.state = (s.obj p).state ∨ x.state = .runnable) :
    Keeps i s (s.setObj p x) := by
  by_cases hp : s.threads i = p
  · refine ⟨rfl, fun hi => ⟨hi.1, ?_⟩⟩
    rw [thread_setObj_self x hp]
    rcases hx with hsame | hrun
    · rw [hsame, ← hp]
      exact hi.2
    · exact hrun
  · exact setObj_of_ne x hp

theorem wake (s : Tasks) (tid : ℤ) : Keeps i s (s.changeState tid .runnable).2 := by
  rw [changeState]
  split_ifs
  · exact refl i s
  · exact setObj (.inr rfl)

theorem block (h : s.threads i ≠ s.getThreadPtr tid) : Keeps i s (s.changeState tid .wait).2 := by
  rw [changeState]
  split_ifs
  · exact refl i s
  · exact setObj_of_ne _ h

theorem enter {ptid : ℤ} (hk : (s.thread k).state = .dead) : Keeps i s (s.enter p .runnable k ptid) := by
  refine ⟨rfl, fun hi => ⟨hi.1, ?_⟩⟩
  have hik : i ≠ k := by
    rintro rfl
    rw [hi.2] at hk
    cases hk
  have hptr : (s.enter p .runnable k ptid).threads i = s.threads i := Function.update_of_ne hik ..
  rw [thread, hptr]
  by_cases hp : s.threads i = p
  · simp [Tasks.enter, hp]
  · simp only [Tasks.enter, Function.update_of_ne hp]
    exact hi.2

theorem threadRun (h : s.threadRun p = some t) : Keeps i s t := by
  rw [Tasks.threadRun, register] at h
  rcases s.findDead_cases with ⟨hnone, -⟩ | ⟨k, hk, -, hdead, -⟩
  · simp only [hnone, Option.map_some, Option.some.injEq] at h
    rw [← h]
    exact refl i s
  · simp only [hk, Option.map_map, Option.map_eq_some_iff] at h
    obtain ⟨ptid, -, rfl⟩ := h
    exact enter hdead

theorem unregister (h : s.unregister p = some t) (hi : (i : ℤ) ≠ (s.obj p).index) : Keeps i s t := by
  rw [Tasks.unregister] at h
  dsimp only at h
  split_ifs at h with hin
  obtain rfl := Option.some.inj h
  generalize hs : { s with threads := Function.update s.threads (s.obj p).index.toNat .emptyThread } = u
  -- the entry is cleared, and the parent loses the tid of its child
  have hclear : Keeps i s u := by
    rw [← hs]
    refine ⟨rfl, fun hawake => ⟨hawake.1, ?_⟩⟩
    have hptr : Function.update s.threads (s.obj p).index.toNat .emptyThread i = s.threads i :=
      Function.update_of_ne (by omega) ..
    change (s.obj (Function.update s.threads (s.obj p).index.toNat .emptyThread i)).state = _
    rw [hptr]
    exact hawake.2
  have hobj : u.obj = s.obj := by rw [← hs]
  have hparent : Keeps i u (u.setObj (u.getThreadPtr (s.obj p).ptid)
      (clearCtid (s.obj (u.getThreadPtr (s.obj p).ptid)) (s.obj p).tid).2) := by
    apply setObj
    left
    rw [hobj]
    exact (clearCtid_fields ..).1
  have hboth := hclear.trans hparent
  exact ⟨hboth.cur, hboth.awake⟩

end Keeps

def AwakeBut (s : Tasks) (p : ThreadPtr) (i : ℕ) : Prop :=
  i < threadNum ∧ (s.threads i ≠ p → (s.thread i).state = .runnable)

namespace AwakeBut

variable {q : ThreadPtr}

theorem setObj {x : Thread} (h : s.AwakeBut p i) (hx : q = p ∨ x.state = (s.obj q).state) :
    (s.setObj q x).AwakeBut p i := by
  refine ⟨h.1, fun hne => ?_⟩
  by_cases hq : s.threads i = q
  · rw [thread_setObj_self x hq]
    rcases hx with rfl | hx
    · exact absurd hq hne
    · rw [hx, ← hq]
      exact h.2 hne
  · rw [thread_setObj_of_ne x hq]
    exact h.2 hne

theorem enter {state : ThreadState} {ptid : ℤ} (h : s.AwakeBut p i) :
    (s.enter p state k ptid).AwakeBut p i := by
  refine ⟨h.1, fun hne => ?_⟩
  have hik : i ≠ k := by
    rintro rfl
    exact hne (Function.update_self ..)
  have hptr : (s.enter p state k ptid).threads i = s.threads i := Function.update_of_ne hik ..
  rw [hptr] at hne
  rw [thread_enter_other hik hne]
  exact h.2 hne

theorem wake {x : Thread} (h : s.AwakeBut p i) (hx : x.state = .runnable) : (s.setObj p x).Awake i := by
  refine ⟨h.1, ?_⟩
  by_cases hp : s.threads i = p
  · rw [thread_setObj_self x hp]
    exact hx
  · rw [thread_setObj_of_ne x hp]
    exact h.2 hp

end AwakeBut

theorem Awake.forkThread {stack threadExec : ℕ} (hi : s.Awake i)
    (h : s.forkThread p stack threadExec = some t) : t.Awake i ∧ -1 ≤ t.curThreadIndex := by
  obtain ⟨tid, -, h⟩ := Option.bind_eq_some_iff.mp h
  obtain ⟨⟨tIndex, u⟩, hreg, h⟩ := Option.bind_eq_some_iff.mp h
  obtain rfl := Option.some.inj h
  have hgen : (s.threadGenForFork p (s.getThreadPtr tid) stack threadExec).AwakeBut p i :=
    AwakeBut.setObj ⟨hi.1, fun _ => hi.2⟩ (.inl rfl)
  generalize s.threadGenForFork p (s.getThreadPtr tid) stack threadExec = v at hreg hgen
  have hentered : u.AwakeBut p i ∧ -1 ≤ tIndex := by
    rw [threadRegister, register] at hreg
    rcases v.findDead_cases with ⟨hnone, -⟩ | ⟨k, hk, -⟩
    · simp only [hnone, Option.some.injEq, Prod.mk.injEq] at hreg
      obtain ⟨rfl, rfl⟩ := hreg
      exact ⟨hgen, le_refl _⟩
    · simp only [hk, Option.map_eq_some_iff, Prod.mk.injEq] at hreg
      obtain ⟨ptid, -, rfl, rfl⟩ := hreg
      exact ⟨hgen.enter, by omega⟩
  refine ⟨?_, hentered.2⟩
  exact (hentered.1.setObj (.inr (setCtid_fields _ _).1)).wake rfl

end Tasks

namespace Kernel

open Tasks

variable {s t : Kernel} {i : ℕ} {sem : ℤ} {op : SchedOp}

theorem keeps_releaseWaiters (sem : ℤ) (n : ℕ) (s : Kernel) :
    Keeps i s.tasks (releaseWaiters sem n s).2.tasks := by
  induction n generalizing s with
  | zero => exact .refl i s.tasks
  | succ n ih =>
    rw [releaseWaiters]
    rcases s.dequeueSem_cases sem with ⟨hnone, -⟩ | ⟨-, heq⟩
    · simp only [hnone]
      exact .refl i s.tasks
    · simp only [heq]
      split_ifs
      · exact .wake s.tasks _
      · exact (Keeps.wake s.tasks _).trans (ih ((s.setSemqueue sem _).setTasks _))

theorem keeps_deleteSem (s : Kernel) (sem : ℤ) : Keeps i s.tasks (s.deleteSem sem).2.tasks := by
  by_cases hbad : isbadsem sem
  · by_cases hfree : (s.semtable sem).semstate = sFree
    · rw [deleteSem, if_neg (not_not.mpr hbad), if_neg (not_not.mpr hfree)]
      exact keeps_releaseWaiters sem _ (s.setEntry sem _)
    · rw [deleteSem, if_neg (not_not.mpr hbad), if_pos hfree]
      exact .refl i s.tasks
  · rw [deleteSem, if_pos hbad]
    exact .refl i s.tasks

theorem tasks_free {p : ℕ} (h : s.free p = some t) : t.tasks = s.tasks := by
  obtain ⟨heap, -, rfl⟩ := Option.map_eq_some_iff.mp h
  rfl

theorem tasks_genPipe {p : ThreadPtr} {r : ℤ} (h : s.genPipe p = some (r, t)) : t.tasks = s.tasks := by
  obtain ⟨⟨pipePtr, heap⟩, -, h⟩ := Option.bind_eq_some_iff.mp h
  dsimp only at h
  split_ifs at h
  · obtain ⟨-, rfl⟩ := Prod.mk.inj (Option.some.inj h)
    rfl
  · obtain ⟨-, rfl⟩ := Prod.mk.inj (Option.some.inj h)
    exact (createSem_fields _ 0).1

theorem keeps_threadEnd {p : ℕ} (h : s.threadEnd p = some t)
    (hi : (i : ℤ) ≠ (s.tasks.obj (.at p)).index) : Keeps i s.tasks t.tasks := by
  obtain ⟨tasks, htasks, h⟩ := Option.bind_eq_some_iff.mp h
  have hend : Keeps i s.tasks (s.setTasks tasks).tasks := .unregister htasks hi
  by_cases hcount : (s.setTasks tasks).getSemcount
      ((s.setTasks tasks).sids (s.tasks.obj (.at p)).sidPtr) = 0
  · replace h := (if_pos hcount).symm.trans h
    obtain ⟨u, hu, h⟩ := Option.bind_eq_some_iff.mp h
    obtain ⟨v, hv, h⟩ := Option.bind_eq_some_iff.mp h
    obtain ⟨w, hw, h⟩ := Option.bind_eq_some_iff.mp h
    rw [tasks_free h, tasks_free hw, tasks_free hv, tasks_free hu]
    exact hend.trans (keeps_deleteSem _ _)
  · replace h := (if_neg hcount).symm.trans h
    obtain ⟨u, hu, h⟩ := Option.bind_eq_some_iff.mp h
    obtain rfl := Option.some.inj hu
    obtain ⟨v, hv, h⟩ := Option.bind_eq_some_iff.mp h
    rw [tasks_free h, tasks_free hv]
    exact hend

theorem keeps_threadExit {p : ℕ} (h : s.threadExit p = some t)
    (hi : (i : ℤ) ≠ (s.tasks.obj (.at p)).index) : Keeps i s.tasks t.tasks := by
  obtain ⟨u, hu, hend⟩ := Option.bind_eq_some_iff.mp h
  have hsame := tasks_free hu
  rw [← hsame] at hi ⊢
  exact keeps_threadEnd hend hi

theorem keeps_createThread {tid : ℤ} {func : ThreadFunc} (h : s.createThread func = some (tid, t)) :
    Keeps i s.tasks t.tasks := by
  obtain ⟨⟨p, heap⟩, -, h⟩ := Option.bind_eq_some_iff.mp h
  obtain ⟨u, hgen, h⟩ := Option.bind_eq_some_iff.mp h
  obtain ⟨tasks, hrun, heq⟩ := Option.bind_eq_some_iff.mp h
  obtain ⟨-, rfl⟩ := Prod.mk.inj (Option.some.inj heq)
  obtain ⟨-, -, x, -, -, hx, htasks⟩ := threadGen2_cases hgen
  rw [htasks] at hrun
  exact (Keeps.setObj (.inl hx)).trans (.threadRun hrun)

end Kernel

namespace Code

variable {m m' : Core} {sem : ℤ} {e : Exit}

theorem block_tasks {tid : ℤ} (h : (block sem tid).run m = some (e, m')) :
    m'.kernel.tasks = (m.kernel.tasks.changeState tid .wait).2 := by
  rw [block, run_bind, changeState_run, Option.bind_some] at h
  dsimp only at h
  split_ifs at h with hfound
  · obtain ⟨-, rfl⟩ := Prod.mk.inj (Option.some.inj h)
    rfl
  · simp only [run_bind, getThreadPtr_run, Option.bind_some, assign_run, enqueueSem_run] at h
    generalize hs : Kernel.setSid _ _ sem = s at h
    have htasks : s.tasks = (m.kernel.tasks.changeState tid .wait).2 := by
      rw [← hs]
      rfl
    rcases s.enqueueSem_cases tid sem with ⟨hnone, -⟩ | ⟨-, heq⟩
    · simp only [hnone, ↓reduceIte] at h
      obtain ⟨-, rfl⟩ := Prod.mk.inj (Option.some.inj h)
      exact htasks
    · simp only [heq, one_ne_zero, ↓reduceIte, run_bind, putsnSerial_run, Option.bind_some] at h
      obtain ⟨-, rfl⟩ := Prod.mk.inj (Option.some.inj h)
      exact htasks

theorem wait_tasks (h : (wait sem).run m = some (e, m')) : m'.kernel.tasks = m.kernel.tasks ∨
    m.kernel.Blocks sem ∧ ∃ tid, m.kernel.tasks.getCurThreadTid = some tid ∧
      m'.kernel.tasks = (m.kernel.tasks.changeState tid .wait).2 := by
  by_cases hbad : isbadsem sem
  · simp only [wait, hbad, run_bind, ioCli_run, Option.bind_some, ↓reduceIte] at h
    obtain ⟨-, rfl⟩ := Prod.mk.inj (Option.some.inj h)
    exact .inl rfl
  by_cases hstate : (m.kernel.semtable sem).semstate = sUsed
  · simp only [wait, hbad, hstate, run_bind, ioCli_run, fetch_run, assign_run, Option.bind_some,
      ↓reduceIte, ne_eq, not_true_eq_false] at h
    simp only [Kernel.setSemcount, Kernel.semtable_setEntry_self] at h
    split_ifs at h with hneg
    · rw [run_bind, getCurThreadTid_run] at h
      obtain ⟨⟨tid, m₁⟩, htid, hblock⟩ := Option.bind_eq_some_iff.mp h
      obtain ⟨tid', htid', heq⟩ := Option.map_eq_some_iff.mp htid
      obtain ⟨rfl, rfl⟩ := Prod.mk.inj heq
      have hafter := block_tasks hblock
      exact .inr ⟨⟨⟨hbad, hstate⟩, hneg⟩, tid', htid', hafter⟩
    · obtain ⟨-, rfl⟩ := Prod.mk.inj (Option.some.inj h)
      exact .inl rfl
  · simp only [wait, hbad, run_bind, ioCli_run, fetch_run, Option.bind_some, ↓reduceIte, ne_eq, hstate,
      not_false_eq_true] at h
    obtain ⟨-, rfl⟩ := Prod.mk.inj (Option.some.inj h)
    exact .inl rfl

theorem wake_tasks (h : (wake sem).run m = some (e, m')) : m'.kernel.tasks = m.kernel.tasks ∨
    ∃ tid, m'.kernel.tasks = (m.kernel.tasks.changeState tid .runnable).2 := by
  rw [wake, run_bind, dequeueSem_run, Option.bind_some] at h
  rcases m.kernel.dequeueSem_cases sem with ⟨hnone, -⟩ | ⟨-, heq⟩
  · simp only [hnone, ↓reduceIte] at h
    obtain ⟨-, rfl⟩ := Prod.mk.inj (Option.some.inj h)
    exact .inl rfl
  · simp only [heq, one_ne_zero, ↓reduceIte, run_bind, putsnSerial_run, changeState_run,
      Option.bind_some] at h
    refine .inr ⟨(m.kernel.semtable sem).semqueue.que (m.kernel.semtable sem).semqueue.head, ?_⟩
    split_ifs at h
    · obtain ⟨-, rfl⟩ := Prod.mk.inj (Option.some.inj h)
      rfl
    · obtain ⟨-, rfl⟩ := Prod.mk.inj (Option.some.inj h)
      rfl

theorem signal_tasks (h : (signal sem).run m = some (e, m')) : m'.kernel.tasks = m.kernel.tasks ∨
    ∃ tid, m'.kernel.tasks = (m.kernel.tasks.changeState tid .runnable).2 := by
  by_cases hbad : isbadsem sem
  · simp only [signal, hbad, run_bind, ioCli_run, Option.bind_some, ↓reduceIte] at h
    obtain ⟨-, rfl⟩ := Prod.mk.inj (Option.some.inj h)
    exact .inl rfl
  by_cases hstate : (m.kernel.semtable sem).semstate = sUsed
  · simp only [signal, hbad, hstate, run_bind, ioCli_run, fetch_run, Option.bind_some, ↓reduceIte, ne_eq,
      not_true_eq_false] at h
    split_ifs at h with hneg
    · simp only [run_bind, assign_run, Option.bind_some] at h
      have hafter := wake_tasks h
      exact hafter
    · obtain ⟨-, rfl⟩ := Prod.mk.inj (Option.some.inj h)
      exact .inl rfl
  · simp only [signal, hbad, run_bind, ioCli_run, fetch_run, Option.bind_some, ↓reduceIte, ne_eq, hstate,
      not_false_eq_true] at h
    obtain ⟨-, rfl⟩ := Prod.mk.inj (Option.some.inj h)
    exact .inl rfl

end Code

structure Tasks.Lively (s : Tasks) : Prop where
  cur : -1 ≤ s.curThreadIndex
  awake : ∃ i, s.Awake i

namespace Tasks

variable {s t : Tasks} {i : ℕ}

theorem Keeps.lively (h : Keeps i s t) (hs : s.Lively) (hi : s.Awake i) : t.Lively := by
  constructor
  · rw [h.cur]
    exact hs.cur
  · exact ⟨i, h.awake hi⟩

theorem Lively.threadScheduler (h : s.Lively) : ∃ t, s.threadScheduler = some t ∧ t.Lively := by
  obtain ⟨i, hi⟩ := h.awake
  rcases nextThread_cases h.cur with ⟨-, hno⟩ | ⟨k, hk, -⟩
  · exact absurd hi.2 (hno i hi.1)
  · refine ⟨{ s with curThreadIndex := k }, by rw [Tasks.threadScheduler, hk, Option.map_some], ?_, i, hi⟩
    dsimp only
    omega

end Tasks

namespace Kernel

open Tasks

variable {m s t u : Kernel} {i kheapStart : ℕ} {op : SchedOp} {stop : Stop} {init : ThreadFunc}
  {ops : List SchedOp}

theorem ofExit_next (x : Option (Exit × Core)) : (x.map Stop.ofExit).bind Stop.next =
    (x.bind (fun y => y.1.finish y.2.kernel)).map Prod.snd := by
  cases x with
  | none => rfl
  | some x =>
    obtain ⟨e, m⟩ := x
    cases e with
    | stiRet r => rfl
    | threadScheduler =>
      cases hnext : m.kernel.threadScheduler <;> simp [Stop.ofExit, Stop.next, Exit.finish, hnext]

theorem perform_wait (s : Kernel) (sem : ℤ) :
    (s.perform (.wait sem)).bind Stop.next = (s.wait sem).map Prod.snd := by
  rw [← Code.wait_run ⟨s, true, fun _ => 0⟩ sem]
  exact ofExit_next _

theorem perform_signal (s : Kernel) (sem : ℤ) :
    (s.perform (.signal sem)).bind Stop.next = (s.signal sem).map Prod.snd := by
  rw [← Code.signal_run ⟨s, true, fun _ => 0⟩ sem]
  exact ofExit_next _

theorem perform_lively (hs : s.tasks.Lively) (hleaves : s.LeavesAwake op)
    (h : s.perform op = some stop) : stop.kernel.tasks.Lively := by
  obtain ⟨i, hi⟩ := hs.awake
  cases op with
  | createSem n =>
    obtain rfl := Option.some.inj h
    rw [Stop.kernel, (createSem_fields s n).1]
    exact hs
  | genPipe p =>
    obtain ⟨⟨r, t⟩, hgen, rfl⟩ := Option.map_eq_some_iff.mp h
    rw [Stop.kernel, tasks_genPipe hgen]
    exact hs
  | createThread func =>
    obtain ⟨⟨tid, t⟩, hcreate, rfl⟩ := Option.map_eq_some_iff.mp h
    exact (keeps_createThread hcreate).lively hs hi
  | forkThread =>
    obtain ⟨t, hfork, rfl⟩ := Option.map_eq_some_iff.mp h
    obtain ⟨⟨stack, h₁⟩, -, hfork⟩ := Option.bind_eq_some_iff.mp hfork
    obtain ⟨⟨p, h₂⟩, -, hfork⟩ := Option.bind_eq_some_iff.mp hfork
    obtain ⟨tasks, htasks, hfork⟩ := Option.bind_eq_some_iff.mp hfork
    obtain rfl := Option.some.inj hfork
    obtain ⟨hawake, hcur⟩ := hi.forkThread htasks
    exact ⟨hcur, i, hawake⟩
  | wait sem =>
    obtain ⟨⟨e, m⟩, hrun, rfl⟩ := Option.map_eq_some_iff.mp h
    rw [Stop.kernel_ofExit]
    rcases Code.wait_tasks hrun with hsame | ⟨hblocks, tid, htid, hwait⟩
    · rw [hsame]
      exact hs
    · obtain ⟨k, hk, hne⟩ := hleaves hblocks tid htid
      rw [hwait]
      exact (Keeps.block hne).lively hs hk
  | signal sem =>
    obtain ⟨⟨e, m⟩, hrun, rfl⟩ := Option.map_eq_some_iff.mp h
    rw [Stop.kernel_ofExit]
    rcases Code.signal_tasks hrun with hsame | ⟨tid, hwake⟩
    · rw [hsame]
      exact hs
    · rw [hwake]
      exact (Keeps.wake s.tasks tid).lively hs hi
  | threadExit p =>
    obtain ⟨t, hexit, rfl⟩ := Option.map_eq_some_iff.mp h
    obtain ⟨k, hk, hne⟩ := hleaves
    exact (keeps_threadExit hexit hne).lively hs hk
  | timer =>
    obtain rfl := Option.some.inj h
    exact hs

theorem step_lively (hs : s.tasks.Lively) (hleaves : s.LeavesAwake op) (h : SchedStep s op t) :
    t.tasks.Lively := by
  obtain ⟨stop, hstop, hnext⟩ := Option.bind_eq_some_iff.mp h
  have hlively := perform_lively hs hleaves hstop
  cases stop with
  | ends u =>
    obtain rfl := Option.some.inj hnext
    exact hlively
  | calls u =>
    obtain ⟨tasks, htasks, rfl⟩ := threadScheduler_cases hnext
    obtain ⟨tasks', htasks', hafter⟩ := hlively.threadScheduler
    obtain rfl := Option.some.inj (htasks.symm.trans htasks')
    exact hafter

theorem boot_lively (hboot : m.boot kheapStart init = some s) : s.tasks.Lively := by
  obtain ⟨⟨tid, t⟩, hcreate, rfl⟩ := Option.map_eq_some_iff.mp hboot
  obtain ⟨⟨p, heap⟩, -, hcreate⟩ := Option.bind_eq_some_iff.mp hcreate
  obtain ⟨u, hgen, hcreate⟩ := Option.bind_eq_some_iff.mp hcreate
  obtain ⟨tasks, hrun, heq⟩ := Option.bind_eq_some_iff.mp hcreate
  obtain ⟨-, rfl⟩ := Prod.mk.inj (Option.some.inj heq)
  obtain ⟨-, -, x, -, -, -, htasks⟩ := threadGen2_cases hgen
  have hout : ∀ k, k < threadNum → (m.initKernel kheapStart).tasks.threads k ≠ .at p := by
    intro k hk
    simp [initKernel, threadsInit, staticTasks, hk]
  rw [htasks] at hrun
  rcases threadRun_cases hout (show (m.initKernel kheapStart).tasks.getCurThreadTid = some (-1) from rfl) x with
    ⟨hfull, -⟩ | ⟨i, hi, -, -, henter⟩
  · exact absurd (hfull 0 (by decide)) (initKernel_dead m kheapStart 0)
  · obtain rfl := Option.some.inj (hrun.symm.trans henter)
    refine ⟨show (-1 : ℤ) ≤ 0 by decide, i, hi, ?_⟩
    rw [setTasks, thread_enter_self]

/-- In every run in which a thread that has to wait, or ends, is not the only runnable one, every call of
`thread_scheduler` finds a runnable thread, and so its loop ends. -/
theorem scheduler_finds (hboot : m.boot kheapStart init = some s)
    (hrun : Run (fun s op t => SchedStep s op t ∧ s.LeavesAwake op) s ops t)
    (hleaves : t.LeavesAwake op) (hcall : t.perform op = some (.calls u)) :
    (∃ i, i < threadNum ∧ (u.tasks.thread i).state = .runnable) ∧ ∃ v, u.threadScheduler = some v := by
  have hlively : t.tasks.Lively := by
    apply hrun.invariant (boot_lively hboot)
    intro a o b ha hstep
    exact step_lively ha hstep.2 hstep.1
  have hu : u.tasks.Lively := perform_lively hlively hleaves hcall
  obtain ⟨tasks, htasks, -⟩ := hu.threadScheduler
  exact ⟨hu.awake, _, by rw [threadScheduler, htasks, Option.map_some]⟩

theorem scheduler_finds_example : ∃ s t u, zeroKernel.boot 0x400000 ⟨0, 0, 0⟩ = some s ∧
    Run (fun s op t => SchedStep s op t ∧ s.LeavesAwake op) s [.createThread ⟨0, 0, 0⟩, .createSem 0] t ∧
    t.perform (.wait 0) = some (.calls u) ∧
    (∃ i, i < threadNum ∧ (u.tasks.thread i).state = .runnable) ∧ ∃ v, u.threadScheduler = some v := by
  have hvals : (zeroKernel.boot 0x400000 ⟨0, 0, 0⟩).bind (fun s => (s.createThread ⟨0, 0, 0⟩).bind (fun x =>
      ((x.2.createSem 0).2.perform (.wait 0)).map (fun stop => match stop with
        | .calls _ => decide ((x.2.createSem 0).2.tasks.Awake 1 ∧ (x.2.createSem 0).2.tasks.threads 1 ≠
            (x.2.createSem 0).2.tasks.getThreadPtr 0 ∧ (x.2.createSem 0).2.tasks.getCurThreadTid = some 0)
        | .ends _ => false))) = some true := by decide +kernel
  obtain ⟨s, hboot, hvals⟩ := Option.bind_eq_some_iff.mp hvals
  obtain ⟨⟨tid, t⟩, hcreate, hvals⟩ := Option.bind_eq_some_iff.mp hvals
  obtain ⟨stop, hstop, hvals⟩ := Option.map_eq_some_iff.mp hvals
  have hstep : SchedStep s (.createThread ⟨0, 0, 0⟩) t := by
    rw [SchedStep, perform, hcreate]
    rfl
  have hrun : Run (fun s op t => SchedStep s op t ∧ s.LeavesAwake op) s
      [.createThread ⟨0, 0, 0⟩, .createSem 0] (t.createSem 0).2 :=
    .cons ⟨hstep, trivial⟩ (.single ⟨rfl, trivial⟩)
  cases stop with
  | ends u => cases hvals
  | calls u =>
    obtain ⟨hawake, hne, hcur⟩ := of_decide_eq_true hvals
    have hleaves : (t.createSem 0).2.LeavesAwake (.wait 0) := by
      intro _ tid htid
      obtain rfl := Option.some.inj (hcur.symm.trans htid)
      exact ⟨1, hawake, hne⟩
    exact ⟨s, _, u, hboot, hrun, hstop, scheduler_finds hboot hrun hleaves hstop⟩

theorem scheduler_finds_none : ∃ s t u, zeroKernel.boot 0x400000 ⟨0, 0, 0⟩ = some s ∧
    Run SchedStep s [.createSem 0] t ∧ t.perform (.wait 0) = some (.calls u) ∧
    (∀ i, i < threadNum → (u.tasks.thread i).state ≠ .runnable) ∧ u.threadScheduler = none := by
  have hvals : ((zeroKernel.boot 0x400000 ⟨0, 0, 0⟩).bind (fun s => (s.createSem 0).2.perform (.wait 0))).map
      (fun stop => match stop with
        | .calls u => ((List.range threadNum).filter (fun i => decide (u.tasks.Awake i)), u.tasks.nextThread)
        | .ends _ => ([0], none)) = some ([], none) := by decide +kernel
  obtain ⟨stop, hstop, hvals⟩ := Option.map_eq_some_iff.mp hvals
  obtain ⟨s, hboot, hperform⟩ := Option.bind_eq_some_iff.mp hstop
  cases stop with
  | ends u => cases hvals
  | calls u =>
    obtain ⟨hnone, hnext⟩ := Prod.mk.inj hvals
    refine ⟨s, _, u, hboot, .single rfl, hperform, fun i hi hrun => ?_, ?_⟩
    · have hno := List.filter_eq_nil_iff.mp hnone i (List.mem_range.mpr hi)
      exact hno (decide_eq_true ⟨hi, hrun⟩)
    · rw [threadScheduler, Tasks.threadScheduler, hnext]
      rfl

end Kernel

end MinOS
