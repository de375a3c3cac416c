import MinOS.Boot
import MinOS.TimerPeriods

/-!
`entry_point` from `init_pic` on, with timer interrupts that may call the scheduler before there is a
thread.
-/

namespace MinOS

open Library.Interleavings Library.Words

inductive EntryPoint where
  | threadsInit
  | schedulePeriodInit
  | createThread
  | switchContextFirst (tid : ℤ)
  | left (index : ℤ)

structure EntryState where
  kernel : Kernel
  tick : Word
  previousInterrupt : Word
  timerPeriod : Word
  point : EntryPoint

inductive EntryEvent where
  | next
  | tick
deriving DecidableEq

structure Tasks.HoldsFirst (init : ThreadFunc) (s : Tasks) : Prop where
  index : s.searchIndexFromTid 0 = 0
  func : (s.thread 0).funcInfo = init
  runnable : s.Runnable 0
  others : ∀ i, i < threadNum → (s.thread i).state = .runnable → i = 0
  current : s.curThreadIndex = 0

theorem Tasks.holdsFirst_enter {s : Tasks} {p : ThreadPtr} {content : Thread} {ptid : ℤ}
    (hdead : ∀ i, ¬ s.Live i) (hout : ∀ i, i < threadNum → s.threads i ≠ p) (hglobal : s.tidGlobal = 0)
    (hcur : s.curThreadIndex = 0) :
    HoldsFirst content.funcInfo ((s.setObj p content).enter p .runnable 0 ptid) := by
  have hself := thread_enter_self (s.setObj p content) p .runnable 0 ptid
  refine ⟨?_, ?_, ?_, fun i hi hready => ?_, hcur⟩
  · have hdict : ((s.setObj p content).enter p .runnable 0 ptid).tidIndexDict 0 = 0 := by
      simp [enter, setObj, hglobal]
    rw [searchIndexFromTid, find_range_eq (i := 0) (by decide) (decide_eq_true hdict)
      (fun j hj => absurd hj (Nat.not_lt_zero j))]
    rfl
  · rw [hself]
    simp [setObj]
  · rw [Runnable, Int.toNat_zero, hself]
  · by_contra hne
    rw [thread_enter_other (s := s.setObj p content) hne (hout i hi),
      thread_setObj_of_ne _ (hout i hi)] at hready
    exact hdead i ⟨hi, by rw [hready]; simp⟩

theorem Tasks.nextThread_const {s : Tasks} {p : ThreadPtr} (hp : ∀ i, i < threadNum → s.threads i = p)
    (hcur : s.curThreadIndex = 0) : s.nextThread = none ∨ s.nextThread = some 1 := by
  have hstate : ∀ i, i < threadNum → (s.thread i).state = (s.obj p).state := by
    intro i hi
    rw [thread, hp i hi]
  by_cases hready : (s.obj p).state = .runnable
  · right
    have hnext := nextThread_eq (s := s) (d := 1) (by omega) (by decide) (by decide)
      (by rw [hcur, Runnable]; exact (hstate 1 (by decide)).trans hready)
      (fun e he hlt => absurd he (by omega))
    rwa [hcur] at hnext
  · rcases nextThread_cases (s := s) (by omega) with ⟨hnone, -⟩ | ⟨i, -, hi, hrunnable⟩
    · exact .inl hnone
    · exact absurd ((hstate i hi).symm.trans hrunnable) hready

theorem Tasks.threadsInit_dead (before : ThreadPtr) (obj : ThreadPtr → Thread) (i : ℕ) :
    ¬ (staticTasks before obj).threadsInit.Live i := by
  rintro ⟨hi, hlive⟩
  exact hlive (by simp [thread, threadsInit, staticTasks, hi, emptyThread])

namespace EntryState

def timer (s : EntryState) : TimerState :=
  ⟨s.tick, s.previousInterrupt, s.timerPeriod, s.kernel.tasks⟩

def Due (s : EntryState) : Prop := s.previousInterrupt + s.timerPeriod < s.tick + 1 ∧ 90 < s.tick + 1

instance (s : EntryState) : Decidable s.Due :=
  inferInstanceAs (Decidable (s.previousInterrupt + s.timerPeriod < s.tick + 1 ∧ 90 < s.tick + 1))

/-- The scheduler does not come back to `entry_point`, which is in no entry of the table. -/
def timerHandler (s : EntryState) : Option EntryState :=
  s.timer.timerHandler.map (fun t =>
    { kernel := s.kernel.setTasks t.tasks
      tick := t.tick
      previousInterrupt := t.previousInterrupt
      timerPeriod := t.timerPeriod
      point := if s.Due then .left t.tasks.curThreadIndex else s.point })

def entryPoint (init : ThreadFunc) (s : EntryState) : Option EntryState :=
  match s.point with
  | .threadsInit => some { s with
      kernel := s.kernel.setTasks s.kernel.tasks.threadsInit
      point := .schedulePeriodInit }
  | .schedulePeriodInit => some { s with timerPeriod := 50, point := .createThread }
  | .createThread => (s.kernel.createThread init).map (fun x =>
      { s with kernel := x.2, point := .switchContextFirst x.1 })
  | .switchContextFirst tid => some { s with point := .left (s.kernel.tasks.searchIndexFromTid tid) }
  | .left _ => none

def exec (init : ThreadFunc) (s : EntryState) : EntryEvent → Option EntryState
  | .next => s.entryPoint init
  | .tick =>
    match s.point with
    | .left _ => none
    | _ => s.timerHandler

def start (k : Kernel) : EntryState := ⟨k, 0, 0, 0, .threadsInit⟩

structure Started (init : ThreadFunc) (s : EntryState) : Prop where
  point : s.point = .left 0
  func : (s.kernel.tasks.thread 0).funcInfo = init
  runnable : s.kernel.tasks.Runnable 0

def Starts (init : ThreadFunc) (es : List EntryEvent) (s : EntryState) : Prop :=
  ∃ before rest t, es = before ++ rest ∧ execAll (exec init) s before = some t ∧ t.Started init

def ticksBefore : ℕ → List EntryEvent → ℕ
  | 0, _ => 0
  | _ + 1, [] => 0
  | m + 1, .tick :: es => ticksBefore (m + 1) es + 1
  | m + 1, .next :: es => ticksBefore m es

variable {init : ThreadFunc} {s t u : EntryState} {k : Kernel} {e : EntryEvent} {es : List EntryEvent}
  {m : ℕ} {ptid : ℤ}

theorem Starts.cons (hexec : s.exec init e = some u) (h : u.Starts init es) : s.Starts init (e :: es) := by
  obtain ⟨before, rest, t, rfl, hall, ht⟩ := h
  exact ⟨e :: before, rest, t, rfl, Option.bind_eq_some_iff.mpr ⟨u, hexec, hall⟩, ht⟩

theorem Started.starts (h : s.Started init) (es : List EntryEvent) : s.Starts init es :=
  ⟨[], es, s, rfl, rfl, h⟩

theorem starts_cons_iff (h : ¬ s.Started init) :
    s.Starts init (e :: es) ↔ ∃ u, s.exec init e = some u ∧ u.Starts init es := by
  constructor
  · rintro ⟨before, rest, t, hsplit, hall, ht⟩
    cases before with
    | nil =>
      obtain rfl := Option.some.inj hall
      exact absurd ht h
    | cons e' before =>
      obtain ⟨rfl, rfl⟩ := List.cons.inj hsplit
      obtain ⟨u, hexec, hrest⟩ := Option.bind_eq_some_iff.mp hall
      exact ⟨u, hexec, before, rest, t, rfl, hrest, ht⟩
  · rintro ⟨u, hexec, hstarts⟩
    exact hstarts.cons hexec

theorem not_starts_of_left {i : ℤ} (hpoint : s.point = .left i) (hi : i ≠ 0) : ¬ s.Starts init es := by
  have hnot : ¬ s.Started init := by
    intro h
    have heq := hpoint.symm.trans h.point
    exact hi (EntryPoint.left.inj heq)
  cases es with
  | nil =>
    rintro ⟨before, rest, t, hsplit, hall, ht⟩
    obtain ⟨rfl, -⟩ := List.append_eq_nil_iff.mp hsplit.symm
    obtain rfl := Option.some.inj hall
    exact hnot ht
  | cons e es =>
    rw [starts_cons_iff hnot]
    rintro ⟨u, hexec, -⟩
    cases e <;> simp [exec, entryPoint, hpoint] at hexec

theorem timerHandler_early (h : ¬ s.Due) : s.timerHandler = some { s with tick := s.tick + 1 } := by
  have htimer : s.timer.timerHandler = some { s.timer with tick := s.tick + 1 } := if_neg h
  rw [timerHandler, htimer, Option.map_some, if_neg h]
  rfl

theorem timerHandler_due (h : s.Due) : s.timerHandler = s.kernel.tasks.threadScheduler.map (fun tasks =>
    { s with
      kernel := s.kernel.setTasks tasks
      tick := s.tick + 1
      previousInterrupt := s.tick + 1
      point := .left tasks.curThreadIndex }) := by
  have htimer : s.timer.timerHandler = s.kernel.tasks.threadScheduler.map (fun tasks =>
      { s.timer with tick := s.tick + 1, previousInterrupt := s.tick + 1, tasks := tasks }) := if_pos h
  rw [timerHandler, htimer, Option.map_map]
  simp only [if_pos h]
  rfl

structure Alone (init : ThreadFunc) (s : EntryState) : Prop where
  point : s.point = .switchContextFirst 0
  tasks : s.kernel.tasks.HoldsFirst init

theorem exists_createThread (hs : k.Stocked) (hdead : ∀ i, ¬ k.tasks.Live i)
    (hcur : k.tasks.curThreadIndex = 0) (init : ThreadFunc) :
    ∃ t, k.createThread init = some (0, t) ∧ t.tasks.HoldsFirst init := by
  obtain ⟨free, live, hw, -, -⟩ := hs.heap
  obtain ⟨p, stack, sidPtr, pstruct, h, free', hall, -, -, -⟩ := hw.threadSizes_granted
  have heq := Kernel.createThread_eq init hall
  have hout : ∀ i, i < threadNum → k.tasks.threads i ≠ .at p := by
    intro i hi
    rw [hs.unused i hi (hdead i)]
    simp
  have hglobal : k.tasks.tidGlobal = 0 := by
    have hnone := mt (hs.slots 0 (by decide)).mpr (hdead 0)
    have hnonneg := hs.global_nonneg
    omega
  rcases Tasks.threadRun_cases hout (Tasks.getCurThreadTid_index hcur (by decide))
      (k.genThread p stack sidPtr pstruct init) with ⟨hfull, -⟩ | ⟨i, hi, -, hmin, hrun⟩
  · exact absurd (hfull 0 (by decide)) (hdead 0)
  · obtain rfl : i = 0 := Nat.eq_zero_of_not_pos (fun hpos => hdead 0 (hmin 0 hpos))
    rw [hrun, Option.map_some] at heq
    have htid : (((k.tasks.setObj (.at p) (k.genThread p stack sidPtr pstruct init)).enter (.at p)
        .runnable 0 (k.tasks.tidIndexDict 0)).obj (.at p)).tid = 0 := by
      simp [Tasks.enter, Tasks.setObj, hglobal]
    rw [htid] at heq
    exact ⟨_, heq, @Tasks.holdsFirst_enter k.tasks (.at p) (k.genThread p stack sidPtr pstruct init) _
      hdead hout hglobal hcur⟩

theorem Alone.timerHandler (h : Alone init s) (hdue : s.Due) :
    ∃ u, s.timerHandler = some u ∧ u.Started init := by
  obtain ⟨-, hfunc, hready, hothers, hcur⟩ := id h.tasks
  rcases Tasks.nextThread_cases (s := s.kernel.tasks) (by rw [hcur]; decide) with
    ⟨-, hnone⟩ | ⟨i, hpick, hi, hrunnable⟩
  · exact absurd hready (hnone 0 (by decide))
  · obtain rfl := hothers i hi hrunnable
    rw [timerHandler_due hdue, Tasks.threadScheduler, hpick]
    exact ⟨_, rfl, rfl, hfunc, hready⟩

theorem Alone.starts (h : Alone init s) (hnext : .next ∈ es) : s.Starts init es := by
  induction es generalizing s with
  | nil => exact absurd hnext List.not_mem_nil
  | cons e es ih =>
    cases e with
    | next =>
      have hexec : s.exec init .next = some { s with point := .left 0 } := by
        rw [exec, entryPoint, h.point]
        dsimp only
        rw [h.tasks.index]
      have hstarted : Started init { s with point := .left 0 } := ⟨rfl, h.tasks.func, h.tasks.runnable⟩
      exact .cons hexec (hstarted.starts es)
    | tick =>
      have htick : s.exec init .tick = s.timerHandler := by
        rw [exec, h.point]
      by_cases hdue : s.Due
      · obtain ⟨u, hu, hstarted⟩ := h.timerHandler hdue
        exact .cons (htick.trans hu) (hstarted.starts es)
      · exact .cons (htick.trans (timerHandler_early hdue)) (ih ⟨h.point, h.tasks⟩ (by simpa using hnext))

inductive Waiting (k : Kernel) : ℕ → EntryState → Prop
  | threadsInit (tick : Word) : Waiting k 3 ⟨k, tick, 0, 0, .threadsInit⟩
  | schedulePeriodInit (tick : Word) :
      Waiting k 2 ⟨k.setTasks k.tasks.threadsInit, tick, 0, 0, .schedulePeriodInit⟩
  | createThread (tick : Word) : Waiting k 1 ⟨k.setTasks k.tasks.threadsInit, tick, 0, 50, .createThread⟩

theorem Waiting.due_iff (h : Waiting k m s) (htick : s.tick.toNat ≤ 90) : s.Due ↔ s.tick.toNat = 90 := by
  have hnext : (s.tick + 1).toNat = s.tick.toNat + 1 := by bv_omega
  rw [Due, BitVec.lt_def, BitVec.lt_def, hnext]
  cases h with
  | threadsInit =>
    change 0 < _ ∧ 90 < _ ↔ _
    omega
  | schedulePeriodInit =>
    change 0 < _ ∧ 90 < _ ↔ _
    omega
  | createThread =>
    change 50 < _ ∧ 90 < _ ↔ _
    omega

theorem Waiting.not_starts {before : ThreadPtr} {obj : ThreadPtr → Thread} (h : Waiting k m s)
    (hk : k.tasks = Tasks.staticTasks before obj) (hdue : s.Due) : ¬ s.Starts init (.tick :: es) := by
  have hnot : ¬ s.Started init := by
    intro hstarted
    cases h <;> cases hstarted.point
  have htick : s.exec init .tick = s.timerHandler := by
    cases h <;> rfl
  have hpick : s.kernel.tasks.nextThread = none ∨ s.kernel.tasks.nextThread = some 1 := by
    have hinit : (k.setTasks k.tasks.threadsInit).tasks.nextThread = none ∨
        (k.setTasks k.tasks.threadsInit).tasks.nextThread = some 1 := by
      rw [hk]
      exact Tasks.nextThread_const (p := .emptyThread) (fun i hi => if_pos hi) rfl
    cases h with
    | threadsInit =>
      dsimp only
      rw [hk]
      exact Tasks.nextThread_const (p := .at 0) (fun _ _ => rfl) rfl
    | schedulePeriodInit => exact hinit
    | createThread => exact hinit
  rw [starts_cons_iff hnot, htick, timerHandler_due hdue, Tasks.threadScheduler]
  rintro ⟨u, hexec, hstarts⟩
  rcases hpick with hnone | hone
  · rw [hnone] at hexec
    cases hexec
  · rw [hone] at hexec
    obtain rfl := Option.some.inj hexec
    exact not_starts_of_left rfl one_ne_zero hstarts

theorem Waiting.starts_iff {before : ThreadPtr} {obj : ThreadPtr → Thread} (h : Waiting k m s)
    (hk : k.tasks = Tasks.staticTasks before obj) (hs : (k.setTasks k.tasks.threadsInit).Stocked)
    (htick : s.tick.toNat ≤ 90) (hnext : m < es.count .next) :
    s.Starts init es ↔ s.tick.toNat + ticksBefore m es ≤ 90 := by
  induction es generalizing m s with
  | nil => exact absurd hnext (Nat.not_lt_zero m)
  | cons e es ih =>
    have hnot : ¬ s.Started init := by
      intro hstarted
      cases h <;> cases hstarted.point
    cases e with
    | tick =>
      have hticks : ticksBefore m (.tick :: es) = ticksBefore m es + 1 := by
        cases h <;> rfl
      have hcount : m < es.count .next := by simpa using hnext
      by_cases hdue : s.Due
      · have hlast := (h.due_iff htick).mp hdue
        exact iff_of_false (h.not_starts hk hdue) (by omega)
      · have hearly := mt (h.due_iff htick).mpr hdue
        have hsucc : (s.tick + 1).toNat = s.tick.toNat + 1 := by bv_omega
        have hexec : s.exec init .tick = some { s with tick := s.tick + 1 } := by
          rw [← timerHandler_early hdue]
          cases h <;> rfl
        have hwaiting : Waiting k m { s with tick := s.tick + 1 } := by
          cases h <;> constructor
        rw [starts_cons_iff hnot, hexec, hticks]
        simp only [Option.some.injEq, exists_eq_left']
        rw [ih hwaiting (by dsimp only; omega) hcount]
        dsimp only
        omega
    | next =>
      rw [List.count_cons_self] at hnext
      rw [starts_cons_iff hnot]
      cases h with
      | threadsInit tick =>
        have h' := ih (.schedulePeriodInit tick) htick (by omega)
        rw [ticksBefore, ← h', exec, entryPoint]
        simp
      | schedulePeriodInit tick =>
        have h' := ih (.createThread tick) htick (by omega)
        rw [ticksBefore, ← h', exec, entryPoint]
        simp
      | createThread tick =>
        have hdead : ∀ i, ¬ (k.setTasks k.tasks.threadsInit).tasks.Live i := by
          rw [hk]
          exact Tasks.threadsInit_dead before obj
        have hcur : (k.setTasks k.tasks.threadsInit).tasks.curThreadIndex = 0 := by
          rw [hk]
          rfl
        obtain ⟨t, hcreate, htasks⟩ := exists_createThread hs hdead hcur init
        have hexec : exec init ⟨k.setTasks k.tasks.threadsInit, tick, 0, 50, .createThread⟩ .next =
            some ⟨t, tick, 0, 50, .switchContextFirst 0⟩ := by
          rw [exec, entryPoint, hcreate]
          rfl
        have halone : Alone init ⟨t, tick, 0, 50, .switchContextFirst 0⟩ := ⟨rfl, htasks⟩
        refine iff_of_true ⟨_, hexec, halone.starts (List.count_pos_iff.mp (by omega))⟩ ?_
        rw [ticksBefore, ticksBefore]
        exact htick

/-- The thread of `init` gets the processor exactly when at most ninety ticks come before it is
registered. -/
theorem first_thread_starts_iff {before : ThreadPtr} {obj : ThreadPtr → Thread}
    (hk : k.tasks = Tasks.staticTasks before obj) (hs : (k.setTasks k.tasks.threadsInit).Stocked)
    (init : ThreadFunc) (hnext : 3 < es.count .next) :
    (start k).Starts init es ↔ ticksBefore 3 es ≤ 90 := by
  have h : (start k).Starts init es ↔ 0 + ticksBefore 3 es ≤ 90 :=
    Waiting.starts_iff (.threadsInit 0) hk hs (show (0 : Word).toNat ≤ 90 by decide) hnext
  rwa [Nat.zero_add] at h

def bareKernel : Kernel :=
  (Kernel.zeroKernel.initKernel 0x400000).setTasks
    (.staticTasks Kernel.zeroKernel.tasks.before Kernel.zeroKernel.tasks.obj)

theorem first_thread_starts_iff_late :
    (start bareKernel).Starts ⟨0, 0, 0⟩ (.replicate 90 .tick ++ .replicate 4 .next) ∧
      ¬ (start bareKernel).Starts ⟨0, 0, 0⟩ (.replicate 91 .tick ++ .replicate 4 .next) := by
  have hs : (bareKernel.setTasks bareKernel.tasks.threadsInit).Stocked :=
    Kernel.initKernel_stocked (by decide) (by decide)
  exact ⟨(first_thread_starts_iff rfl hs ⟨0, 0, 0⟩ (by decide)).mpr (by decide),
    mt (first_thread_starts_iff rfl hs ⟨0, 0, 0⟩ (by decide)).mp (by decide)⟩

end EntryState

end MinOS
