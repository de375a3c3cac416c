import MinOS.Library.Runs
import MinOS.ForkReturns

/-!
Runs of `create_thread`, `fork_thread` and `thread_end`, each of them one step, from `threads_init`
on.
-/

namespace MinOS

open Library.Integers Library.Runs

/-- The thread table, the slots that have held a thread so far and the tids of the threads that
`fork_thread` has made. -/
structure Lifetimes where
  tasks : Tasks
  used : ℕ → Prop
  forked : ℤ → Prop

inductive LifeOp where
  | create (p : ThreadPtr) (content : Thread)
  | fork (p : ThreadPtr) (content : Thread) (stack threadExec : ℕ)
  | finish (i : ℕ)
  | schedule (i : ℕ)

def LifeOp.isRegistration : LifeOp → Bool
  | .create _ _ => true
  | .fork _ _ _ _ => true
  | _ => false

namespace Lifetimes

def boot (before : ThreadPtr) (obj : ThreadPtr → Thread) : Lifetimes :=
  ⟨(Tasks.staticTasks before obj).threadsInit, fun _ => False, fun _ => False⟩

def Current (s : Lifetimes) (c : ℕ) : Prop := s.tasks.curThreadIndex = c ∧ s.tasks.Live c

def become (s : Lifetimes) (tasks : Tasks) : Lifetimes where
  tasks := tasks
  used i := s.used i ∨ tasks.Live i
  forked := s.forked

def noteForked (s : Lifetimes) (tid : ℤ) : Lifetimes :=
  { s with forked := fun t => s.forked t ∨ t = tid }

end Lifetimes

/-- The first thread is created before any thread runs. A new thread gets a structure that no thread
of the table uses, and a fork finds a free entry. `thread_end` may get the structure of any thread in
the table: a forked thread hands it that of another one. -/
inductive LifeStep : Lifetimes → LifeOp → Lifetimes → Prop
  | create {s : Lifetimes} {p : ThreadPtr} {content : Thread} {tasks : Tasks} :
      (s.tasks.tidGlobal = 0 ∨ ∃ c, s.Current c) → s.tasks.Fresh p →
      (s.tasks.setObj p { content with ctid := fun _ => -1 }).threadRun p = some tasks →
      LifeStep s (.create p content) (s.become tasks)
  | fork {s : Lifetimes} {c stack threadExec : ℕ} {p : ThreadPtr} {content : Thread} {tasks : Tasks} :
      s.Current c → s.tasks.Fresh p → (∃ k, k < threadNum ∧ ¬ s.tasks.Live k) →
      (s.tasks.setObj p content).forkThread p stack threadExec = some tasks →
      LifeStep s (.fork p content stack threadExec)
        ((s.become tasks).noteForked s.tasks.tidGlobal)
  | finish {s : Lifetimes} {i : ℕ} {tasks : Tasks} : s.tasks.EndsAt i tasks →
      LifeStep s (.finish i) (s.become tasks)
  | schedule {s : Lifetimes} {i : ℕ} : s.tasks.Live i →
      LifeStep s (.schedule i) (s.become { s.tasks with curThreadIndex := i })

/-- What the threads do to the table in runs with statements of `fork_thread`, they do here. -/
theorem ForkStep.life {s t : Forks} {op : ForkOp} (hstep : ForkStep s op t) (hop : op ≠ .stray)
    {u : Lifetimes} (hu : u.tasks = s.tasks) :
    t.tasks = s.tasks ∨ ∃ op' v, LifeStep u op' v ∧ v.tasks = t.tasks := by
  cases hstep with
  | create hcur _ hp hrun =>
    rw [← hu] at hp hrun
    exact .inr ⟨_, _, .create (.inr ⟨_, by rw [hu]; exact hcur.1, by rw [hu]; exact hcur.2⟩) hp hrun, rfl⟩
  | fork hcur _ hp hfree hrun =>
    rw [← hu] at hp hfree hrun
    exact .inr ⟨_, _, .fork ⟨by rw [hu]; exact hcur.1, by rw [hu]; exact hcur.2⟩ hp hfree hrun, rfl⟩
  | stmt _ _ _ => exact .inl rfl
  | leave _ _ _ => exact .inl rfl
  | finish _ _ hend => exact .inr ⟨_, _, .finish (hu ▸ hend.2), rfl⟩
  | @schedule i hi => exact .inr ⟨_, _, .schedule (i := i) (hu ▸ hi), by rw [← hu]; rfl⟩
  | stray _ _ => exact absurd rfl hop

namespace Tasks

variable {s t : Tasks} {c i k : ℕ} {p : ThreadPtr} {content : Thread} {ptid tid : ℤ}

theorem setCtid_ptid (t : Thread) (tid : ℤ) : (setCtid t tid).2.ptid = t.ptid := by
  unfold setCtid
  split_ifs
  · rfl
  · split <;> rfl

theorem clearCtid_ptid (t : Thread) (tid : ℤ) : (clearCtid t tid).2.ptid = t.ptid := by
  unfold clearCtid
  split_ifs
  · rfl
  · split <;> rfl

structure Enrolled (s t : Tasks) (i : ℕ) (ptid : ℤ) : Prop where
  consistent : t.Consistent
  tidGlobal : t.tidGlobal = s.tidGlobal + 1
  before : t.before = s.before
  cur : t.curThreadIndex = s.curThreadIndex ∨ t.curThreadIndex = i
  lt : i < threadNum
  dead : ¬ s.Live i
  dict : t.tidIndexDict = Function.update s.tidIndexDict i s.tidGlobal
  live : ∀ k, t.Live k ↔ k = i ∨ s.Live k
  tid : (t.thread i).tid = s.tidGlobal
  ptid : (t.thread i).ptid = ptid
  kept : ∀ k, s.Live k → (t.thread k).tid = (s.thread k).tid ∧ (t.thread k).ptid = (s.thread k).ptid

theorem threadRun_enrolled (hc : s.Consistent) (hcur : s.getCurThreadTid = some ptid) (hp : s.Fresh p)
    (h0 : 0 ≤ s.tidGlobal) (hlt : s.tidGlobal + 1 < 2 ^ 31)
    (h : (s.setObj p content).threadRun p = some t) :
    t = s.setObj p content ∨ ∃ i, Enrolled s t i ptid ∧ Added s t p i
      { content with state := .runnable, index := i, ptid := ptid, tid := s.tidGlobal } := by
  rcases threadRun_cases hp.not_mem hcur content with ⟨-, hrun⟩ | ⟨i, hi, hdead, hmin, hrun⟩
  · exact .inl (Option.some.inj (h.symm.trans hrun))
  · rcases threadRun_added hc hcur hp h0 hlt h with rfl | ⟨k, hadd⟩
    · exact .inl rfl
    · obtain rfl := Option.some.inj (h.symm.trans hrun)
      have hik : i = k := by
        have hlive : ((s.setObj p content).enter p .runnable i ptid).Live i :=
          (enter_live hp.not_mem hi content).mpr (.inl rfl)
        exact ((hadd.live i).mp hlive).resolve_right hdead
      subst hik
      exact .inr ⟨i, ⟨hadd.consistent, hadd.tidGlobal, rfl, .inl hadd.cur, hi, hdead, rfl, hadd.live,
        by rw [hadd.new], by rw [hadd.new],
        fun k hk => ⟨by rw [hadd.other k hk], by rw [hadd.other k hk]⟩⟩, hadd⟩

theorem setObj_setObj (s : Tasks) (p : ThreadPtr) (x y : Thread) :
    (s.setObj p x).setObj p y = s.setObj p y := by
  simp only [setObj, Function.update_idem]

theorem forkThread_dict {stack threadExec : ℕ} (hp : s.Fresh p)
    (hfree : ∃ k, k < threadNum ∧ ¬ s.Live k)
    (h : (s.setObj p content).forkThread p stack threadExec = some t) : t.before = s.before ∧
      ∀ i : ℕ, t.curThreadIndex = i →
        t.tidIndexDict = Function.update s.tidIndexDict i s.tidGlobal := by
  obtain ⟨i, hi, -⟩ := exists_findDead hp hfree
  simp only [forkThread, Option.bind_eq_bind, Option.bind_eq_some_iff, Prod.exists] at h
  obtain ⟨tid, -, tIndex, u, hreg, h⟩ := h
  have hgen : ∃ x, (s.setObj p content).threadGenForFork p
      ((s.setObj p content).getThreadPtr tid) stack threadExec = s.setObj p x := by
    rw [threadGenForFork]
    exact ⟨_, setObj_setObj s p content _⟩
  obtain ⟨x, hx⟩ := hgen
  rw [hx, threadRegister, register, hi x] at hreg
  simp only [Option.map_eq_some_iff, Prod.mk.injEq] at hreg
  obtain ⟨ptid, -, rfl, rfl⟩ := hreg
  obtain rfl := Option.some.inj h
  refine ⟨rfl, fun k hk => ?_⟩
  obtain rfl : i = k := Int.ofNat.inj hk
  rfl

theorem forkThread_enrolled {stack threadExec : ℕ} (hc : s.Consistent) (hcur : s.curThreadIndex = c)
    (hl : s.Live c) (hp : s.Fresh p) (hfree : ∃ k, k < threadNum ∧ ¬ s.Live k) (h0 : 0 ≤ s.tidGlobal)
    (hlt : s.tidGlobal + 1 < 2 ^ 31)
    (h : (s.setObj p content).forkThread p stack threadExec = some t) :
    ∃ i, Enrolled s t i (s.thread c).tid ∧
      Forked s t p c i (s.childThread c i stack threadExec content) := by
  obtain ⟨i, hfork⟩ := forkThread_forked hc hcur hl hp hfree h0 hlt h
  obtain ⟨hbefore, hdict⟩ := forkThread_dict hp hfree h
  refine ⟨i, ⟨hfork.consistent, hfork.tidGlobal, hbefore, .inr hfork.cur, hfork.lt, hfork.dead,
    hdict i hfork.cur, hfork.live, by rw [hfork.child]; rfl, by rw [hfork.child]; rfl,
    fun k hk => ?_⟩, hfork⟩
  by_cases hkc : k = c
  · subst hkc
    rw [hfork.parent]
    exact ⟨(setCtid_fields ..).2.2.1, setCtid_ptid ..⟩
  · rw [hfork.other k hk hkc]
    exact ⟨rfl, rfl⟩

theorem unregister_fields (hc : s.Consistent) (hi : s.Live i)
    (h : s.unregister (s.threads i) = some t) : t.before = s.before ∧
      t.tidIndexDict = Function.update s.tidIndexDict i (-1) ∧
      ∀ k, k ≠ i → s.Live k → (s.thread k).tid = (s.thread i).ptid →
        t.thread k = (clearCtid (s.thread k) (s.thread i).tid).2 := by
  have hindex : (s.obj (s.threads i)).index = i := hc.index i hi
  have hin : (0 : ℤ) ≤ i ∧ (i : ℤ) < threadNum := ⟨by omega, by exact_mod_cast hi.1⟩
  simp only [unregister, hindex, if_pos hin, Int.toNat_natCast, Option.some.injEq] at h
  subst h
  refine ⟨rfl, rfl, fun k hki hk hparent => ?_⟩
  let u : Tasks := { s with threads := Function.update s.threads i .emptyThread }
  have hukptr : u.threads k = s.threads k := Function.update_of_ne hki ..
  have hsearch : u.searchIndexFromTid (s.thread i).ptid = k := by
    rw [← hparent]
    exact hc.searchIndexFromTid_eq hk
  have hget : u.getThreadPtr (s.obj (s.threads i)).ptid = s.threads k := by
    have hne : (k : ℤ) ≠ -1 := by omega
    change u.getThreadPtr (s.thread i).ptid = s.threads k
    rw [getThreadPtr, hsearch, if_neg hne, Int.toNat_natCast, hukptr]
  exact (congrArg (Tasks.obj _) hukptr).trans
    ((congrFun (congrArg (fun q => (u.setObj q (clearCtid (u.obj q) _).2).obj) hget) _).trans
      (Function.update_self ..))

end Tasks

def LifeOp.InRange (s : Lifetimes) (op : LifeOp) : Prop :=
  op.isRegistration = true → s.tasks.tidGlobal + 1 < 2 ^ 31

namespace Lifetimes

variable {s t : Lifetimes} {tasks : Tasks} {before : ThreadPtr} {c i : ℕ} {ptid : ℤ} {op : LifeOp}
  {ops : List LifeOp}

structure Registry (s : Lifetimes) (before : ThreadPtr) : Prop where
  table : s.tasks.Consistent
  global_nonneg : 0 ≤ s.tasks.tidGlobal
  before_eq : s.tasks.before = before
  cur : 0 ≤ s.tasks.curThreadIndex ∧ s.tasks.curThreadIndex < threadNum
  start : s.tasks.tidGlobal = 0 → s.tasks.curThreadIndex = 0 ∧ ∀ k, ¬ s.used k
  used_live : ∀ k, s.tasks.Live k → s.used k
  ended : ∀ k, k < threadNum → s.used k → ¬ s.tasks.Live k → s.tasks.tidIndexDict k = -1
  unused : ∀ k, k < threadNum → ¬ s.used k → s.tasks.tidIndexDict k = if k = 0 then -1 else 0
  ptid_ge : ∀ k, s.tasks.Live k → -1 ≤ (s.tasks.thread k).ptid
  ptid_lt : ∀ k, s.tasks.Live k → (s.tasks.thread k).ptid < (s.tasks.thread k).tid

theorem Current.getCurThreadTid (hcur : s.Current c) (hc : s.tasks.Consistent) :
    s.tasks.getCurThreadTid = some (s.tasks.thread c).tid :=
  hc.getCurThreadTid_eq hcur.1 hcur.2

namespace Registry

theorem init (before : ThreadPtr) (obj : ThreadPtr → Thread) : (boot before obj).Registry before := by
  have hdead : ∀ k, ¬ (boot before obj).tasks.Live k := by
    rintro k ⟨hk, hl⟩
    exact hl (by simp [boot, Tasks.thread, Tasks.threadsInit, Tasks.staticTasks, hk, emptyThread])
  exact ⟨.init before obj, le_refl _, rfl, ⟨le_refl _, show (0 : ℤ) < threadNum by decide⟩,
    fun _ => ⟨rfl, fun _ h => h⟩,
    fun k hk => hdead k hk, fun _ _ h => absurd h id, fun _ _ _ => rfl,
    fun k hk => absurd hk (hdead k), fun k hk => absurd hk (hdead k)⟩

theorem exists_ptid (h : s.Registry before) (hcur : s.tasks.tidGlobal = 0 ∨ ∃ c, s.Current c) :
    ∃ ptid, s.tasks.getCurThreadTid = some ptid ∧ -1 ≤ ptid ∧ ptid < s.tasks.tidGlobal := by
  rcases hcur with h0 | ⟨c, hcur⟩
  · obtain ⟨hindex, hunused⟩ := h.start h0
    refine ⟨-1, ?_, le_refl _, by omega⟩
    rw [Tasks.getCurThreadTid, if_pos h.cur, hindex, Int.toNat_zero,
      h.unused 0 (by decide) (hunused 0), if_pos rfl]
  · have hnonneg := h.table.tid_nonneg c hcur.2
    exact ⟨_, hcur.getCurThreadTid h.table, by omega, h.table.tid_lt c hcur.2⟩

theorem global_pos (h : s.Registry before) (hi : s.tasks.Live i) : 0 < s.tasks.tidGlobal := by
  have := h.table.tid_nonneg i hi
  have := h.table.tid_lt i hi
  omega

theorem enroll (h : s.Registry before) (he : Tasks.Enrolled s.tasks tasks i ptid)
    (hge : -1 ≤ ptid) (hlt : ptid < s.tasks.tidGlobal) : (s.become tasks).Registry before := by
  have hdict : ∀ k, k ≠ i → tasks.tidIndexDict k = s.tasks.tidIndexDict k := by
    intro k hki
    rw [he.dict]
    exact Function.update_of_ne hki ..
  have hglobal := he.tidGlobal
  have h0 := h.global_nonneg
  have hlive := he.live
  refine ⟨he.consistent, ?_, he.before.trans h.before_eq, ?_, fun hz => ?_, fun k hk => .inr hk,
    fun k hk hu hl => ?_, fun k hk hu => ?_, fun k hk => ?_, fun k hk => ?_⟩
  · change 0 ≤ tasks.tidGlobal
    omega
  · rcases he.cur with hcur | hcur
    · change 0 ≤ tasks.curThreadIndex ∧ tasks.curThreadIndex < threadNum
      rw [hcur]
      exact h.cur
    · have := he.lt
      change 0 ≤ tasks.curThreadIndex ∧ tasks.curThreadIndex < threadNum
      omega
  · change tasks.tidGlobal = 0 at hz
    omega
  · have hki : k ≠ i := fun hki => hl ((hlive k).mpr (.inl hki))
    exact (hdict k hki).trans (h.ended k hk (hu.resolve_right hl)
      (fun hold => hl ((hlive k).mpr (.inr hold))))
  · have hki : k ≠ i := fun hki => hu (.inr ((hlive k).mpr (.inl hki)))
    exact (hdict k hki).trans (h.unused k hk (fun hold => hu (.inl hold)))
  · change -1 ≤ (tasks.thread k).ptid
    rcases (hlive k).mp hk with rfl | hold
    · rw [he.ptid]
      exact hge
    · rw [(he.kept k hold).2]
      exact h.ptid_ge k hold
  · change (tasks.thread k).ptid < (tasks.thread k).tid
    rcases (hlive k).mp hk with rfl | hold
    · rw [he.ptid, he.tid]
      exact hlt
    · rw [(he.kept k hold).1, (he.kept k hold).2]
      exact h.ptid_lt k hold

theorem keep (h : s.Registry before) (hc : tasks.Consistent)
    (hbefore : tasks.before = s.tasks.before) (hdict : tasks.tidIndexDict = s.tasks.tidIndexDict)
    (hglobal : tasks.tidGlobal = s.tasks.tidGlobal)
    (hcur : 0 ≤ tasks.curThreadIndex ∧ tasks.curThreadIndex < threadNum)
    (hstart : s.tasks.tidGlobal = 0 → tasks.curThreadIndex = 0)
    (hkept : ∀ k, tasks.Live k ↔ s.tasks.Live k)
    (hthread : ∀ k, s.tasks.Live k → tasks.thread k = s.tasks.thread k) :
    (s.become tasks).Registry before := by
  have hused : ∀ k, (s.become tasks).used k ↔ s.used k := by
    intro k
    constructor
    · rintro (hu | hl)
      · exact hu
      · exact h.used_live k ((hkept k).mp hl)
    · exact fun hu => .inl hu
  refine ⟨hc, ?_, hbefore.trans h.before_eq, hcur, fun hz => ?_, fun k hk => .inr hk,
    fun k hk hu hl => ?_, fun k hk hu => ?_, fun k hk => ?_, fun k hk => ?_⟩
  · exact hglobal ▸ h.global_nonneg
  · have hz' : s.tasks.tidGlobal = 0 := hglobal.symm.trans hz
    exact ⟨hstart hz', fun k hu => (h.start hz').2 k ((hused k).mp hu)⟩
  · exact (congrFun hdict k).trans
      (h.ended k hk ((hused k).mp hu) (fun hold => hl ((hkept k).mpr hold)))
  · exact (congrFun hdict k).trans (h.unused k hk (fun hold => hu ((hused k).mpr hold)))
  · have hold := (hkept k).mp hk
    exact (hthread k hold).symm ▸ h.ptid_ge k hold
  · have hold := (hkept k).mp hk
    exact (hthread k hold).symm ▸ h.ptid_lt k hold

theorem finish (h : s.Registry before) (hend : s.tasks.EndsAt i tasks) :
    (s.become tasks).Registry before := by
  have he := hend.ended h.table
  obtain ⟨hi, hend⟩ := hend
  obtain ⟨hbefore, hdict, -⟩ := Tasks.unregister_fields h.table hi hend
  have hpos := h.global_pos hi
  have hglobal := he.tidGlobal
  refine ⟨he.consistent, ?_, hbefore.trans h.before_eq, ?_, fun hz => ?_, fun k hk => .inr hk,
    fun k hk hu hl => ?_, fun k hk hu => ?_, fun k hk => ?_, fun k hk => ?_⟩
  · change 0 ≤ tasks.tidGlobal
    omega
  · change 0 ≤ tasks.curThreadIndex ∧ tasks.curThreadIndex < threadNum
    rw [he.cur]
    exact h.cur
  · change tasks.tidGlobal = 0 at hz
    omega
  · change tasks.tidIndexDict k = -1
    rw [hdict]
    by_cases hki : k = i
    · rw [hki, Function.update_self]
    · rw [Function.update_of_ne hki]
      exact h.ended k hk (hu.resolve_right hl) (fun hold => hl ((he.live k).mpr ⟨hold, hki⟩))
  · have hki : k ≠ i := by
      rintro rfl
      exact hu (.inl (h.used_live k hi))
    change tasks.tidIndexDict k = _
    rw [hdict, Function.update_of_ne hki]
    exact h.unused k hk (fun hold => hu (.inl hold))
  · obtain ⟨hold, hki⟩ := (he.live k).mp hk
    change -1 ≤ (tasks.thread k).ptid
    rcases he.thread hki with hsame | hclear
    · rw [hsame]
      exact h.ptid_ge k hold
    · rw [hclear, Tasks.clearCtid_ptid]
      exact h.ptid_ge k hold
  · obtain ⟨hold, hki⟩ := (he.live k).mp hk
    change (tasks.thread k).ptid < (tasks.thread k).tid
    rw [he.tid hki]
    rcases he.thread hki with hsame | hclear
    · rw [hsame]
      exact h.ptid_lt k hold
    · rw [hclear, Tasks.clearCtid_ptid]
      exact h.ptid_lt k hold

theorem noteForked (h : s.Registry before) (tid : ℤ) : (s.noteForked tid).Registry before :=
  ⟨h.table, h.global_nonneg, h.before_eq, h.cur, h.start, h.used_live, h.ended, h.unused, h.ptid_ge,
    h.ptid_lt⟩

end Registry

theorem setObj_live {p : ThreadPtr} (hp : tasks.Fresh p) (x : Thread) (k : ℕ) :
    (tasks.setObj p x).Live k ↔ tasks.Live k := by
  constructor
  · rintro ⟨hk, hl⟩
    exact ⟨hk, Tasks.thread_setObj_of_ne x (hp.not_mem k hk) ▸ hl⟩
  · exact fun hl => hp.live_setObj x hl

end Lifetimes

open Lifetimes in
theorem LifeStep.registry {s t : Lifetimes} {op : LifeOp} {before : ThreadPtr} (hstep : LifeStep s op t)
    (hlt : op.InRange s) (h : s.Registry before) : t.Registry before := by
  cases hstep with
  | create hcur hp hrun =>
    obtain ⟨ptid, hptid, hge, hltg⟩ := h.exists_ptid hcur
    rcases Tasks.threadRun_enrolled h.table hptid hp h.global_nonneg (hlt rfl) hrun with
      rfl | ⟨i, he, -⟩
    · exact h.keep (h.table.setObj_fresh hp _) rfl rfl rfl h.cur (fun h0 => (h.start h0).1)
        (setObj_live hp _) (fun k hk => Tasks.thread_setObj_of_ne _ (hp.not_mem k hk.1))
    · exact h.enroll he hge hltg
  | @fork c _ _ _ _ _ hcur hp hfree hfork =>
    obtain ⟨i, he, -⟩ := Tasks.forkThread_enrolled h.table hcur.1 hcur.2 hp hfree h.global_nonneg
      (hlt rfl) hfork
    have := h.table.tid_nonneg c hcur.2
    exact (h.enroll he (by omega) (h.table.tid_lt c hcur.2)).noteForked _
  | finish hend => exact h.finish hend
  | @schedule i hi =>
    have hin : (0 : ℤ) ≤ i ∧ (i : ℤ) < threadNum := ⟨by omega, by exact_mod_cast hi.1⟩
    exact h.keep (h.table.schedule _) rfl rfl rfl hin
      (fun h0 => absurd h0 (h.global_pos hi).ne') (fun _ => Iff.rfl) (fun _ _ => rfl)

theorem Lifetimes.run_registry {s : Lifetimes} {before : ThreadPtr} {obj : ThreadPtr → Thread}
    {ops : List LifeOp}
    (hrun : Run (fun s op t => LifeStep s op t ∧ op.InRange s) (Lifetimes.boot before obj) ops s) :
    s.Registry before :=
  hrun.invariant (.init before obj) (fun h hstep => hstep.1.registry hstep.2 h)

namespace Lifetimes

def first : Lifetimes := (boot (.at 0) (fun _ => emptyThread)).become loneTasks

def firstEnded : Lifetimes := first.become ((loneTasks.unregister (.at 16)).get (by decide))

theorem first_step : LifeStep (boot (.at 0) (fun _ => emptyThread)) (.create (.at 16) emptyThread) first :=
  .create (.inl rfl) ⟨by decide, by decide, by decide⟩ rfl

theorem firstEnded_step : LifeStep first (.finish 0) firstEnded :=
  .finish ⟨⟨by decide, by decide⟩, (Option.some_get _).symm⟩

def second : Lifetimes := (first.become forkedTasks).noteForked 1

theorem second_step : LifeStep first (.fork (.at 32) childless 0x20000 0) second :=
  .fork (c := 0) ⟨rfl, by decide, by decide⟩ ⟨by decide, by decide, by decide⟩
    ⟨1, by decide, fun hl => hl.2 rfl⟩ (Option.some_get _).symm

end Lifetimes

end MinOS
