import MinOS.ThreadLifetimes

namespace MinOS

open Library.Integers Library.Runs

namespace Lifetimes

def RecordedOnce (p : Thread) (tid : ℤ) : Prop :=
  ∃ j, j < nthreadChild ∧ p.ctid j = tid ∧ ∀ k, k < nthreadChild → p.ctid k = tid → k = j

structure Family (s : Lifetimes) : Prop where
  recorded : ∀ c p, s.tasks.Live c → s.forked (s.tasks.thread c).tid → s.tasks.Live p →
    (s.tasks.thread p).tid = (s.tasks.thread c).ptid →
      RecordedOnce (s.tasks.thread p) (s.tasks.thread c).tid
  children : ∀ p j, s.tasks.Live p → j < nthreadChild → (s.tasks.thread p).ctid j ≠ -1 →
    ∃ c, s.tasks.Live c ∧ s.forked (s.tasks.thread c).tid ∧
      (s.tasks.thread c).ptid = (s.tasks.thread p).tid ∧
      (s.tasks.thread c).tid = (s.tasks.thread p).ctid j
  forked_lt : ∀ tid, s.forked tid → tid < s.tasks.tidGlobal

end Lifetimes

def LifeOp.HasSlot (s : Lifetimes) (op : LifeOp) : Prop :=
  op.InRange s ∧ match op with
    | .fork _ _ _ _ => ∀ c, s.Current c → findChildSlot (s.tasks.thread c) (-1) ≠ none
    | _ => True

namespace Lifetimes

variable {s : Lifetimes} {tasks : Tasks} {before : ThreadPtr} {c i : ℕ} {ptid : ℤ}

section Slots

variable {t : Thread} {j : ℕ} {tid v : ℤ}

theorem RecordedOnce.set (h : RecordedOnce t v) (h0 : 0 ≤ tid) (hj : findChildSlot t (-1) = some j)
    (hv : v ≠ -1) (hne : v ≠ tid) : RecordedOnce (setCtid t tid).2 v := by
  obtain ⟨i, hi, hiv, honce⟩ := h
  obtain ⟨hjlt, hfree, hset⟩ := setCtid_slot h0 hj
  have hij : i ≠ j := by
    rintro rfl
    exact hv (hiv.symm.trans hfree)
  refine ⟨i, hi, ?_, fun k hk hkv => ?_⟩
  · rw [hset, Function.update_of_ne hij, hiv]
  · have hkj : k ≠ j := by
      rintro rfl
      rw [hset, Function.update_self] at hkv
      exact hne hkv.symm
    rw [hset, Function.update_of_ne hkj] at hkv
    exact honce k hk hkv

theorem recordedOnce_set (h0 : 0 ≤ tid) (hj : findChildSlot t (-1) = some j)
    (hnew : ∀ k, k < nthreadChild → t.ctid k ≠ tid) : RecordedOnce (setCtid t tid).2 tid := by
  obtain ⟨hjlt, -, hset⟩ := setCtid_slot h0 hj
  refine ⟨j, hjlt, by rw [hset, Function.update_self], fun k hk hkv => ?_⟩
  by_contra hkj
  rw [hset, Function.update_of_ne hkj] at hkv
  exact hnew k hk hkv

theorem RecordedOnce.clear (h : RecordedOnce t v) (hne : v ≠ tid) (hv : v ≠ -1) :
    RecordedOnce (clearCtid t tid).2 v := by
  obtain ⟨i, hi, hiv, honce⟩ := h
  refine ⟨i, hi, ?_, fun k hk hkv => ?_⟩
  · rcases clearCtid_ctid t tid i with hsame | ⟨-, hwas⟩
    · exact hsame.trans hiv
    · exact absurd (hiv.symm.trans hwas) hne
  · rcases clearCtid_ctid t tid k with hsame | ⟨hgone, -⟩
    · exact honce k hk (hsame.symm.trans hkv)
    · exact absurd (hkv.symm.trans hgone) hv

theorem RecordedOnce.cleared (h : RecordedOnce t tid) (h0 : 0 ≤ tid) {k : ℕ} (hk : k < nthreadChild) :
    (clearCtid t tid).2.ctid k ≠ tid := by
  obtain ⟨i, hi, hiv, honce⟩ := h
  have hfind : findChildSlot t tid = some i := by
    apply Tasks.find_range_eq hi (by simp [hiv])
    intro j hj
    simp only [decide_eq_false_iff_not]
    intro hjv
    have := honce j (by omega) hjv
    omega
  have hclear : (clearCtid t tid).2.ctid = Function.update t.ctid i (-1) := by
    rw [clearCtid, if_neg (by omega), hfind]
  rw [hclear]
  intro hkv
  by_cases hki : k = i
  · rw [hki, Function.update_self] at hkv
    omega
  · rw [Function.update_of_ne hki] at hkv
    exact hki (honce k hk hkv)

end Slots

namespace Family

theorem init (before : ThreadPtr) (obj : ThreadPtr → Thread) : (boot before obj).Family := by
  have hdead : ∀ k, ¬ (boot before obj).tasks.Live k := by
    rintro k ⟨hk, hl⟩
    exact hl (by simp [boot, Tasks.thread, Tasks.threadsInit, Tasks.staticTasks, hk, emptyThread])
  exact ⟨fun c _ hc => absurd hc (hdead c), fun p _ hp => absurd hp (hdead p), fun _ h => absurd h id⟩

theorem keep (h : s.Family) (hglobal : s.tasks.tidGlobal ≤ tasks.tidGlobal)
    (hlive : ∀ k, tasks.Live k ↔ s.tasks.Live k)
    (hthread : ∀ k, s.tasks.Live k → tasks.thread k = s.tasks.thread k) : (s.become tasks).Family := by
  refine ⟨fun c p hc hf hp hpt => ?_, fun p j hp hj hne => ?_, fun tid hf => ?_⟩
  · have hc' := (hlive c).mp hc
    have hp' := (hlive p).mp hp
    change RecordedOnce (tasks.thread p) (tasks.thread c).tid
    change s.forked (tasks.thread c).tid at hf
    change (tasks.thread p).tid = (tasks.thread c).ptid at hpt
    rw [hthread c hc'] at hf hpt ⊢
    rw [hthread p hp'] at hpt ⊢
    exact h.recorded c p hc' hf hp' hpt
  · have hp' := (hlive p).mp hp
    change (tasks.thread p).ctid j ≠ -1 at hne
    rw [hthread p hp'] at hne
    obtain ⟨c, hc, hf, hcp, hct⟩ := h.children p j hp' hj hne
    refine ⟨c, (hlive c).mpr hc, ?_⟩
    change s.forked (tasks.thread c).tid ∧ (tasks.thread c).ptid = (tasks.thread p).tid ∧
      (tasks.thread c).tid = (tasks.thread p).ctid j
    rw [hthread c hc, hthread p hp']
    exact ⟨hf, hcp, hct⟩
  · exact (h.forked_lt tid hf).trans_le hglobal

theorem create (h : s.Family) (hr : s.Registry before) {new : Thread} {p : ThreadPtr}
    (hadd : Tasks.Added s.tasks tasks p i new) (htid : new.tid = s.tasks.tidGlobal)
    (hctid : ∀ j, new.ctid j = -1) : (s.become tasks).Family := by
  have hglobal := hadd.tidGlobal
  have hnew : (tasks.thread i).tid = s.tasks.tidGlobal := by rw [hadd.new, htid]
  refine ⟨fun c p hc hf hp hpt => ?_, fun p j hp hj hne => ?_, fun tid hf => ?_⟩
  · change RecordedOnce (tasks.thread p) (tasks.thread c).tid
    change s.forked (tasks.thread c).tid at hf
    change (tasks.thread p).tid = (tasks.thread c).ptid at hpt
    rcases (hadd.live c).mp hc with rfl | hc
    · have := h.forked_lt _ hf
      omega
    · have hlt := hr.table.tid_lt c hc
      have hptid := hr.ptid_lt c hc
      rw [hadd.other c hc] at hf hpt ⊢
      rcases (hadd.live p).mp hp with rfl | hp
      · omega
      · rw [hadd.other p hp] at hpt ⊢
        exact h.recorded c p hc hf hp hpt
  · change (tasks.thread p).ctid j ≠ -1 at hne
    rcases (hadd.live p).mp hp with rfl | hp
    · rw [hadd.new] at hne
      exact absurd (hctid j) hne
    · rw [hadd.other p hp] at hne
      obtain ⟨c, hc, hf, hcp, hct⟩ := h.children p j hp hj hne
      refine ⟨c, (hadd.live c).mpr (.inr hc), ?_⟩
      change s.forked (tasks.thread c).tid ∧ (tasks.thread c).ptid = (tasks.thread p).tid ∧
        (tasks.thread c).tid = (tasks.thread p).ctid j
      rw [hadd.other c hc, hadd.other p hp]
      exact ⟨hf, hcp, hct⟩
  · change tid < tasks.tidGlobal
    have := h.forked_lt tid hf
    omega

theorem ctid_ne_global (h : s.Family) (hr : s.Registry before) (hc : s.tasks.Live c) {k : ℕ}
    (hk : k < nthreadChild) : (s.tasks.thread c).ctid k ≠ s.tasks.tidGlobal := by
  have h0 := hr.global_nonneg
  by_cases hne : (s.tasks.thread c).ctid k = -1
  · omega
  · obtain ⟨x, hx, -, -, hxt⟩ := h.children c k hc hk hne
    have := hr.table.tid_lt x hx
    omega

theorem fork (h : s.Family) (hr : s.Registry before) {p : ThreadPtr} {child : Thread}
    (he : Tasks.Enrolled s.tasks tasks i (s.tasks.thread c).tid)
    (hfork : Tasks.Forked s.tasks tasks p c i child) (hchild : ∀ j, child.ctid j = -1)
    (hc : s.tasks.Live c) (hslot : findChildSlot (s.tasks.thread c) (-1) ≠ none) :
    ((s.become tasks).noteForked s.tasks.tidGlobal).Family := by
  obtain ⟨slot, hslot⟩ := Option.ne_none_iff_exists'.mp hslot
  have h0 := hr.global_nonneg
  have hct := hr.table.tid_lt c hc
  have hglobal := hfork.tidGlobal
  have hnew := hfork.dead
  refine ⟨fun x y hx hf hy hyt => ?_, fun y j hy hj hne => ?_, fun tid hf => ?_⟩
  · change RecordedOnce (tasks.thread y) (tasks.thread x).tid
    change s.forked (tasks.thread x).tid ∨ (tasks.thread x).tid = s.tasks.tidGlobal at hf
    change (tasks.thread y).tid = (tasks.thread x).ptid at hyt
    rcases (hfork.live x).mp hx with rfl | hx
    · -- the new thread, whose parent is the current one
      rw [he.ptid] at hyt
      rw [he.tid]
      rcases (hfork.live y).mp hy with rfl | hy
      · rw [he.tid] at hyt
        omega
      · rw [(he.kept y hy).1] at hyt
        obtain rfl := hr.table.tid_inj hy hc hyt
        rw [hfork.parent]
        exact recordedOnce_set h0 hslot (fun k hk => h.ctid_ne_global hr hc hk)
    · have hlt := hr.table.tid_lt x hx
      have hge := hr.table.tid_nonneg x hx
      have hptid := hr.ptid_lt x hx
      rw [(he.kept x hx).1] at hf ⊢
      rw [(he.kept x hx).2] at hyt
      have hf' := hf.resolve_right (by omega)
      rcases (hfork.live y).mp hy with rfl | hy
      · rw [he.tid] at hyt
        omega
      · rw [(he.kept y hy).1] at hyt
        have hold := h.recorded x y hx hf' hy hyt
        by_cases hyc : y = c
        · subst hyc
          rw [hfork.parent]
          exact hold.set h0 hslot (by omega) (by omega)
        · rw [hfork.other y hy hyc]
          exact hold
  · change (tasks.thread y).ctid j ≠ -1 at hne
    have hlive : ∀ x, s.tasks.Live x → s.forked (s.tasks.thread x).tid →
        (s.tasks.thread x).ptid = (s.tasks.thread y).tid → s.tasks.Live y →
        (s.tasks.thread x).tid = (tasks.thread y).ctid j → ∃ x, tasks.Live x ∧
          (s.forked (tasks.thread x).tid ∨ (tasks.thread x).tid = s.tasks.tidGlobal) ∧
          (tasks.thread x).ptid = (tasks.thread y).tid ∧
          (tasks.thread x).tid = (tasks.thread y).ctid j := by
      intro x hx hf hxp hy hxt
      refine ⟨x, (hfork.live x).mpr (.inr hx), ?_⟩
      rw [(he.kept x hx).1, (he.kept x hx).2, (he.kept y hy).1]
      exact ⟨.inl hf, hxp, hxt⟩
    rcases (hfork.live y).mp hy with rfl | hy
    · rw [hfork.child] at hne
      exact absurd (hchild j) hne
    · by_cases hyc : y = c
      · subst hyc
        obtain ⟨-, -, hset⟩ := setCtid_slot h0 hslot
        by_cases hjs : j = slot
        · subst hjs
          refine ⟨i, (hfork.live i).mpr (.inl rfl), .inr he.tid, ?_, ?_⟩
          · exact he.ptid.trans (he.kept y hy).1.symm
          · change (tasks.thread i).tid = (tasks.thread y).ctid j
            rw [he.tid, hfork.parent, hset, Function.update_self]
        · have hsame : (tasks.thread y).ctid j = (s.tasks.thread y).ctid j := by
            rw [hfork.parent, hset, Function.update_of_ne hjs]
          rw [hsame] at hne
          obtain ⟨x, hx, hf, hxp, hxt⟩ := h.children y j hy hj hne
          exact hlive x hx hf hxp hy (hxt.trans hsame.symm)
      · have hsame := hfork.other y hy hyc
        rw [hsame] at hne
        obtain ⟨x, hx, hf, hxp, hxt⟩ := h.children y j hy hj hne
        exact hlive x hx hf hxp hy (by rw [hsame]; exact hxt)
  · change tid < tasks.tidGlobal
    rcases hf with hf | hf
    · have := h.forked_lt tid hf
      omega
    · omega

theorem finish (h : s.Family) (hr : s.Registry before) (hend : s.tasks.EndsAt c tasks) :
    (s.become tasks).Family := by
  have he := hend.ended hr.table
  obtain ⟨hc, hend⟩ := hend
  obtain ⟨-, -, hparent⟩ := Tasks.unregister_fields hr.table hc hend
  have hptid : ∀ k, k ≠ c → (tasks.thread k).ptid = (s.tasks.thread k).ptid := by
    intro k hk
    rcases he.thread hk with hsame | hclear
    · rw [hsame]
    · rw [hclear]
      exact Tasks.clearCtid_ptid ..
  refine ⟨fun x y hx hf hy hyt => ?_, fun y j hy hj hne => ?_, fun tid hf => ?_⟩
  · obtain ⟨hx, hxc⟩ := (he.live x).mp hx
    obtain ⟨hy, hyc⟩ := (he.live y).mp hy
    change RecordedOnce (tasks.thread y) (tasks.thread x).tid
    change s.forked (tasks.thread x).tid at hf
    change (tasks.thread y).tid = (tasks.thread x).ptid at hyt
    rw [he.tid hxc] at hf ⊢
    rw [he.tid hyc, hptid x hxc] at hyt
    have hold := h.recorded x y hx hf hy hyt
    have hge := hr.table.tid_nonneg x hx
    rcases he.thread hyc with hsame | hclear
    · rw [hsame]
      exact hold
    · rw [hclear]
      exact hold.clear (fun htid => hxc (hr.table.tid_inj hx hc htid)) (by omega)
  · obtain ⟨hy, hyc⟩ := (he.live y).mp hy
    change (tasks.thread y).ctid j ≠ -1 at hne
    have hsame : (tasks.thread y).ctid j = (s.tasks.thread y).ctid j := by
      rcases he.thread hyc with hsame | hclear
      · rw [hsame]
      · rcases clearCtid_ctid (s.tasks.thread y) (s.tasks.thread c).tid j with hkept | ⟨hgone, -⟩
        · rw [hclear]
          exact hkept
        · rw [hclear] at hne
          exact absurd hgone hne
    obtain ⟨x, hx, hf, hxp, hxt⟩ := h.children y j hy hj (hsame ▸ hne)
    have hxc : x ≠ c := by
      rintro rfl
      -- the parent of the thread that ends has lost its tid
      have hold := h.recorded x y hx hf hy hxp.symm
      apply hold.cleared (hr.table.tid_nonneg x hx) hj
      rw [← hparent y hyc hy hxp.symm, hsame, hxt]
    refine ⟨x, (he.live x).mpr ⟨hx, hxc⟩, ?_⟩
    change s.forked (tasks.thread x).tid ∧ (tasks.thread x).ptid = (tasks.thread y).tid ∧
      (tasks.thread x).tid = (tasks.thread y).ctid j
    rw [he.tid hxc, hptid x hxc, he.tid hyc, hsame]
    exact ⟨hf, hxp, hxt⟩
  · change tid < tasks.tidGlobal
    rw [he.tidGlobal]
    exact h.forked_lt tid hf

end Family

end Lifetimes

open Lifetimes in
theorem LifeStep.family {s t : Lifetimes} {op : LifeOp} {before : ThreadPtr} (hstep : LifeStep s op t)
    (hslot : op.HasSlot s) (hr : s.Registry before) (h : s.Family) : t.Family := by
  cases hstep with
  | create hcur hp hrun =>
    obtain ⟨ptid, hptid, -, -⟩ := hr.exists_ptid hcur
    rcases Tasks.threadRun_enrolled hr.table hptid hp hr.global_nonneg (hslot.1 rfl) hrun with
      rfl | ⟨i, -, hadd⟩
    · exact h.keep (le_refl _) (setObj_live hp _)
        (fun k hk => Tasks.thread_setObj_of_ne _ (hp.not_mem k hk.1))
    · exact h.create hr hadd rfl (fun _ => rfl)
  | @fork c _ _ _ _ _ hcur hp hfree hfork =>
    obtain ⟨i, he, hforked⟩ := Tasks.forkThread_enrolled hr.table hcur.1 hcur.2 hp hfree
      hr.global_nonneg (hslot.1 rfl) hfork
    exact h.fork hr he hforked (fun _ => rfl) hcur.2 (hslot.2 c hcur)
  | finish hend => exact h.finish hr hend
  | schedule hi => exact h.keep (le_refl _) (fun _ => Iff.rfl) (fun _ _ => rfl)

namespace Lifetimes

variable {s : Lifetimes} {before : ThreadPtr} {obj : ThreadPtr → Thread} {ops : List LifeOp}

theorem children_recorded
    (hrun : Run (fun s op t => LifeStep s op t ∧ op.HasSlot s) (boot before obj) ops s) :
    (∀ c p, s.tasks.Live c → s.forked (s.tasks.thread c).tid → s.tasks.Live p →
      (s.tasks.thread p).tid = (s.tasks.thread c).ptid →
        RecordedOnce (s.tasks.thread p) (s.tasks.thread c).tid) ∧
      ∀ p j, s.tasks.Live p → j < nthreadChild → (s.tasks.thread p).ctid j ≠ -1 →
        ∃ c, s.tasks.Live c ∧ s.forked (s.tasks.thread c).tid ∧
          (s.tasks.thread c).ptid = (s.tasks.thread p).tid ∧
          (s.tasks.thread c).tid = (s.tasks.thread p).ctid j := by
  have hboth : s.Registry before ∧ s.Family := hrun.invariant
    (I := fun s => s.Registry before ∧ s.Family) ⟨.init before obj, .init before obj⟩
    (fun h hstep => ⟨hstep.1.registry hstep.2.1 h.1, hstep.1.family hstep.2 h.1 h.2⟩)
  exact ⟨hboth.2.recorded, hboth.2.children⟩

theorem children_recorded_example : RecordedOnce (second.tasks.thread 0) 1 := by
  have hslot : (LifeOp.fork (.at 32) childless 0x20000 0).HasSlot first := by
    refine ⟨fun _ => show (1 : ℤ) + 1 < 2 ^ 31 by decide, fun c hcur => ?_⟩
    obtain rfl : 0 = c := Int.ofNat.inj hcur.1
    decide
  have hrun : Run (fun s op t => LifeStep s op t ∧ op.HasSlot s) (boot (.at 0) (fun _ => emptyThread))
      [.create (.at 16) emptyThread, .fork (.at 32) childless 0x20000 0] second :=
    .cons ⟨first_step, fun _ => show (0 : ℤ) + 1 < 2 ^ 31 by decide, trivial⟩
      (.single ⟨second_step, hslot⟩)
  exact (children_recorded hrun).1 1 0 ⟨by decide, by decide⟩ (.inr rfl) ⟨by decide, by decide⟩
    (by decide)

def brood : ℕ → Lifetimes
  | 0 => first
  | n + 1 =>
    let s := brood n
    let tasks := (forkNext s.tasks n).getD s.tasks
    ((s.become tasks).noteForked s.tasks.tidGlobal).become { tasks with curThreadIndex := (0 : ℕ) }

theorem brood_tasks (n : ℕ) : (brood n).tasks = broodTasks n := by
  induction n with
  | zero => rfl
  | succ n ih =>
    rw [broodTasks, ← ih]
    rfl

theorem brood_run {n : ℕ} (hn : n ≤ 11) :
    ∃ ops, Run LifeStep (boot (.at 0) (fun _ => emptyThread)) ops (brood n) := by
  induction n with
  | zero => exact ⟨_, .single first_step⟩
  | succ n ih =>
    obtain ⟨ops, hrun⟩ := ih (by omega)
    obtain ⟨hsome, hcur, hl, -, -, hfresh, hfree, -⟩ := broodTasks_forkNext (n := n) (by omega)
    obtain ⟨tasks, htasks⟩ := Option.isSome_iff_exists.mp hsome
    obtain ⟨-, -, -, -, hl', -⟩ := broodTasks_child (by omega) htasks
    rw [← brood_tasks] at hcur hl hfresh hfree htasks
    have hnext : brood (n + 1) = (((brood n).become tasks).noteForked (brood n).tasks.tidGlobal).become
        { tasks with curThreadIndex := (0 : ℕ) } := by
      rw [brood, htasks]
      rfl
    have hstep : LifeStep (brood n) (.fork (.at (32 + 16 * n)) childless 0x20000 0)
        (((brood n).become tasks).noteForked (brood n).tasks.tidGlobal) :=
      .fork ⟨hcur, hl⟩ hfresh ⟨39, by decide, hfree⟩ htasks
    have hback : LifeStep (((brood n).become tasks).noteForked (brood n).tasks.tidGlobal) (.schedule 0)
        (brood (n + 1)) := by
      rw [hnext]
      exact .schedule hl'
    exact ⟨_, (hrun.snoc hstep).snoc hback⟩

theorem eleventh_child_lost : ∃ ops s, Run LifeStep (boot (.at 0) (fun _ => emptyThread)) ops s ∧
    ¬ ∀ c p, s.tasks.Live c → s.forked (s.tasks.thread c).tid → s.tasks.Live p →
      (s.tasks.thread p).tid = (s.tasks.thread c).ptid →
        RecordedOnce (s.tasks.thread p) (s.tasks.thread c).tid := by
  obtain ⟨ops, hrun⟩ := brood_run (le_refl 11)
  refine ⟨ops, _, hrun, fun hall => ?_⟩
  have htids : ((brood 11).tasks.thread 11).tid = (brood 10).tasks.tidGlobal ∧
      ((brood 11).tasks.thread 11).state ≠ .dead ∧ ((brood 11).tasks.thread 0).state ≠ .dead ∧
      ((brood 11).tasks.thread 0).tid = ((brood 11).tasks.thread 11).ptid ∧
      ∀ j, j < nthreadChild →
        ((brood 11).tasks.thread 0).ctid j ≠ ((brood 11).tasks.thread 11).tid := by decide +kernel
  obtain ⟨htid, hchild, hparent, hptid, hnone⟩ := htids
  obtain ⟨j, hj, hjt, -⟩ := hall 11 0 ⟨by decide, hchild⟩ (.inr htid) ⟨by decide, hparent⟩ hptid
  exact hnone j hj hjt

end Lifetimes

end MinOS
