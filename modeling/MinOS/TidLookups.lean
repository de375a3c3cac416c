import MinOS.ThreadLifetimes

namespace MinOS

open Library.Integers Library.Runs

namespace Tasks

variable {s : Tasks} {tid : ℤ}

theorem searchIndexFromTid_cases (s : Tasks) (tid : ℤ) :
    s.searchIndexFromTid tid = -1 ∧ (∀ k, k < threadNum → s.tidIndexDict k ≠ tid) ∨
      ∃ k, s.searchIndexFromTid tid = (k : ℕ) ∧ k < threadNum ∧ s.tidIndexDict k = tid := by
  rw [searchIndexFromTid]
  cases hfind : (List.range threadNum).find? (fun i => decide (s.tidIndexDict i = tid)) with
  | none =>
    refine .inl ⟨rfl, fun k hk => ?_⟩
    have hno := List.find?_eq_none.mp hfind k (List.mem_range.mpr hk)
    simpa using hno
  | some k =>
    have hmem := List.mem_range.mp (List.mem_of_find?_eq_some hfind)
    exact .inr ⟨k, rfl, hmem, by simpa using List.find?_some hfind⟩

theorem searchIndexFromTid_eq_neg_one :
    s.searchIndexFromTid tid = -1 ↔ ∀ k, k < threadNum → s.tidIndexDict k ≠ tid := by
  rcases s.searchIndexFromTid_cases tid with ⟨he, hno⟩ | ⟨k, he, hk, hdict⟩
  · exact iff_of_true he hno
  · refine iff_of_false (by omega) (fun hno => hno k hk hdict)

def Absent (s : Tasks) (tid : ℤ) : Prop :=
  s.searchIndexFromTid tid = -1 ∧ ∀ state, (s.changeState tid state).1 = 0 ∧
    (s.changeState tid state).2.obj .emptyThread = s.obj .emptyThread

theorem absent_iff : s.Absent tid ↔ s.searchIndexFromTid tid = -1 ∧ s.before = .at 0 := by
  constructor
  · rintro ⟨hsearch, hchange⟩
    refine ⟨hsearch, ?_⟩
    by_contra hne
    have hfails := (hchange .dead).1
    rw [changeState, getThreadPtr, if_pos hsearch, if_neg hne] at hfails
    exact absurd hfails (show (1 : ℤ) ≠ 0 by decide)
  · rintro ⟨hsearch, hnull⟩
    refine ⟨hsearch, fun state => ?_⟩
    rw [changeState, getThreadPtr, if_pos hsearch, if_pos hnull]
    exact ⟨rfl, rfl⟩

end Tasks

namespace Lifetimes

variable {s : Lifetimes} {before : ThreadPtr} {tid : ℤ}

theorem Registry.search_absent_iff (h : s.Registry before) (h0 : 0 ≤ tid)
    (habsent : ∀ k, s.tasks.Live k → (s.tasks.thread k).tid ≠ tid) :
    s.tasks.searchIndexFromTid tid = -1 ↔
      (tid = 0 → ∀ k, 0 < k → k < threadNum → s.used k) := by
  rw [Tasks.searchIndexFromTid_eq_neg_one]
  constructor
  · rintro hno rfl k hpos hk
    by_contra hu
    apply hno k hk
    rw [h.unused k hk hu, if_neg (by omega)]
  · intro hused k hk
    by_cases hl : s.tasks.Live k
    · rw [h.table.tid k hl]
      exact habsent k hl
    · by_cases hu : s.used k
      · rw [h.ended k hk hu hl]
        omega
      · rw [h.unused k hk hu]
        split_ifs with hz
        · omega
        · rintro rfl
          exact hu (hused rfl k (by omega) hk)

end Lifetimes

open Lifetimes in
theorem LifeStep.global_le {s t : Lifetimes} {op : LifeOp} {before : ThreadPtr}
    (hstep : LifeStep s op t) (hlt : op.InRange s) (h : s.Registry before) :
    t.tasks.tidGlobal ≤ s.tasks.tidGlobal + if op.isRegistration then 1 else 0 := by
  cases hstep with
  | create hcur hp hrun =>
    obtain ⟨ptid, hptid, -, -⟩ := h.exists_ptid hcur
    rcases Tasks.threadRun_enrolled h.table hptid hp h.global_nonneg (hlt rfl) hrun with
      rfl | ⟨i, he, -⟩
    · exact Int.le_add_one (le_refl _)
    · exact he.tidGlobal.le
  | fork hcur hp hfree hfork =>
    obtain ⟨i, he, -⟩ := Tasks.forkThread_enrolled h.table hcur.1 hcur.2 hp hfree h.global_nonneg
      (hlt rfl) hfork
    exact he.tidGlobal.le
  | finish hend => exact ((hend.ended h.table).tidGlobal.trans
      (Int.add_zero _).symm).le
  | schedule hi => exact (Int.add_zero _).ge

namespace Lifetimes

variable {s : Lifetimes} {before : ThreadPtr} {obj : ThreadPtr → Thread} {ops : List LifeOp} {tid : ℤ}

theorem run_inRange (hrun : Run LifeStep (boot before obj) ops s)
    (hcount : ops.countP LifeOp.isRegistration < 2 ^ 31) :
    Run (fun s op t => LifeStep s op t ∧ op.InRange s) (boot before obj) ops s ∧
      s.tasks.tidGlobal ≤ ops.countP LifeOp.isRegistration := by
  induction hrun with
  | nil => exact ⟨.nil, le_refl _⟩
  | @snoc ops s op t _ hstep ih =>
    rw [List.countP_append, List.countP_singleton] at hcount ⊢
    obtain ⟨hrun', hglobal⟩ := ih (by omega)
    have hlt : op.InRange s := by
      intro hreg
      rw [if_pos hreg] at hcount
      omega
    have hone : (if op.isRegistration then 1 else 0 : ℤ) =
        ((if op.isRegistration then 1 else 0 : ℕ) : ℤ) := by
      split_ifs <;> rfl
    have hle := hstep.global_le hlt (run_registry hrun')
    exact ⟨hrun'.snoc ⟨hstep, hlt⟩, by omega⟩

theorem absent_tid_iff (hrun : Run LifeStep (boot before obj) ops s)
    (hcount : ops.countP LifeOp.isRegistration < 2 ^ 31) (h0 : 0 ≤ tid)
    (habsent : ∀ k, s.tasks.Live k → (s.tasks.thread k).tid ≠ tid) :
    s.tasks.Absent tid ↔
      (tid = 0 → ∀ k, 0 < k → k < threadNum → s.used k) ∧ before = .at 0 := by
  have h := run_registry (run_inRange hrun hcount).1
  rw [Tasks.absent_iff, h.search_absent_iff h0 habsent, h.before_eq]

theorem absent_tid_iff_example : first.tasks.Absent 5 := by
  have habsent : ∀ k, first.tasks.Live k → (first.tasks.thread k).tid ≠ 5 := by
    rintro k ⟨hk, hl⟩
    have hall : ∀ k, k < threadNum → (first.tasks.thread k).tid ≠ 5 := by decide
    exact hall k hk
  exact (absent_tid_iff (.single first_step) (by decide) (by decide) habsent).mpr
    ⟨fun h => absurd h (by decide), rfl⟩

/-- The first thread has ended. Its tid is still found, in an entry that was never used, and
`change_state` makes every free slot runnable. -/
theorem ended_tid_found :
    Run LifeStep (boot (.at 0) (fun _ => emptyThread)) [.create (.at 16) emptyThread, .finish 0]
        firstEnded ∧ (∀ k, ¬ firstEnded.tasks.Live k) ∧ ¬ firstEnded.tasks.Absent 0 ∧
      firstEnded.tasks.searchIndexFromTid 0 = 1 ∧
      ((firstEnded.tasks.changeState 0 .runnable).2.thread 5).state = .runnable := by
  have hsearch : firstEnded.tasks.searchIndexFromTid 0 = 1 := by decide
  refine ⟨.cons first_step (.single firstEnded_step), ?_, fun habsent => ?_, hsearch, by decide⟩
  · rintro k ⟨hk, hl⟩
    have hall : ∀ k, k < threadNum → (firstEnded.tasks.thread k).state = .dead := by decide
    exact hl (hall k hk)
  · rw [Tasks.Absent, hsearch] at habsent
    exact absurd habsent.1 (by decide)

end Lifetimes

end MinOS
