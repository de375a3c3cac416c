import MinOS.Library.Runs
import MinOS.ThreadTableInvariant

namespace MinOS

open Library.Integers Library.Runs

namespace Tasks

inductive TableOp where
  | threadRun (p : ThreadPtr) (t : Thread)
  | threadRegister (p : ThreadPtr) (t : Thread)
  | changeState (tid : ℤ) (state : ThreadState)
  | threadEnd (p : ThreadPtr)
  | schedule (i : ℕ)

def TableOp.isRegistration : TableOp → Bool
  | .threadRun _ _ => true
  | .threadRegister _ _ => true
  | _ => false

inductive TableStep : Tasks → TableOp → Tasks → Prop
  | threadRun {s t : Tasks} {p : ThreadPtr} {content : Thread} : s.Fresh p → s.findDead ≠ none →
      (s.setObj p content).threadRun p = some t → TableStep s (.threadRun p content) t
  | threadRegister {s t : Tasks} {p : ThreadPtr} {content : Thread} {j : ℤ} : s.Fresh p →
      s.findDead ≠ none → (s.setObj p content).threadRegister p = some (j, t) →
      TableStep s (.threadRegister p content) t
  | changeState {s : Tasks} {i : ℕ} {state : ThreadState} : s.Live i →
      TableStep s (.changeState (s.thread i).tid state) (s.changeState (s.thread i).tid state).2
  | threadEnd {s t : Tasks} {i k : ℕ} : s.Live i → s.Live k →
      (s.thread k).tid = (s.thread i).ptid → s.unregister (s.threads i) = some t →
      TableStep s (.threadEnd (s.threads i)) t
  | schedule {s : Tasks} {i : ℕ} : i < threadNum →
      TableStep s (.schedule i) { s with curThreadIndex := i }

variable {s t : Tasks} {i k : ℕ} {p : ThreadPtr} {op : TableOp} {ops : List TableOp}

theorem Consistent.register_fresh (hc : s.Consistent) (hp : s.Fresh p) {content : Thread}
    {state : ThreadState} {j : ℤ} (hfree : s.findDead ≠ none)
    (h : Tasks.register state (s.setObj p content) p = some (j, t)) (h0 : 0 ≤ s.tidGlobal)
    (hlt : s.tidGlobal + 1 < 2 ^ 31) : t.Consistent ∧ t.tidGlobal = s.tidGlobal + 1 :=
  have hreg := (hc.setObj_fresh hp content).register (hp.setObj content) h0 hlt
    (findDead_setObj hp content ▸ hfree) h
  ⟨hreg.1, hreg.2.1⟩

theorem TableStep.consistent (h : TableStep s op t) (hc : s.Consistent) (h0 : 0 ≤ s.tidGlobal)
    (hlt : s.tidGlobal + (if op.isRegistration then 1 else 0) < 2 ^ 31) :
    t.Consistent ∧ t.tidGlobal = s.tidGlobal + if op.isRegistration then 1 else 0 := by
  cases h with
  | threadRun hp hfree hrun =>
    simp only [Tasks.threadRun, Option.map_eq_some_iff, Prod.exists] at hrun
    obtain ⟨j, _, hreg, rfl⟩ := hrun
    exact hc.register_fresh hp hfree hreg h0 hlt
  | threadRegister hp hfree hreg => exact hc.register_fresh hp hfree hreg h0 hlt
  | @changeState i state hi =>
    rw [hc.changeState_eq hi]
    exact ⟨hc.setObj_state hi state, (Int.add_zero _).symm⟩
  | threadEnd hi hk hparent hend =>
    obtain ⟨ht, hglobal⟩ := hc.unregister hi hend
    exact ⟨ht, hglobal.trans (Int.add_zero _).symm⟩
  | schedule hi =>
    exact ⟨hc.of_same (fun _ _ => .inl rfl) rfl rfl hc.empty_dead (fun k hk => ⟨hk, rfl, rfl⟩),
      (Int.add_zero _).symm⟩

theorem run_consistent {s₀ : Tasks} (hrun : Run TableStep s₀ ops s) (hc : s₀.Consistent)
    (h0 : s₀.tidGlobal = 0) (hcount : ops.countP TableOp.isRegistration < 2 ^ 31) :
    s.Consistent ∧ s.tidGlobal = ops.countP TableOp.isRegistration := by
  induction hrun with
  | nil => exact ⟨hc, h0⟩
  | @snoc ops s op t hrun hstep ih =>
    rw [List.countP_append, List.countP_singleton] at hcount ⊢
    obtain ⟨hs, hglobal⟩ := ih (by omega)
    have hone : (if op.isRegistration then 1 else 0 : ℤ) = ((if op.isRegistration then 1 else 0 : ℕ) : ℤ) := by
      split_ifs <;> rfl
    obtain ⟨ht, hglobal'⟩ := hstep.consistent hs (by omega) (by omega)
    exact ⟨ht, by omega⟩

theorem step_keeps_live {content : Thread} (h : TableStep s op t) (hop : op = .threadRun p content ∨ op = .threadRegister p content) :
    ∀ i, s.Live i → t.threads i = s.threads i := by
  have hkeep : ∀ {state j u}, s.Fresh p → s.findDead ≠ none →
      Tasks.register state (s.setObj p content) p = some (j, u) → ∀ i, s.Live i → u.threads i = s.threads i := by
    intro state j u hp hfree hreg i hi
    rcases (s.setObj p content).findDead_cases with ⟨hnone, -⟩ | ⟨k, hk, -, hdead, -⟩
    · rw [findDead_setObj hp] at hnone
      exact absurd hnone hfree
    · simp only [Tasks.register, hk, Option.map_eq_some_iff, Prod.mk.injEq] at hreg
      obtain ⟨ptid, -, -, rfl⟩ := hreg
      refine Function.update_of_ne ?_ ..
      rintro rfl
      exact (hp.live_setObj content hi).2 hdead
  rcases hop with rfl | rfl
  · cases h with
    | threadRun hp hfree hrun =>
      simp only [Tasks.threadRun, Option.map_eq_some_iff, Prod.exists] at hrun
      obtain ⟨j, _, hreg, rfl⟩ := hrun
      exact hkeep hp hfree hreg
  · cases h with
    | threadRegister hp hfree hreg => exact hkeep hp hfree hreg

theorem thread_table_sound {before : ThreadPtr} {obj : ThreadPtr → Thread}
    (hrun : Run TableStep (staticTasks before obj).threadsInit ops s)
    (hcount : ops.countP TableOp.isRegistration < 2 ^ 31) :
    (∀ i, s.Live i → (s.thread i).index = i ∧ s.tidIndexDict i = (s.thread i).tid) ∧
      (∀ i k, s.Live i → s.Live k → (s.thread i).tid = (s.thread k).tid → i = k) ∧
      (∀ op t p content, op = TableOp.threadRun p content ∨ op = TableOp.threadRegister p content →
        TableStep s op t → ∀ i, s.Live i → t.threads i = s.threads i) ∧
      ∀ i, s.Live i → s.searchIndexFromTid (s.thread i).tid = i ∧
        (s.obj (s.getThreadPtr (s.thread i).tid)).tid = (s.thread i).tid ∧
        ∀ state, ∃ t, s.changeState (s.thread i).tid state = (1, t) ∧
          t.thread i = { s.thread i with state := state } ∧
          (∀ k, k < threadNum → k ≠ i → t.thread k = s.thread k) ∧
          t.threads = s.threads ∧ t.tidIndexDict = s.tidIndexDict ∧ t.tidGlobal = s.tidGlobal := by
  obtain ⟨hc, -⟩ := run_consistent hrun (.init before obj) rfl hcount
  refine ⟨fun i hi => ⟨hc.index i hi, hc.tid i hi⟩, fun i k hi hk => hc.tid_inj hi hk,
    fun op t p content hop hstep => step_keeps_live hstep hop, fun i hi => ?_⟩
  refine ⟨hc.searchIndexFromTid_eq hi, by rw [hc.getThreadPtr_eq hi]; rfl, fun state => ?_⟩
  refine ⟨_, hc.changeState_eq hi state, thread_setObj_self _ rfl, fun k hk hki => ?_, rfl, rfl, rfl⟩
  exact thread_setObj_of_ne _ (fun he => hki (hc.ptr_inj k i hk hi.1 he (he ▸ hc.ptr_ne hi)))

def bootTasks : Tasks := (staticTasks (.at 0) (fun _ => emptyThread)).threadsInit

def oneTask : Tasks := (bootTasks.setObj (.at 16) emptyThread).enter (.at 16) .runnable 0 (-1)

def twoTasks : Tasks := (oneTask.setObj (.at 32) emptyThread).enter (.at 32) .sleep 1 0

theorem twoTasks_run : Run TableStep bootTasks
    [.threadRun (.at 16) emptyThread, .threadRegister (.at 32) emptyThread] twoTasks := by
  have hfirst : TableStep bootTasks (.threadRun (.at 16) emptyThread) oneTask :=
    .threadRun ⟨by decide, by decide, by decide⟩ (by decide) rfl
  have hsecond : TableStep oneTask (.threadRegister (.at 32) emptyThread) twoTasks :=
    .threadRegister (j := 1) ⟨by decide, by decide, by decide⟩ (by decide) rfl
  exact .cons hfirst (.single hsecond)

theorem thread_table_sound_example :
    twoTasks.searchIndexFromTid 1 = 1 ∧ ∃ t, twoTasks.changeState 1 .runnable = (1, t) ∧
      t.thread 0 = twoTasks.thread 0 := by
  obtain ⟨-, -, -, hlive⟩ := thread_table_sound twoTasks_run (by decide)
  obtain ⟨hsearch, -, hchange⟩ := hlive 1 ⟨by decide, by decide⟩
  obtain ⟨t, ht, -, hother, -⟩ := hchange .runnable
  exact ⟨hsearch, t, ht, hother 0 (by decide) (by decide)⟩

end Tasks

end MinOS
