import MinOS.Library.Interleavings
import MinOS.Library.Words
import MinOS.SchedulerRotation

namespace MinOS

open Library.Interleavings Library.RoundRobin Library.Runs Library.Words

structure TimerState where
  tick : Word
  previousInterrupt : Word
  timerPeriod : Word
  tasks : Tasks

namespace TimerState

def timerHandler (s : TimerState) : Option TimerState :=
  let tick := s.tick + 1
  if s.previousInterrupt + s.timerPeriod < tick ∧ 90 < tick then
    s.tasks.threadScheduler.map (fun tasks =>
      { s with tick := tick, previousInterrupt := tick, tasks := tasks })
  else some { s with tick := tick }

end TimerState

/-- A whole run of `timer_handler`, another call of the scheduler, or anything else that happens to the
thread table in between. -/
inductive TimerEvent where
  | tick
  | call
  | change (tasks : Tasks)

def TimerEvent.isTick : TimerEvent → Bool
  | .tick => true
  | _ => false

namespace TimerState

def exec (s : TimerState) : TimerEvent → Option TimerState
  | .tick => s.timerHandler
  | .call => s.tasks.threadScheduler.map (fun tasks => { s with tasks := tasks })
  | .change tasks =>
    if tasks.curThreadIndex = s.tasks.curThreadIndex then some { s with tasks := tasks } else none

def left (s : TimerState) : ℕ :=
  max (s.previousInterrupt.toNat + s.timerPeriod.toNat + 1) 91 - s.tick.toNat

/-- No call of the scheduler is late, and the counters do not overflow in the next `n` ticks. -/
structure OnTime (n : ℕ) (s : TimerState) : Prop where
  previous : s.previousInterrupt.toNat ≤ s.tick.toNat
  due : s.tick.toNat < max (s.previousInterrupt.toNat + s.timerPeriod.toNat + 1) 91
  wrap : s.tick.toNat + n + s.timerPeriod.toNat < 2 ^ 64

variable {s t : TimerState} {n : ℕ} {a : ℤ}

theorem timerHandler_cases (h : s.OnTime (n + 1)) (hstep : s.timerHandler = some t) :
    (s.left = 1 ∧ s.tasks.threadScheduler = some t.tasks ∧ t.OnTime n ∧ t.timerPeriod = s.timerPeriod ∧
      t.left ≤ s.timerPeriod.toNat + 1) ∨
    (1 < s.left ∧ t.tasks = s.tasks ∧ t.OnTime n ∧ t.timerPeriod = s.timerPeriod ∧ t.left + 1 = s.left) := by
  obtain ⟨hprev, hdue, hwrap⟩ := h
  have htick : (s.tick + 1).toNat = s.tick.toNat + 1 := by bv_omega
  have hsum : (s.previousInterrupt + s.timerPeriod).toNat =
      s.previousInterrupt.toNat + s.timerPeriod.toNat := by bv_omega
  have hcond : (s.previousInterrupt + s.timerPeriod < s.tick + 1 ∧ 90 < s.tick + 1) ↔
      max (s.previousInterrupt.toNat + s.timerPeriod.toNat + 1) 91 ≤ s.tick.toNat + 1 := by
    rw [BitVec.lt_def, BitVec.lt_def, hsum, htick]
    change _ ∧ 90 < s.tick.toNat + 1 ↔ _
    omega
  rw [timerHandler] at hstep
  by_cases hcall : s.previousInterrupt + s.timerPeriod < s.tick + 1 ∧ 90 < s.tick + 1
  · rw [if_pos hcall] at hstep
    rw [hcond] at hcall
    obtain ⟨tasks, htasks, rfl⟩ := Option.map_eq_some_iff.mp hstep
    refine .inl ⟨by unfold left; omega, htasks, ⟨le_rfl, ?_, ?_⟩, rfl, ?_⟩
    all_goals
      simp only [left, htick]
      omega
  · rw [if_neg hcall] at hstep
    rw [hcond] at hcall
    obtain rfl := Option.some.inj hstep
    refine .inr ⟨by unfold left; omega, rfl, ⟨?_, ?_, ?_⟩, rfl, ?_⟩
    all_goals
      simp only [left, htick]
      omega

theorem OnTime.setTasks (h : s.OnTime (n + 1)) (tasks : Tasks) : OnTime n { s with tasks := tasks } := by
  obtain ⟨hprev, hdue, hwrap⟩ := h
  exact ⟨hprev, hdue, by dsimp only; omega⟩

theorem OnTime.boot {period : Word} (hwrap : n + period.toNat < 2 ^ 64) (tasks : Tasks) :
    OnTime n ⟨0, 0, period, tasks⟩ := by
  refine ⟨le_rfl, ?_, ?_⟩
  · change 0 < max (0 + period.toNat + 1) 91
    omega
  · change 0 + n + period.toNat < 2 ^ 64
    omega

theorem OnTime.exec {e : TimerEvent} (h : s.OnTime (n + 1)) (hstep : s.exec e = some t) : t.OnTime n := by
  cases e with
  | tick =>
    rcases timerHandler_cases h hstep with ⟨-, -, htime, -⟩ | ⟨-, -, htime, -⟩
    · exact htime
    · exact htime
  | call =>
    obtain ⟨tasks, -, rfl⟩ := Option.map_eq_some_iff.mp hstep
    exact h.setTasks tasks
  | change tasks =>
    rw [TimerState.exec, Option.ite_none_right_eq_some, Option.some.injEq] at hstep
    obtain ⟨-, rfl⟩ := hstep
    exact h.setTasks tasks

theorem OnTime.run {es : List TimerEvent} (hrun : Run (fun s e t => s.exec e = some t) s es t)
    (h : s.OnTime (es.length + n)) : t.OnTime n := by
  induction hrun generalizing n with
  | nil => simpa using h
  | @snoc es t e u hrun hstep ih =>
    have hlen : (es ++ [e]).length + n = es.length + (n + 1) := by simp; omega
    exact (ih (hlen ▸ h)).exec hstep

theorem call_next (hc : 0 ≤ s.tasks.curThreadIndex) (hcn : s.tasks.curThreadIndex < threadNum)
    (ha : 0 ≤ a) (han : a < threadNum) (hready : s.tasks.Runnable a) {tasks : Tasks}
    (hcall : s.tasks.threadScheduler = some tasks) (hne : tasks.curThreadIndex ≠ a) :
    0 ≤ tasks.curThreadIndex ∧ tasks.curThreadIndex < threadNum ∧
      turns threadNum tasks.curThreadIndex a + 1 ≤ turns threadNum s.tasks.curThreadIndex a := by
  obtain ⟨k, -, -, -, -, hpick, hnext⟩ := Tasks.threadScheduler_next hc hcn ⟨a, ha, han, hready⟩
  rw [hcall, Option.some.injEq] at hpick
  subst hpick
  have hle := hnext.first a ha han hready
  have hlt : turns threadNum s.tasks.curThreadIndex k < turns threadNum s.tasks.curThreadIndex a :=
    lt_of_le_of_ne hle (fun heq => hne (turns_inj hnext.nonneg hnext.lt ha han heq))
  have hpos := turns_pos (n := threadNum) (c := s.tasks.curThreadIndex) (a := k) (by decide)
  refine ⟨hnext.nonneg, hnext.lt, ?_⟩
  change turns threadNum k a + 1 ≤ _
  rw [turns_sub (by decide) hlt]
  omega

def waits (s : TimerState) (a : ℤ) : ℕ :=
  (turns threadNum s.tasks.curThreadIndex a).toNat * (s.timerPeriod.toNat + 1) + s.left

theorem waits_step {e : TimerEvent} (h : s.OnTime (n + 1)) (hc : 0 ≤ s.tasks.curThreadIndex)
    (hcn : s.tasks.curThreadIndex < threadNum) (ha : 0 ≤ a) (han : a < threadNum)
    (hready : s.tasks.Runnable a) (hstep : s.exec e = some t) (hne : t.tasks.curThreadIndex ≠ a) :
    t.timerPeriod = s.timerPeriod ∧ 0 ≤ t.tasks.curThreadIndex ∧
      t.tasks.curThreadIndex < threadNum ∧ t.waits a + (if e.isTick then 1 else 0) ≤ s.waits a := by
  have hless : ∀ {x y : ℤ}, 0 < x → x + 1 ≤ y →
      x.toNat * (s.timerPeriod.toNat + 1) + (s.timerPeriod.toNat + 1) ≤
        y.toNat * (s.timerPeriod.toNat + 1) := by
    intro x y hx hxy
    rw [← Nat.succ_mul]
    exact Nat.mul_le_mul_right _ (by omega)
  have hpos := turns_pos (n := threadNum) (c := t.tasks.curThreadIndex) (a := a) (by decide)
  cases e with
  | tick =>
    rcases timerHandler_cases h hstep with
      ⟨hleft, hcall, -, hperiod, hnext⟩ | ⟨-, htasks, -, hperiod, hleft⟩
    · obtain ⟨hlo, hhi, hturns⟩ := call_next hc hcn ha han hready hcall hne
      refine ⟨hperiod, hlo, hhi, ?_⟩
      have := hless hpos hturns
      simp only [waits, hperiod, hleft, TimerEvent.isTick, ↓reduceIte]
      omega
    · refine ⟨hperiod, htasks ▸ hc, htasks ▸ hcn, ?_⟩
      simp only [waits, hperiod, htasks, TimerEvent.isTick, ↓reduceIte]
      omega
  | call =>
    obtain ⟨tasks, hcall, rfl⟩ := Option.map_eq_some_iff.mp hstep
    obtain ⟨hlo, hhi, hturns⟩ := call_next hc hcn ha han hready hcall hne
    refine ⟨rfl, hlo, hhi, ?_⟩
    have := hless hpos hturns
    dsimp only at this
    change (turns threadNum tasks.curThreadIndex a).toNat * (s.timerPeriod.toNat + 1) + s.left + 0 ≤
      (turns threadNum s.tasks.curThreadIndex a).toNat * (s.timerPeriod.toNat + 1) + s.left
    omega
  | change tasks =>
    rw [TimerState.exec, Option.ite_none_right_eq_some, Option.some.injEq] at hstep
    obtain ⟨hsame, rfl⟩ := hstep
    refine ⟨rfl, hsame ▸ hc, hsame ▸ hcn, ?_⟩
    change (turns threadNum tasks.curThreadIndex a).toNat * (s.timerPeriod.toNat + 1) + s.left + 0 ≤
      (turns threadNum s.tasks.curThreadIndex a).toNat * (s.timerPeriod.toNat + 1) + s.left
    rw [hsame]
    omega

theorem waits_run {es : List TimerEvent} (hc : 0 ≤ s.tasks.curThreadIndex)
    (hcn : s.tasks.curThreadIndex < threadNum) (ha : 0 ≤ a) (han : a < threadNum)
    (hrun : Run (fun s e t => (s.exec e = some t ∧ s.tasks.Runnable a) ∧ ¬ t.tasks.curThreadIndex = a) s es t)
    (h : s.OnTime (es.length + n)) :
    t.timerPeriod = s.timerPeriod ∧ 0 ≤ t.tasks.curThreadIndex ∧
      t.tasks.curThreadIndex < threadNum ∧ t.waits a + es.countP TimerEvent.isTick ≤ s.waits a := by
  induction hrun generalizing n with
  | nil => exact ⟨rfl, hc, hcn, le_rfl⟩
  | @snoc es t e u hrun hstep ih =>
    obtain ⟨⟨hexec, hready⟩, hne⟩ := hstep
    have hlen : (es ++ [e]).length + n = es.length + (n + 1) := by simp; omega
    have htime : t.OnTime (n + 1) := OnTime.run (hrun.mono fun h => h.1.1) (hlen ▸ h)
    obtain ⟨hperiod, hlo, hhi, hwaits⟩ := ih (hlen ▸ h)
    obtain ⟨hperiod', hlo', hhi', hless⟩ := waits_step htime hlo hhi ha han hready hexec hne
    refine ⟨hperiod'.trans hperiod, hlo', hhi', ?_⟩
    rw [List.countP_append, List.countP_singleton]
    omega

/-- A thread that can run gets the processor after at most so many ticks, whatever the others do. -/
theorem runnable_gets_turn {es : List TimerEvent} (hc : 0 ≤ s.tasks.curThreadIndex)
    (hcn : s.tasks.curThreadIndex < threadNum) (ha : 0 ≤ a) (han : a < threadNum) (h : s.OnTime es.length)
    (hrun : Run (fun s e t => s.exec e = some t ∧ s.tasks.Runnable a) s es t)
    (hticks : threadNum * (s.timerPeriod.toNat + 1) + 90 ≤ es.countP TimerEvent.isTick) :
    ∃ before rest u, es = before ++ rest ∧ before ≠ [] ∧
      Run (fun s e t => s.exec e = some t ∧ s.tasks.Runnable a) s before u ∧ u.tasks.curThreadIndex = a := by
  rcases hrun.reaches (fun t => t.tasks.curThreadIndex = a) with hreach | hnone
  · exact hreach
  · have htime : t.OnTime 0 := OnTime.run (hrun.mono And.left) h
    obtain ⟨hperiod, -, -, hwaits⟩ := waits_run (n := 0) hc hcn ha han hnone h
    have hpos := turns_pos (n := threadNum) (c := t.tasks.curThreadIndex) (a := a) (by decide)
    have hle := turns_le (n := threadNum) (c := s.tasks.curThreadIndex) (a := a) (by decide)
    have hturn : 1 * (t.timerPeriod.toNat + 1) ≤
        (turns threadNum t.tasks.curThreadIndex a).toNat * (t.timerPeriod.toNat + 1) :=
      Nat.mul_le_mul_right _ (by omega)
    have hmost : (turns threadNum s.tasks.curThreadIndex a).toNat * (s.timerPeriod.toNat + 1) ≤
        threadNum * (s.timerPeriod.toNat + 1) :=
      Nat.mul_le_mul_right _ (by omega)
    have hleft := h.previous
    have hdue := htime.due
    rw [hperiod] at hturn
    simp only [waits, left, hperiod] at hwaits hdue
    omega

def twoTimers : TimerState := ⟨0, 0, 0, Tasks.twoThreads 3⟩

theorem runnable_gets_turn_two : ∃ before rest u, List.replicate 130 TimerEvent.tick = before ++ rest ∧
    before ≠ [] ∧ Run (fun s e t => s.exec e = some t ∧ s.tasks.Runnable 7) twoTimers before u ∧
      u.tasks.curThreadIndex = 7 := by
  have hexec : (execAll (fun (s : TimerState) e => if s.tasks.Runnable 7 then s.exec e else none) twoTimers
      (List.replicate 130 .tick)).isSome = true := by decide +kernel
  obtain ⟨t, ht⟩ := Option.isSome_iff_exists.mp hexec
  have hrun : Run (fun s e t => TimerState.exec s e = some t ∧ s.tasks.Runnable 7) twoTimers
      (List.replicate 130 .tick) t :=
    (execAll_run ht).mono (fun h => (Option.ite_none_right_eq_some.mp h).symm)
  exact runnable_gets_turn (by decide) (by decide) (by decide) (by decide)
    (.boot (by rw [List.length_replicate]; decide) _) hrun (by rw [List.countP_replicate]; decide)

end TimerState

end MinOS
