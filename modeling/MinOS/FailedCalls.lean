import MinOS.SemaphoreQueues

namespace MinOS

open Library.Integers Library.Runs

namespace Kernel

def FailsCleanly (s : Kernel) (sem : ℤ) : Prop :=
  ∀ t, s.wait sem = some (0, t) ∨ s.signal sem = some (0, t) →
    t.semtable = s.semtable ∧ ∀ i, (t.tasks.thread i).state = (s.tasks.thread i).state

def WaitStuck (s : Kernel) (sem : ℤ) : Prop :=
  s.Used sem ∧ int32 ((s.semtable sem).semcount - 1) < 0 ∧ ∃ tid, s.tasks.getCurThreadTid = some tid ∧
    (s.tasks.getThreadPtr tid = .at 0 ∨ nsemQueue ≤ (s.semtable sem).semqueue.num)

def SignalStuck (s : Kernel) (sem : ℤ) : Prop :=
  s.Used sem ∧ (s.semtable sem).semcount < 0 ∧ ((s.semtable sem).semqueue.num ≤ 0 ∨
    s.tasks.getThreadPtr ((s.semtable sem).semqueue.que (s.semtable sem).semqueue.head) = .at 0)

instance (s : Kernel) (sem : ℤ) : Decidable (s.QueueFull sem) :=
  inferInstanceAs (Decidable (_ ∧ _ ∧ _))

instance (s : Kernel) : (op : QueueOp) → Decidable (s.Admits op)
  | .createSem initCount => inferInstanceAs (Decidable (initCount < 2 ^ 31))
  | .wait sem => inferInstanceAs (Decidable (¬ s.QueueFull sem))
  | .signal _ | .createThread _ | .schedule => inferInstanceAs (Decidable True)

def follow : List QueueOp → Kernel → Option Kernel
  | [], s => some s
  | op :: ops, s => if s.Admits op then (s.call op).bind (fun x => follow ops x.2) else none

variable {s t : Kernel} {blocked : ℤ → List ℤ} {sem r tid : ℤ} {ops : List QueueOp}

theorem int32_sub_one_ne (x : ℤ) : int32 (x - 1) ≠ x := by
  intro h
  have hmod := int32_emod (x - 1)
  rw [h] at hmod
  omega

theorem int32_add_one_ne (x : ℤ) : int32 (x + 1) ≠ x := by
  intro h
  have hmod := int32_emod (x + 1)
  rw [h] at hmod
  omega

theorem WaitStuck.changes (h : s.WaitStuck sem) : ∃ t, s.wait sem = some (0, t) ∧
    (t.semtable sem).semcount = int32 ((s.semtable sem).semcount - 1) := by
  obtain ⟨hu, hneg, tid, htid, hstuck⟩ := h
  rw [wait_of_neg hu hneg, htid, Option.bind_some, block_eq]
  split_ifs with hnull hroom
  · exact ⟨_, rfl, by rw [setSemcount, semtable_setEntry_self]⟩
  · rw [setSemcount, semtable_setEntry_self] at hroom
    rcases hstuck with h0 | hfull
    · exact absurd h0 hnull
    · dsimp only at hroom
      omega
  · exact ⟨_, rfl, by rw [semtable_blocking, setSemcount, semtable_setEntry_self]⟩

theorem SignalStuck.changes (h : s.SignalStuck sem) : ∃ t, s.signal sem = some (0, t) ∧
    (t.semtable sem).semcount = int32 ((s.semtable sem).semcount + 1) := by
  obtain ⟨hu, hneg, hstuck⟩ := h
  rw [signal_of_neg hu hneg]
  split_ifs with hempty hnull
  · exact ⟨_, rfl, by rw [setSemcount, semtable_setEntry_self]⟩
  · exact ⟨_, rfl, by rw [popped, semtable_setEntry_self]⟩
  · rcases hstuck with h0 | h0
    · exact absurd h0 hempty
    · exact absurd h0 hnull

theorem wait_failed (h : s.wait sem = some (0, t)) (hfree : ¬ s.WaitStuck sem) : t = s := by
  rcases wait_cases h with ⟨-, rfl⟩ | ⟨-, -, h1, -⟩ | ⟨hu, hneg, tid, htid, hblock⟩
  · rfl
  · cases h1
  · rw [block_eq] at hblock
    split_ifs at hblock with hnull hroom
    · exact absurd ⟨hu, hneg, tid, htid, .inl hnull⟩ hfree
    · obtain ⟨u, -, hut⟩ := Option.map_eq_some_iff.mp hblock
      cases hut
    · rw [setSemcount, semtable_setEntry_self] at hroom
      exact absurd ⟨hu, hneg, tid, htid, .inr (not_lt.mp hroom)⟩ hfree

theorem signal_failed (h : s.signal sem = some (0, t)) (hfree : ¬ s.SignalStuck sem) : t = s := by
  rcases signal_cases h with ⟨rfl, -⟩ | ⟨hu, hneg, -⟩
  · rfl
  · rw [signal_of_neg hu hneg] at h
    split_ifs at h with hempty hnull
    · exact absurd ⟨hu, hneg, .inl hempty⟩ hfree
    · exact absurd ⟨hu, hneg, .inr hnull⟩ hfree
    · obtain ⟨u, -, hut⟩ := Option.map_eq_some_iff.mp h
      cases hut

theorem failsCleanly_iff : s.FailsCleanly sem ↔ ¬ s.WaitStuck sem ∧ ¬ s.SignalStuck sem := by
  constructor
  · intro h
    constructor
    · intro hstuck
      obtain ⟨t, ht, hcount⟩ := hstuck.changes
      rw [(h t (.inl ht)).1] at hcount
      exact int32_sub_one_ne _ hcount.symm
    · intro hstuck
      obtain ⟨t, ht, hcount⟩ := hstuck.changes
      rw [(h t (.inr ht)).1] at hcount
      exact int32_add_one_ne _ hcount.symm
  · rintro ⟨hwait, hsignal⟩ t (h | h)
    · obtain rfl := wait_failed h hwait
      exact ⟨rfl, fun _ => rfl⟩
    · obtain rfl := signal_failed h hsignal
      exact ⟨rfl, fun _ => rfl⟩

theorem Sound.failsCleanly_iff (h : s.Sound blocked) : s.FailsCleanly sem ↔ ¬ s.QueueFull sem := by
  obtain ⟨c, hcur⟩ := h.running
  have hc := h.stocked.table
  have htid := hcur.getCurThreadTid hc
  have hsignal : ¬ s.SignalStuck sem := by
    rintro ⟨hu, hneg, hstuck⟩
    obtain ⟨hb, htids⟩ := h.queues.entries sem hu
    obtain ⟨i, xs, hi, -, hfirst⟩ := h.exists_head hu hneg
    have hpos : 0 < (s.semtable sem).semqueue.num := by
      have := hb.num_eq
      omega
    rcases hstuck with hempty | hnull
    · omega
    · have hpop := QueueSem.tids_pop hb.head_nonneg hb.head_lt hpos
      rw [htids, hfirst, List.cons.injEq] at hpop
      rw [← hpop.1] at hnull
      exact hc.getThreadPtr_ne_null hi hnull
  rw [Kernel.failsCleanly_iff, and_iff_left hsignal, not_iff_not]
  constructor
  · rintro ⟨hu, hneg, tid, htid', hnull | hfull⟩
    · obtain rfl := Option.some.inj (htid.symm.trans htid')
      exact absurd hnull (hc.getThreadPtr_ne_null hcur.live)
    · exact ⟨hu, hneg, hfull⟩
  · rintro ⟨hu, hneg, hfull⟩
    exact ⟨hu, hneg, _, htid, .inr hfull⟩

theorem follow_run (blocked : ℤ → List ℤ) (h : follow ops s = some t) :
    ∃ blocked', Run QueueStep ⟨s, blocked⟩ ops ⟨t, blocked'⟩ := by
  induction ops generalizing s blocked with
  | nil =>
    obtain rfl : s = t := Option.some.inj h
    exact ⟨blocked, .nil⟩
  | cons op ops ih =>
    rw [follow] at h
    split_ifs at h with hfits
    obtain ⟨⟨r, u⟩, hcall, hrest⟩ := Option.bind_eq_some_iff.mp h
    obtain ⟨blocked', hrun⟩ := ih (s.watch u op blocked) hrest
    exact ⟨blocked', .cons (.call hfits hcall) hrun⟩

/-- A failing call leaves the semaphores and the threads as they were exactly when it does not get
stuck after the change of the counter; as long as no `wait` meets a full queue, that is exactly when
the queue is not full. -/
theorem failed_calls_clean_iff {m s₀ : Kernel} {kheapStart : ℕ} {init : ThreadFunc}
    (hal : kheapStart % blkSize = 0) (hbase : m.heap.base < kheapStart)
    (hboot : m.boot kheapStart init = some s₀) :
    (∀ (s : Kernel) (sem : ℤ), s.FailsCleanly sem ↔ ¬ s.WaitStuck sem ∧ ¬ s.SignalStuck sem) ∧
      ∀ (ops : List QueueOp) (w : Watched), Run QueueStep ⟨s₀, fun _ => []⟩ ops w →
        ∀ sem, w.kernel.FailsCleanly sem ↔ ¬ w.kernel.QueueFull sem := by
  constructor
  · exact fun s sem => Kernel.failsCleanly_iff
  · intro ops w hrun sem
    obtain ⟨s, hs, hsound⟩ := boot_sound (m := m) hal hbase init
    obtain rfl := Option.some.inj (hs.symm.trans hboot)
    exact (run_sound hsound hrun).failsCleanly_iff

theorem failed_calls_clean_iff_example : ∃ s₀ s₁ : Kernel,
    zeroKernel.boot 0x400000 ⟨0, 0, 0⟩ = some s₀ ∧ follow [.createSem 1, .wait 0] s₀ = some s₁ ∧
      (s₁.semtable 0).semcount = 0 ∧ s₁.FailsCleanly 0 := by
  have hvals : (zeroKernel.boot 0x400000 ⟨0, 0, 0⟩).bind (fun s =>
      (follow [.createSem 1, .wait 0] s).map
        (fun t => ((t.semtable 0).semcount, decide (t.QueueFull 0)))) = some (0, false) := by
    decide +kernel
  obtain ⟨s₀, hboot, hrest⟩ := Option.bind_eq_some_iff.mp hvals
  obtain ⟨s₁, hfollow, hfacts⟩ := Option.map_eq_some_iff.mp hrest
  simp only [Prod.mk.injEq, decide_eq_false_iff_not] at hfacts
  obtain ⟨blocked, hrun⟩ := follow_run (fun _ => []) hfollow
  have hal : 0x400000 % blkSize = 0 := by decide
  have hbase : zeroKernel.heap.base < 0x400000 := by decide
  exact ⟨s₀, s₁, hboot, hfollow, hfacts.1,
    ((failed_calls_clean_iff hal hbase hboot).2 _ _ hrun 0).mpr hfacts.2⟩

def crowd : List QueueOp :=
  List.replicate 31 (.createThread ⟨0, 0, 0⟩) ++ .createSem 0 :: List.replicate 30 (.wait 0)

/-- The thirty-first call of `wait` returns 0, but the count has gone down and the caller is in the
state `WAIT` without being in the queue. -/
theorem crowded_wait : ∃ (s₀ : Kernel) (w : Watched) (t : Kernel) (c : ℕ),
    zeroKernel.boot 0x400000 ⟨0, 0, 0⟩ = some s₀ ∧ Run QueueStep ⟨s₀, fun _ => []⟩ crowd w ∧
      w.kernel.wait 0 = some (0, t) ∧
      (w.kernel.semtable 0).semcount = -30 ∧ (t.semtable 0).semcount = -31 ∧
      (w.kernel.tasks.thread c).state = .runnable ∧ (t.tasks.thread c).state = .wait := by
  have hvals : (zeroKernel.boot 0x400000 ⟨0, 0, 0⟩).bind (fun s =>
      (follow crowd s).bind (fun t => (t.wait 0).map (fun x =>
        ([x.1, (t.semtable 0).semcount, (x.2.semtable 0).semcount],
          (t.tasks.thread 30).state, (x.2.tasks.thread 30).state)))) =
        some ([0, -30, -31], .runnable, .wait) := by
    decide +kernel
  obtain ⟨s₀, hboot, hrest⟩ := Option.bind_eq_some_iff.mp hvals
  obtain ⟨s, hfollow, hrest⟩ := Option.bind_eq_some_iff.mp hrest
  obtain ⟨⟨r, t⟩, hwait, hfacts⟩ := Option.map_eq_some_iff.mp hrest
  simp only [Prod.mk.injEq, List.cons.injEq, and_true] at hfacts
  obtain ⟨⟨rfl, hbefore, hafter⟩, hruns, hwaits⟩ := hfacts
  obtain ⟨blocked, hrun⟩ := follow_run (fun _ => []) hfollow
  exact ⟨s₀, _, t, 30, hboot, hrun, hwait, hbefore, hafter, hruns, hwaits⟩

end Kernel

end MinOS
