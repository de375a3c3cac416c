import MinOS.FailedCalls
import MinOS.Library.Interleavings
import MinOS.SemaphorePassing

namespace MinOS

open Library.Integers Library.Interleavings Library.Queues Library.Runs

def QueueOp.isSignal (sem : ℤ) : QueueOp → Bool
  | .signal k => decide (k = sem)
  | _ => false

theorem QueueOp.isSignal_iff {sem : ℤ} {op : QueueOp} : op.isSignal sem = true ↔ op = .signal sem := by
  cases op <;> simp [isSignal]

namespace Kernel

variable {s t : Kernel} {blocked : ℤ → List ℤ} {sem r tid : ℤ} {op : QueueOp}

theorem Sound.tids (h : s.Sound blocked) (hu : s.Used sem) : (s.semtable sem).semqueue.tids = blocked sem :=
  (h.queues.entries sem hu).2

theorem Sound.wait_blocked (h : s.Sound blocked) (hu : s.Used sem) (hfull : ¬ s.QueueFull sem)
    (hwait : s.wait sem = some (r, t)) : blocked sem <+: s.watch t (.wait sem) blocked sem := by
  have ht := h.wait hfull hwait
  obtain ⟨hb, htids⟩ := h.queues.entries sem hu
  have hqueue : t.Used sem ∧
      ∃ more, (t.semtable sem).semqueue.tids = (s.semtable sem).semqueue.tids ++ more := by
    have hsame : ∀ count, (s.setSemcount sem count).semtable sem = { s.semtable sem with semcount := count } :=
      fun count => semtable_setEntry_self ..
    rcases wait_cases hwait with ⟨-, rfl⟩ | ⟨-, -, -, rfl⟩ | ⟨-, -, tid, -, hblock⟩
    · exact ⟨hu, [], (List.append_nil _).symm⟩
    · rw [Used, hsame]
      exact ⟨hu, [], (List.append_nil _).symm⟩
    · rcases block_semtable hblock with ⟨-, hkept⟩ | ⟨-, hroom, hpushed⟩
      · rw [Used, hkept, hsame]
        exact ⟨hu, [], (List.append_nil _).symm⟩
      · have hnum : 0 ≤ (s.semtable sem).semqueue.num := by
          have := hb.num_eq
          omega
        rw [hsame] at hroom
        rw [Used, hpushed, setSemqueue, semtable_setEntry_self, hsame]
        exact ⟨hu, [tid], QueueSem.tids_push hb.head_nonneg hnum hroom tid⟩
  obtain ⟨hu', more, hmore⟩ := hqueue
  exact ⟨more, by rw [← ht.tids hu', hmore, htids]⟩

theorem Sound.signal_wakes {rest : List ℤ} (h : s.Sound blocked) (hfirst : blocked sem = tid :: rest)
    (hsignal : s.signal sem = some (r, t)) : s.watch t (.signal sem) blocked sem = rest ∧
      ∃ i, t.tasks.Live i ∧ (t.tasks.thread i).tid = tid ∧ (t.tasks.thread i).state = .runnable := by
  have hc := h.stocked.table
  have hu : s.Used sem := by
    by_contra hfree
    rw [h.queues.free sem hfree] at hfirst
    cases hfirst
  have hneg : (s.semtable sem).semcount < 0 := by
    have hlen := h.length_blocked hu
    rw [hfirst, List.length_cons] at hlen
    omega
  obtain ⟨i, xs, hi, -, hhead⟩ := h.exists_head hu hneg
  obtain ⟨rfl, rfl⟩ := List.cons.inj (hhead.symm.trans hfirst)
  obtain ⟨hb, htids⟩ := h.queues.entries sem hu
  obtain ⟨hpop, u, heq, -, -, htasks, hsem⟩ := signal_eq hc hu hb hneg hi (htids.trans hhead)
  have ht := h.signal hsignal
  rw [heq] at hsignal
  obtain ⟨v, hv, hvt⟩ := Option.map_eq_some_iff.mp hsignal
  obtain ⟨-, rfl⟩ : 1 = r ∧ v = t := by simpa using hvt
  obtain ⟨tasks, hcall, rfl⟩ := threadScheduler_cases hv
  obtain ⟨c, hcur⟩ := h.running
  obtain ⟨j, rfl, -⟩ := Tasks.threadScheduler_running (by rw [htasks]; exact hcur.1) hcall
  have hsame : (u.setTasks { u.tasks with curThreadIndex := j }).semtable sem =
      ⟨(s.semtable sem).semstate, (s.semtable sem).semcount + 1, (s.semtable sem).semqueue.pop⟩ := by
    rw [semtable_setTasks, hsem, semtable_setEntry_self]
  constructor
  · rw [← ht.tids (by rw [Used, hsame]; exact hu), hsame]
    exact hpop
  · have htid : (u.tasks.thread i).tid = (s.tasks.thread i).tid := by
      rw [htasks, Tasks.thread_setState_self]
    have hstate : (u.tasks.thread i).state = .runnable := by
      rw [htasks, Tasks.thread_setState_self]
    exact ⟨i, ⟨hi.1, fun hdead => absurd (hstate.symm.trans hdead) (by decide)⟩, htid, hstate⟩

theorem Sound.signal_blocked (h : s.Sound blocked) (hsignal : s.signal sem = some (r, t)) :
    s.watch t (.signal sem) blocked sem = (blocked sem).tail := by
  have ht := h.signal hsignal
  cases hfirst : blocked sem with
  | cons tid rest => exact (h.signal_wakes hfirst hsignal).1
  | nil =>
    rcases signal_cases hsignal with ⟨rfl, -⟩ | ⟨hu, hneg, -⟩
    · by_cases hu : t.Used sem
      · rw [← ht.tids hu, h.tids hu, hfirst]
        rfl
      · exact ht.queues.free sem hu
    · have hlen := h.length_blocked hu
      rw [hfirst, List.length_nil] at hlen
      omega

theorem inOrder_blocked (sem : ℤ) : InOrder QueueStep (fun w => w.kernel.Sound w.blocked)
    (fun w => w.blocked sem) (QueueOp.isSignal sem) := by
  rintro ⟨s, blocked⟩ op _ h ⟨hfits, hcall⟩
  have ht := h.call hfits hcall
  refine ⟨ht, ?_⟩
  split
  · rename_i hsignal
    obtain rfl := QueueOp.isSignal_iff.mp hsignal
    exact h.signal_blocked hcall
  · rename_i hsignal
    rw [QueueOp.isSignal_iff] at hsignal
    dsimp only
    by_cases hu : s.Used sem
    · by_cases hwait : op = .wait sem
      · subst hwait
        exact h.wait_blocked hu hfits hcall
      · obtain ⟨hsame, -, -⟩ := h.call_other hu ⟨hwait, hsignal⟩ hcall
        rw [← ht.tids (by rw [Used, hsame]; exact hu), hsame, h.tids hu]
    · have hempty : blocked sem = [] := h.queues.free sem hu
      rw [hempty]
      exact List.nil_prefix

variable {m s₀ : Kernel} {kheapStart : ℕ} {init : ThreadFunc} {w w' : Watched} {ops ops' : List QueueOp}
  {before after : List ℤ}

/-- A thread that waits on a semaphore is woken by the signal whose number is its place in the queue, and
by no other call. -/
theorem woken_in_turn (hal : kheapStart % blkSize = 0) (hbase : m.heap.base < kheapStart)
    (hboot : m.boot kheapStart init = some s₀) (hrun : Run QueueStep ⟨s₀, fun _ => []⟩ ops w)
    (hblocked : w.blocked sem = before ++ tid :: after) (hrun' : Run QueueStep w ops' w') :
    (ops'.countP (QueueOp.isSignal sem) ≤ before.length →
      ∃ more, w'.blocked sem =
        before.drop (ops'.countP (QueueOp.isSignal sem)) ++ tid :: (after ++ more)) ∧
      (before.length < ops'.countP (QueueOp.isSignal sem) → ∃ ops₁ ops₂ v i,
        ops' = ops₁ ++ .signal sem :: ops₂ ∧ ops₁.countP (QueueOp.isSignal sem) = before.length ∧
          Run QueueStep w (ops₁ ++ [.signal sem]) v ∧ v.kernel.tasks.Live i ∧
            (v.kernel.tasks.thread i).tid = tid ∧ (v.kernel.tasks.thread i).state = .runnable) := by
  obtain ⟨s, hs, hsound⟩ := boot_sound (m := m) hal hbase init
  obtain rfl := Option.some.inj (hs.symm.trans hboot)
  have h := run_sound hsound hrun
  refine ⟨fun hle => ((inOrder_blocked sem).moves_up hrun' h hblocked hle).2, fun hlt => ?_⟩
  obtain ⟨ops₁, op, ops₂, u, v, rest, hsplit, hbefore, hstep, hsignal, hcount, hu, hfirst⟩ :=
    (inOrder_blocked sem).taken hrun' h hblocked hlt
  obtain rfl := QueueOp.isSignal_iff.mp hsignal
  obtain ⟨hfits, hcall⟩ := id hstep
  obtain ⟨-, i, hi, htid, hstate⟩ := hu.signal_wakes hfirst hcall
  exact ⟨ops₁, ops₂, _, i, hsplit, hcount, hbefore.snoc hstep, hi, htid, hstate⟩

def watchCall (w : Watched) (op : QueueOp) : Option Watched :=
  if w.kernel.Admits op then
    (w.kernel.call op).map (fun x => ⟨x.2, w.kernel.watch x.2 op w.blocked⟩)
  else none

theorem watchCall_step (h : watchCall w op = some w') : QueueStep w op w' := by
  rw [watchCall, Option.ite_none_right_eq_some] at h
  obtain ⟨hfits, h⟩ := h
  obtain ⟨⟨r, t⟩, hcall, rfl⟩ := Option.map_eq_some_iff.mp h
  exact .call hfits hcall

def waitingOps : List QueueOp :=
  [.createThread ⟨0, 0, 0⟩, .createThread ⟨0, 0, 0⟩, .createSem 0, .wait 0, .wait 0]

theorem woken_in_turn_second : ∃ s₀ w ops v i, Run QueueStep ⟨s₀, fun _ => []⟩ waitingOps w ∧
    w.blocked 0 = [0, 1] ∧ ops.countP (QueueOp.isSignal 0) = 1 ∧ Run QueueStep w (ops ++ [.signal 0]) v ∧
      v.kernel.tasks.Live i ∧ (v.kernel.tasks.thread i).tid = 1 ∧
        (v.kernel.tasks.thread i).state = .runnable := by
  have hvals : (zeroKernel.boot 0x400000 ⟨0, 0, 0⟩).bind (fun s =>
      (execAll watchCall ⟨s, fun _ => []⟩ waitingOps).bind (fun w =>
        (execAll watchCall w [.signal 0, .signal 0]).map (fun _ => w.blocked 0))) =
      some [0, 1] := by decide +kernel
  obtain ⟨s₀, hboot, hvals⟩ := Option.bind_eq_some_iff.mp hvals
  obtain ⟨w, hw, hvals⟩ := Option.bind_eq_some_iff.mp hvals
  obtain ⟨w', hw', hblocked⟩ := Option.map_eq_some_iff.mp hvals
  have hrun : Run QueueStep ⟨s₀, fun _ => []⟩ waitingOps w := (execAll_run hw).mono watchCall_step
  have hrun' : Run QueueStep w [.signal 0, .signal 0] w' := (execAll_run hw').mono watchCall_step
  have hsplit : w.blocked 0 = [0] ++ 1 :: [] := hblocked
  obtain ⟨ops, _, v, i, -, hcount, hv, hi, htid, hstate⟩ :=
    (woken_in_turn (by decide) (by decide) hboot hrun hsplit hrun').2 (by decide)
  exact ⟨s₀, w, ops, v, i, hrun, hblocked, hcount, hv, hi, htid, hstate⟩

end Kernel

end MinOS
