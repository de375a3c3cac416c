import MinOS.SemaphoreCount
import MinOS.SemaphoreQueues

namespace MinOS

open Library.Integers Library.Queues Library.Runs

def QueueOp.signals (sem : ℤ) : QueueOp → ℕ
  | .signal k => if k = sem then 1 else 0
  | _ => 0

namespace Kernel

def signalCaller (s : Kernel) (sem : ℤ) : QueueOp → List ℤ
  | .signal k => if k = sem then s.tasks.getCurThreadTid.toList else []
  | _ => []

/-- Who gets past a semaphore when a call returns `r`: the caller of a `wait` that succeeds and does
not leave it waiting, and those who have waited and do so no more. -/
def passing (s t : Kernel) (op : QueueOp) (r : ℤ) (blocked : ℤ → List ℤ) (sem : ℤ) : List ℤ :=
  (blocked sem ++ if r = 1 then s.waitCaller sem op else []).filter
    (fun tid => !decide (tid ∈ t.tasks.waiting))

end Kernel

structure Passing where
  watched : Watched
  passed : List ℤ
  signals : ℕ
  inside : List ℤ

inductive PassStep (sem : ℤ) : Passing → QueueOp → Passing → Prop
  | call {p : Passing} {op : QueueOp} {r : ℤ} {t : Kernel} : p.watched.kernel.Admits op →
      p.watched.kernel.call op = some (r, t) → PassStep sem p op
        ⟨⟨t, p.watched.kernel.watch t op p.watched.blocked⟩,
          p.passed ++ p.watched.kernel.passing t op r p.watched.blocked sem,
          p.signals + op.signals sem,
          p.inside.diff (p.watched.kernel.signalCaller sem op) ++
            p.watched.kernel.passing t op r p.watched.blocked sem⟩

def QueueOp.Orderly (sem : ℤ) (p : Passing) (op : QueueOp) : Prop :=
  op = .signal sem → ∃ tid, p.watched.kernel.tasks.getCurThreadTid = some tid ∧ tid ∈ p.inside

namespace Kernel

variable {s t : Kernel} {blocked : ℤ → List ℤ} {sem n r tid : ℤ} {op : QueueOp}

theorem Sound.counts (h : s.Sound blocked) (hu : s.Used sem) :
    s.Counts sem (s.semtable sem).semcount :=
  ⟨hu, (h.queues.entries sem hu).1, rfl⟩

theorem Sound.length_blocked (h : s.Sound blocked) (hu : s.Used sem) :
    ((blocked sem).length : ℤ) = max 0 (-(s.semtable sem).semcount) := by
  obtain ⟨hb, htids⟩ := h.queues.entries sem hu
  have hnum := hb.num_eq
  rw [← htids, QueueSem.tids, length_contents]
  omega

theorem Sound.wait_returns (h : s.Sound blocked) (hu : s.Used sem) (hfull : ¬ s.QueueFull sem)
    (hwait : s.wait sem = some (r, t)) : r = 1 := by
  obtain ⟨c, hcur⟩ := h.running
  rw [Kernel.wait, if_neg hu.1, if_neg (not_not.mpr hu.2)] at hwait
  simp only [setSemcount, semtable_setEntry_self, tasks_setEntry] at hwait
  split_ifs at hwait with hneg
  · obtain ⟨tid, htid, hblock⟩ := Option.bind_eq_some_iff.mp hwait
    obtain rfl : (s.tasks.thread c).tid = tid := by
      simpa [hcur.getCurThreadTid h.stocked.table] using htid
    have hroom : (s.semtable sem).semqueue.num < nsemQueue := by
      by_contra hge
      exact hfull ⟨hu, hneg, by omega⟩
    have hblocked := block_cases (s := s.setEntry sem { s.semtable sem with
      semcount := int32 ((s.semtable sem).semcount - 1) }) h.stocked.table hcur
        (by rw [semtable_setEntry_self]; exact hroom) hblock
    exact hblocked.1
  · exact (Prod.mk.inj (Option.some.inj hwait)).1.symm

theorem Sound.signal_returns (h : s.Sound blocked) (hu : s.Used sem)
    (hsignal : s.signal sem = some (r, t)) : r = 1 := by
  by_cases hneg : (s.semtable sem).semcount < 0
  · obtain ⟨i, xs, hi, -, hfirst⟩ := h.exists_head hu hneg
    obtain ⟨hb, htids⟩ := h.queues.entries sem hu
    obtain ⟨-, u, heq, -⟩ := signal_eq h.stocked.table hu hb hneg hi (htids.trans hfirst)
    rw [heq] at hsignal
    obtain ⟨v, -, hv⟩ := Option.map_eq_some_iff.mp hsignal
    exact (Prod.mk.inj hv).1.symm
  · rw [Kernel.signal, if_neg hu.1, if_neg (not_not.mpr hu.2), if_neg hneg] at hsignal
    exact (Prod.mk.inj (Option.some.inj hsignal)).1.symm

def Apart (sem : ℤ) (op : QueueOp) : Prop := op ≠ .wait sem ∧ op ≠ .signal sem

theorem Sound.call_other (h : s.Sound blocked) (hu : s.Used sem) (hop : Apart sem op)
    (hcall : s.call op = some (r, t)) :
    t.semtable sem = s.semtable sem ∧ s.waitCaller sem op = [] ∧ op.signals sem = 0 := by
  obtain ⟨hnw, hns⟩ := hop
  cases op with
  | createSem n =>
    obtain rfl : (s.createSem n).2 = t := congrArg Prod.snd (Option.some.inj hcall)
    exact ⟨createSem_other hu n, rfl, rfl⟩
  | wait k =>
    have hk : k ≠ sem := fun he => hnw (he ▸ rfl)
    exact ⟨wait_other hcall hk.symm, if_neg hk, rfl⟩
  | signal k =>
    have hk : k ≠ sem := fun he => hns (he ▸ rfl)
    exact ⟨signal_other hcall hk.symm, rfl, if_neg hk⟩
  | createThread func =>
    obtain ⟨c, hcur⟩ := h.running
    obtain ⟨_, u, hu', hcreated⟩ :=
      h.stocked.createThread (hcur.getCurThreadTid h.stocked.table) func
    have hcall' : s.createThread func = some (r, t) := hcall
    rw [hu', Option.some.injEq, Prod.mk.injEq] at hcall'
    rw [← hcall'.2]
    exact ⟨congrFun hcreated.semtable sem, rfl, rfl⟩
  | schedule =>
    obtain ⟨u, hu', hut⟩ := Option.map_eq_some_iff.mp hcall
    obtain ⟨-, rfl⟩ : 0 = r ∧ u = t := by simpa using hut
    obtain ⟨tasks, -, rfl⟩ := threadScheduler_cases hu'
    exact ⟨rfl, rfl, rfl⟩

theorem passing_length (s t : Kernel) (op : QueueOp) (blocked : ℤ → List ℤ) (sem : ℤ)
    (hr : r = 1 ∨ s.waitCaller sem op = []) :
    (s.passing t op r blocked sem).length + (s.watch t op blocked sem).length =
      (blocked sem).length + (s.waitCaller sem op).length := by
  have hcaller : (if r = 1 then s.waitCaller sem op else []) = s.waitCaller sem op := by
    rcases hr with rfl | hnil
    · rw [if_pos rfl]
    · rw [hnil, ite_self]
  have hsplit := List.length_eq_length_filter_add (l := blocked sem ++ s.waitCaller sem op)
    (fun tid => decide (tid ∈ t.tasks.waiting))
  rw [List.length_append] at hsplit
  rw [passing, hcaller, watch]
  omega

theorem Sound.call_passing (h : s.Sound blocked) (hu : s.Used sem) (hfits : s.Admits op)
    (hcall : s.call op = some (r, t)) : t.Used sem ∧
      ((s.passing t op r blocked sem).length : ℤ) + max (t.semtable sem).semcount 0 ≤
        max (s.semtable sem).semcount 0 + op.signals sem := by
  have hbefore := h.length_blocked hu
  have hsound := h.call hfits hcall
  by_cases hop : Apart sem op
  · obtain ⟨hsame, hcaller, hsignals⟩ := h.call_other hu hop hcall
    have hu' : t.Used sem := ⟨hu.1, by rw [hsame]; exact hu.2⟩
    have hafter := hsound.length_blocked hu'
    have hlen := passing_length (r := r) s t op blocked sem (.inr hcaller)
    rw [hcaller, List.length_nil] at hlen
    rw [hsame] at hafter ⊢
    exact ⟨hu', by omega⟩
  · have hcounts := h.counts hu
    obtain ⟨c, hcur⟩ := h.running
    have hopen : op = .wait sem ∨ op = .signal sem := by
      by_contra hno
      rw [not_or] at hno
      exact hop hno
    rcases hopen with rfl | rfl
    · obtain rfl := h.wait_returns hu hfits hcall
      obtain ⟨hu', -, hcount⟩ := wait_counts hcounts hcall
      have hafter := hsound.length_blocked hu'
      have hlen := passing_length (r := 1) s t (.wait sem) blocked sem (.inl rfl)
      have hcaller : (s.waitCaller sem (.wait sem)).length = 1 := by
        rw [waitCaller, if_pos rfl, hcur.getCurThreadTid h.stocked.table]
        rfl
      rw [hcount] at hafter ⊢
      exact ⟨hu', by omega⟩
    · obtain rfl := h.signal_returns hu hcall
      obtain ⟨hu', -, hcount⟩ := signal_counts hcounts hcall
      have hafter := hsound.length_blocked hu'
      have hlen := passing_length (r := 1) s t (.signal sem) blocked sem (.inl rfl)
      have hcaller : (s.waitCaller sem (.signal sem)).length = 0 := rfl
      have hsignals : QueueOp.signals sem (.signal sem) = 1 := if_pos rfl
      rw [hcount] at hafter ⊢
      refine ⟨hu', ?_⟩
      split_ifs at hafter ⊢ <;> omega

structure Admitted (n sem : ℤ) (p : Passing) : Prop where
  sound : p.watched.kernel.Sound p.watched.blocked
  used : p.watched.kernel.Used sem
  passed_le : (p.passed.length : ℤ) + max (p.watched.kernel.semtable sem).semcount 0 ≤ n + p.signals

theorem Admitted.step {p p' : Passing} (h : Admitted n sem p) (hstep : PassStep sem p op p') :
    Admitted n sem p' := by
  obtain ⟨hfits, hcall⟩ := hstep
  obtain ⟨hu, hle⟩ := h.sound.call_passing h.used hfits hcall
  have hold := h.passed_le
  constructor
  · exact h.sound.call hfits hcall
  · exact hu
  · rw [List.length_append]
    push_cast
    omega

theorem Admitted.create {k : Kernel} (h : s.Sound blocked) (h0 : 0 ≤ n) (hn : n < 2 ^ 31)
    (hcreate : s.createSem n = (sem, k)) (hsem : sem ≠ -1) :
    Admitted n sem ⟨⟨k, s.watch k (.createSem n) blocked⟩, [], 0, []⟩ := by
  obtain ⟨hu, -, hcount⟩ := createSem_counts hcreate hsem hn
  have hsound := h.createSem hn
  rw [hcreate] at hsound
  constructor
  · exact hsound
  · exact hu
  · dsimp only
    rw [hcount, List.length_nil]
    push_cast
    omega

theorem inside_length {p p' : Passing} (hstep : PassStep sem p op p') (horder : op.Orderly sem p)
    (h : p.inside.length + p.signals = p.passed.length) :
    p'.inside.length + p'.signals = p'.passed.length := by
  obtain ⟨-, -⟩ := hstep
  dsimp only
  rw [List.length_append, List.length_append]
  by_cases hop : op = .signal sem
  · obtain ⟨tid, htid, hmem⟩ := horder hop
    subst hop
    have hcaller : p.watched.kernel.signalCaller sem (.signal sem) = [tid] := by
      rw [signalCaller, if_pos rfl, htid]
      rfl
    have hsignals : QueueOp.signals sem (.signal sem) = 1 := if_pos rfl
    have hpos := List.length_pos_of_mem hmem
    rw [hcaller, List.diff_cons, List.diff_nil, List.length_erase_of_mem hmem, hsignals]
    omega
  · have hnone : p.watched.kernel.signalCaller sem op = [] ∧ op.signals sem = 0 := by
      cases op with
      | signal k =>
        have hk : k ≠ sem := fun he => hop (he ▸ rfl)
        exact ⟨if_neg hk, if_neg hk⟩
      | createSem _ | wait _ | createThread _ | schedule => exact ⟨rfl, rfl⟩
    rw [hnone.1, hnone.2, List.diff_nil]
    omega

theorem run_inside {p p' : Passing} {ops : List QueueOp}
    (h₀ : p.inside.length + p.signals = p.passed.length)
    (hrun : Run (fun p op p' => PassStep sem p op p' ∧ op.Orderly sem p) p ops p') :
    p'.inside.length + p'.signals = p'.passed.length :=
  hrun.invariant (I := fun p => p.inside.length + p.signals = p.passed.length) h₀
    (fun h hstep => inside_length hstep.1 hstep.2 h)

variable {m s₀ k : Kernel} {kheapStart : ℕ} {init : ThreadFunc} {ops₀ ops : List QueueOp}
  {w : Watched} {p : Passing}

/-- In every state reached since a semaphore was made with the count `n`, no more calls of `wait`
have got past it than `n` and the signals together; with `n = 1` and threads that signal only after
their wait, one thread at a time is past its wait. -/
theorem semaphore_admits (hal : kheapStart % blkSize = 0) (hbase : m.heap.base < kheapStart)
    (hboot : m.boot kheapStart init = some s₀) (hbefore : Run QueueStep ⟨s₀, fun _ => []⟩ ops₀ w)
    (h0 : 0 ≤ n) (hn : n < 2 ^ 31) (hcreate : w.kernel.createSem n = (sem, k)) (hsem : sem ≠ -1)
    (hrun : Run (PassStep sem)
      ⟨⟨k, w.kernel.watch k (.createSem n) w.blocked⟩, [], 0, []⟩ ops p) :
    (p.passed.length : ℤ) ≤ n + p.signals ∧
      (n = 1 → Run (fun p op p' => PassStep sem p op p' ∧ op.Orderly sem p)
        ⟨⟨k, w.kernel.watch k (.createSem n) w.blocked⟩, [], 0, []⟩ ops p → p.inside.length ≤ 1) := by
  obtain ⟨s, hs, hsound⟩ := boot_sound (m := m) hal hbase init
  obtain rfl := Option.some.inj (hs.symm.trans hboot)
  have hcreated := Admitted.create (run_sound hsound hbefore) h0 hn hcreate hsem
  have hadmitted := hrun.invariant hcreated Admitted.step
  have hle := hadmitted.passed_le
  constructor
  · omega
  · intro hone horder
    have hinside := run_inside rfl horder
    omega

theorem semaphore_admits_example : ∃ (s₀ k : Kernel) (w : Watched) (p : Passing),
    Run QueueStep ⟨s₀, fun _ => []⟩ [.createThread ⟨0, 0, 0⟩] w ∧ w.kernel.createSem 1 = (0, k) ∧
      Run (PassStep 0) ⟨⟨k, w.kernel.watch k (.createSem 1) w.blocked⟩, [], 0, []⟩
        [.wait 0, .schedule, .wait 0] p ∧
      (p.watched.kernel.semtable 0).semcount = -1 ∧ (p.passed.length : ℤ) ≤ 1 + p.signals ∧
      p.inside.length ≤ 1 := by
  have hvals : (zeroKernel.boot 0x400000 ⟨0, 0, 0⟩).bind (fun s => (s.createThread ⟨0, 0, 0⟩).bind
      (fun x => ((x.2.createSem 1).2.wait 0).bind (fun y => y.2.threadScheduler.bind (fun u =>
        (u.wait 0).map (fun z => [(x.2.createSem 1).1, ((x.2.createSem 1).2.semtable 0).semqueue.num,
          (u.semtable 0).semqueue.num, (z.2.semtable 0).semcount]))))) = some [0, 0, 0, -1] := by
    decide +kernel
  obtain ⟨s₀, hboot, hrest⟩ := Option.bind_eq_some_iff.mp hvals
  obtain ⟨⟨tid, s₁⟩, hcreate, hrest⟩ := Option.bind_eq_some_iff.mp hrest
  obtain ⟨⟨r, s₂⟩, hfirst, hrest⟩ := Option.bind_eq_some_iff.mp hrest
  obtain ⟨u, hnext, hrest⟩ := Option.bind_eq_some_iff.mp hrest
  obtain ⟨⟨r', z⟩, hsecond, hr⟩ := Option.map_eq_some_iff.mp hrest
  simp only [List.cons.injEq, and_true] at hr
  obtain ⟨hsid, hroom, hroom', hcount⟩ := hr
  have hnew : s₁.createSem 1 = (0, (s₁.createSem 1).2) := Prod.ext hsid rfl
  have hadmits : ∀ v : Kernel, (v.semtable 0).semqueue.num = 0 → v.Admits (.wait 0) := by
    rintro v hv ⟨-, -, hfull⟩
    rw [hv] at hfull
    exact absurd hfull (by decide)
  have hbefore : Run QueueStep ⟨s₀, fun _ => []⟩ [.createThread ⟨0, 0, 0⟩] _ :=
    .single (.call trivial hcreate)
  have hstep : ∀ (q : Passing) (op : QueueOp) (v : ℤ × Kernel), q.watched.kernel.Admits op →
      q.watched.kernel.call op = some v → op ≠ .signal 0 →
        ∃ q', PassStep 0 q op q' ∧ op.Orderly 0 q ∧ q'.watched.kernel = v.2 :=
    fun q op v hfits hcall hop => ⟨_, .call hfits hcall, fun h => absurd h hop, rfl⟩
  obtain ⟨p₁, hp₁, ho₁, hk₁⟩ := hstep ⟨⟨(s₁.createSem 1).2, _⟩, [], 0, []⟩ (.wait 0) _
    (hadmits _ hroom) hfirst (by simp)
  obtain ⟨p₂, hp₂, ho₂, hk₂⟩ := hstep p₁ .schedule (0, u) trivial
    (by rw [hk₁, call, hnext]; rfl) (by simp)
  obtain ⟨p₃, hp₃, ho₃, hk₃⟩ := hstep p₂ (.wait 0) _ (by rw [hk₂]; exact hadmits _ hroom')
    (by rw [hk₂]; exact hsecond) (by simp)
  have hrun := Run.cons hp₁ (.cons hp₂ (.single hp₃))
  have horder : Run (fun p op p' => PassStep 0 p op p' ∧ op.Orderly 0 p) _ _ p₃ :=
    .cons ⟨hp₁, ho₁⟩ (.cons ⟨hp₂, ho₂⟩ (.single ⟨hp₃, ho₃⟩))
  have hal : 0x400000 % blkSize = 0 := by decide
  have hbase : zeroKernel.heap.base < 0x400000 := by decide
  obtain ⟨hle, hinside⟩ :=
    semaphore_admits hal hbase hboot hbefore (by decide) (by decide) hnew (by decide) hrun
  exact ⟨s₀, _, _, p₃, hbefore, hnew, hrun, by rw [hk₃]; exact hcount, hle, hinside rfl horder⟩

end Kernel

end MinOS
