import MinOS.Boot
import MinOS.SemaphoreCalls

namespace MinOS

open Library.Integers Library.Queues Library.Runs

namespace QueueSem

variable {que : QueueSem}

theorem tids_push (hhead : 0 ≤ que.head) (h0 : 0 ≤ que.num) (hnum : que.num < nsemQueue) (tid : ℤ) :
    (que.push tid).tids = que.tids ++ [tid] := by
  have hpush := contents_push que.que hhead (show (que.num.toNat : ℤ) < nsemQueue by omega) tid
  have hcount : (que.push tid).num.toNat = que.num.toNat + 1 := by
    simp only [push]
    omega
  rw [tids, hcount]
  simpa [push, tids, Int.toNat_of_nonneg h0] using hpush

theorem tids_pop (hhead : 0 ≤ que.head) (hlt : que.head < nsemQueue) (hpos : 0 < que.num) :
    que.tids = que.que que.head :: que.pop.tids := by
  have hcount : que.num.toNat = que.pop.num.toNat + 1 := by
    simp only [pop]
    omega
  rw [tids, hcount, contents_pop hhead hlt]
  rfl

end QueueSem

inductive QueueOp where
  | createSem (initCount : ℤ)
  | wait (sem : ℤ)
  | signal (sem : ℤ)
  | createThread (func : ThreadFunc)
  | schedule

structure Watched where
  kernel : Kernel
  blocked : ℤ → List ℤ

namespace Kernel

def call (s : Kernel) : QueueOp → Option (ℤ × Kernel)
  | .createSem initCount => some (s.createSem initCount)
  | .wait sem => s.wait sem
  | .signal sem => s.signal sem
  | .createThread func => s.createThread func
  | .schedule => s.threadScheduler.map (fun t => (0, t))

def QueueFull (s : Kernel) (sem : ℤ) : Prop :=
  s.Used sem ∧ int32 ((s.semtable sem).semcount - 1) < 0 ∧ nsemQueue ≤ (s.semtable sem).semqueue.num

/-- The arguments are of type `int`, and no `wait` meets a full queue. -/
def Admits (s : Kernel) : QueueOp → Prop
  | .createSem initCount => initCount < 2 ^ 31
  | .wait sem => ¬ s.QueueFull sem
  | _ => True

def waitCaller (s : Kernel) (sem : ℤ) : QueueOp → List ℤ
  | .wait k => if k = sem then s.tasks.getCurThreadTid.toList else []
  | _ => []

/-- Who waits on a semaphore: in the order of their calls, those that have called `wait` on it and
that no call has made runnable since. -/
def watch (s t : Kernel) (op : QueueOp) (blocked : ℤ → List ℤ) (sem : ℤ) : List ℤ :=
  (blocked sem ++ s.waitCaller sem op).filter (fun tid => decide (tid ∈ t.tasks.waiting))

end Kernel

inductive QueueStep : Watched → QueueOp → Watched → Prop
  | call {w : Watched} {op : QueueOp} {r : ℤ} {t : Kernel} : w.kernel.Admits op →
      w.kernel.call op = some (r, t) → QueueStep w op ⟨t, w.kernel.watch t op w.blocked⟩

namespace Kernel

structure Queues (s : Kernel) (blocked : ℤ → List ℤ) : Prop where
  entries : ∀ sem, s.Used sem →
    (s.semtable sem).Balanced ∧ (s.semtable sem).semqueue.tids = blocked sem
  free : ∀ sem, ¬ s.Used sem → blocked sem = []
  queued : Queued blocked {tid | tid ∈ s.tasks.waiting}

structure Sound (s : Kernel) (blocked : ℤ → List ℤ) : Prop where
  stocked : s.Stocked
  queues : s.Queues blocked
  running : ∃ c, s.tasks.Running c

variable {s t : Kernel} {blocked : ℤ → List ℤ} {sem tid : ℤ} {c i : ℕ} {op : QueueOp}

theorem mem_waitCaller (h : tid ∈ s.waitCaller sem op) : s.tasks.getCurThreadTid = some tid := by
  cases op with
  | wait k =>
    rw [waitCaller] at h
    split_ifs at h
    · simpa using h
    · cases h
  | createSem _ | signal _ | createThread _ | schedule => cases h

theorem watch_same (hq : s.Queues blocked)
    (hwaiting : ∀ x, x ∈ t.tasks.waiting ↔ x ∈ s.tasks.waiting)
    (hcaller : ∀ tid, s.tasks.getCurThreadTid = some tid → tid ∉ s.tasks.waiting) :
    s.watch t op blocked = blocked := by
  funext sem
  have hold : (blocked sem).filter (fun tid => decide (tid ∈ t.tasks.waiting)) = blocked sem := by
    rw [List.filter_eq_self]
    intro tid htid
    have hmem : tid ∈ s.tasks.waiting := (hq.queued.mem_iff tid).mpr ⟨sem, htid⟩
    simpa [hwaiting] using hmem
  have hnew : (s.waitCaller sem op).filter (fun tid => decide (tid ∈ t.tasks.waiting)) = [] := by
    rw [List.filter_eq_nil_iff]
    intro tid htid
    simpa [hwaiting] using hcaller tid (mem_waitCaller htid)
  rw [watch, List.filter_append, hold, hnew, List.append_nil]

theorem watch_block (hq : s.Queues blocked) (hcur : s.tasks.getCurThreadTid = some tid)
    (hwaiting : ∀ x, x ∈ t.tasks.waiting ↔ x = tid ∨ x ∈ s.tasks.waiting) :
    s.watch t (.wait sem) blocked = Function.update blocked sem (blocked sem ++ [tid]) := by
  funext k
  have hold : (blocked k).filter (fun x => decide (x ∈ t.tasks.waiting)) = blocked k := by
    rw [List.filter_eq_self]
    intro x hx
    have hmem : x ∈ s.tasks.waiting := (hq.queued.mem_iff x).mpr ⟨k, hx⟩
    simp [hwaiting, hmem]
  rw [watch, List.filter_append, hold]
  by_cases hk : sem = k
  · subst hk
    simp [waitCaller, hcur, hwaiting]
  · simp [waitCaller, hk, Ne.symm hk]

theorem watch_wake {xs : List ℤ} (hq : s.Queues blocked) (hsem : blocked sem = tid :: xs)
    (hwaiting : ∀ x, x ∈ t.tasks.waiting ↔ x ∈ s.tasks.waiting ∧ x ≠ tid) :
    s.watch t (.signal sem) blocked = Function.update blocked sem xs := by
  funext k
  have hmem : ∀ x ∈ blocked k, x ∈ s.tasks.waiting := fun x hx => (hq.queued.mem_iff x).mpr ⟨k, hx⟩
  have hcaller : s.waitCaller k (.signal sem) = [] := rfl
  rw [watch, hcaller, List.append_nil]
  by_cases hk : k = sem
  · subst hk
    have hnot : tid ∉ xs := (List.nodup_cons.mp (hsem ▸ hq.queued.nodup k)).1
    rw [Function.update_self, hsem, List.filter_cons_of_neg (by simp [hwaiting]), List.filter_eq_self]
    intro x hx
    have hxk : x ∈ s.tasks.waiting := hmem x (by simp [hsem, hx])
    have hne : x ≠ tid := by
      rintro rfl
      exact hnot hx
    simp [hwaiting, hxk, hne]
  · rw [Function.update_of_ne hk, List.filter_eq_self]
    intro x hx
    have hne : x ≠ tid := by
      rintro rfl
      exact hk (hq.queued.disjoint k sem x hx (by simp [hsem]))
    simp [hwaiting, hmem x hx, hne]

theorem Queues.of_same (hq : s.Queues blocked) (hsem : t.semtable = s.semtable)
    (hwaiting : ∀ x, x ∈ t.tasks.waiting ↔ x ∈ s.tasks.waiting) : t.Queues blocked := by
  constructor
  · simp only [Used, hsem]
    exact hq.entries
  · simp only [Used, hsem]
    exact hq.free
  · simp only [hwaiting]
    exact hq.queued

theorem Queues.update {tids : List ℤ} (hq : s.Queues blocked) (e : SemtableEntry)
    (hgood : ¬ isbadsem sem) (hstate : e.semstate = sUsed) (hentry : t.semtable sem = e)
    (hother : ∀ k, k ≠ sem → t.semtable k = s.semtable k) (hb : e.Balanced)
    (htids : e.semqueue.tids = tids)
    (hqueued : Queued (Function.update blocked sem tids) {tid | tid ∈ t.tasks.waiting}) :
    t.Queues (Function.update blocked sem tids) := by
  constructor
  · intro k hk
    by_cases hks : k = sem
    · subst hks
      rw [hentry, Function.update_self]
      exact ⟨hb, htids⟩
    · rw [Used, hother k hks] at hk
      rw [hother k hks, Function.update_of_ne hks]
      exact hq.entries k hk
  · intro k hk
    have hks : k ≠ sem := by
      rintro rfl
      exact hk ⟨hgood, by rw [hentry]; exact hstate⟩
    rw [Used, hother k hks] at hk
    rw [Function.update_of_ne hks]
    exact hq.free k hk
  · exact hqueued

theorem Sound.caller (h : s.Sound blocked) (tid : ℤ) (hcur : s.tasks.getCurThreadTid = some tid) :
    tid ∉ s.tasks.waiting := by
  obtain ⟨c, hc⟩ := h.running
  obtain rfl : (s.tasks.thread c).tid = tid := by
    simpa [hc.getCurThreadTid h.stocked.table] using hcur
  exact hc.not_waiting h.stocked.table

theorem Stocked.setState (hs : s.Stocked) (hi : s.tasks.Live i) {state : ThreadState}
    (hstate : state ≠ .dead) (hheap : t.heap = s.heap) (ht : t.tasks = s.tasks.setState i state) :
    t.Stocked := by
  apply hs.of_tasks hheap
  · rw [ht]
    exact hs.table.setObj_state hi state
  · rw [ht]
    rfl
  · rw [ht]
    rfl
  · intro k
    rw [ht]
    exact hs.table.live_setState hi hstate

theorem Queues.schedule (hq : s.Queues blocked) (hs : s.Stocked) (hcur : s.tasks.curThreadIndex = c)
    (h : s.threadScheduler = some t) : t.Sound blocked ∧ t.tasks.waiting = s.tasks.waiting := by
  obtain ⟨tasks, htasks, rfl⟩ := threadScheduler_cases h
  obtain ⟨i, rfl, hi⟩ := Tasks.threadScheduler_running hcur htasks
  refine ⟨⟨?_, hq.of_same rfl (fun _ => Iff.rfl), i, hi⟩, rfl⟩
  exact hs.of_tasks rfl (hs.table.schedule i) rfl rfl (fun _ => Iff.rfl)

theorem Sound.createSem {n : ℤ} (h : s.Sound blocked) (hn : n < 2 ^ 31) :
    (s.createSem n).2.Sound (s.watch (s.createSem n).2 (.createSem n) blocked) := by
  rcases s.createSem_cases n with hsem | ⟨h0, i, hi, hfree, que, hsem⟩
  · rw [hsem, watch_same h.queues (fun _ => Iff.rfl) h.caller]
    exact h
  · rw [hsem]
    dsimp only
    rw [watch_same (t := s.setEntry i _) h.queues (fun _ => Iff.rfl) h.caller]
    have hempty : blocked i = [] := by
      apply h.queues.free
      rintro ⟨-, hused⟩
      rw [hfree] at hused
      cases hused
    have hsame : Function.update blocked i [] = blocked := by
      rw [← hempty]
      exact Function.update_eq_self ..
    refine ⟨h.stocked.of_tasks rfl h.stocked.table rfl rfl (fun _ => Iff.rfl), ?_, h.running⟩
    rw [← hsame]
    refine h.queues.update ⟨sUsed, n, ⟨0, 0, que⟩⟩ (not_isbadsem hi) rfl (semtable_setEntry_self ..)
      (fun k hk => semtable_setEntry_of_ne _ hk) (.init h0 hn que) rfl ?_
    rw [hsame]
    exact h.queues.queued

theorem block_cases {r : ℤ} (hc : s.tasks.Consistent) (hcur : s.tasks.Running c)
    (hroom : (s.semtable sem).semqueue.num < nsemQueue)
    (h : s.block sem (s.tasks.thread c).tid = some (r, t)) :
    r = 1 ∧ ∃ u : Kernel, u.threadScheduler = some t ∧ u.heap = s.heap ∧ u.pipes = s.pipes ∧
      u.tasks = s.tasks.setState c .wait ∧ u.semtable =
        (s.setSemqueue sem ((s.semtable sem).semqueue.push (s.tasks.thread c).tid)).semtable := by
  have hchange : s.tasks.changeState (s.tasks.thread c).tid .wait = (1, s.tasks.setState c .wait) :=
    hc.changeState_eq hcur.live .wait
  rw [block_eq, if_neg (hc.getThreadPtr_ne_null hcur.live), if_pos hroom] at h
  obtain ⟨u, hu, hut⟩ := Option.map_eq_some_iff.mp h
  obtain ⟨rfl, rfl⟩ : 1 = r ∧ u = t := by simpa using hut
  exact ⟨rfl, _, hu, rfl, rfl, congrArg Prod.snd hchange, rfl⟩

theorem Sound.wait {r : ℤ} (h : s.Sound blocked) (hfull : ¬ s.QueueFull sem)
    (hwait : s.wait sem = some (r, t)) : t.Sound (s.watch t (.wait sem) blocked) := by
  obtain ⟨c, hcur⟩ := h.running
  have hc := h.stocked.table
  rcases wait_cases hwait with ⟨-, rfl⟩ | ⟨hu, hnn, -, rfl⟩ | ⟨hu, hneg, tid, htid, hblock⟩
  · rw [watch_same h.queues (fun _ => Iff.rfl) h.caller]
    exact h
  · obtain ⟨hb, htids⟩ := h.queues.entries sem hu
    rw [hb.int32_dec] at hnn ⊢
    rw [watch_same (t := s.setSemcount sem _) h.queues (fun _ => Iff.rfl) h.caller]
    have hsame : Function.update blocked sem (blocked sem) = blocked := Function.update_eq_self ..
    refine ⟨h.stocked.of_tasks rfl hc rfl rfl (fun _ => Iff.rfl), ?_, c, hcur⟩
    rw [← hsame]
    refine h.queues.update { s.semtable sem with semcount := (s.semtable sem).semcount - 1 } hu.1 hu.2
      (semtable_setEntry_self ..) (fun k hk => semtable_setEntry_of_ne _ hk) (hb.take (by omega))
      htids ?_
    rw [hsame]
    exact h.queues.queued
  · obtain ⟨hb, htids⟩ := h.queues.entries sem hu
    have hroom : (s.semtable sem).semqueue.num < nsemQueue := by
      by_contra hge
      exact hfull ⟨hu, hneg, by omega⟩
    have hnum : 0 ≤ (s.semtable sem).semqueue.num := by
      have := hb.num_eq
      omega
    rw [hb.int32_dec] at hneg hblock
    obtain rfl : (s.tasks.thread c).tid = tid := by
      simpa [hcur.getCurThreadTid hc] using htid
    obtain ⟨-, u, hu', hheap, -, htasks, hsem⟩ := block_cases
      (s := s.setSemcount sem ((s.semtable sem).semcount - 1)) hc hcur
      (by rw [setSemcount, semtable_setEntry_self]; exact hroom) hblock
    have hwaiting : ∀ x, x ∈ u.tasks.waiting ↔ x = (s.tasks.thread c).tid ∨ x ∈ s.tasks.waiting := by
      rw [htasks]
      exact fun x => hc.mem_waiting_block hcur.live
    have hpush := QueueSem.tids_push hb.head_nonneg hnum hroom (s.tasks.thread c).tid
    rw [htids] at hpush
    have hset : {x | x ∈ u.tasks.waiting} =
        insert (s.tasks.thread c).tid {x | x ∈ s.tasks.waiting} := by
      ext x
      exact hwaiting x
    have hq := h.queues.update (t := u) ⟨(s.semtable sem).semstate, (s.semtable sem).semcount - 1,
        (s.semtable sem).semqueue.push (s.tasks.thread c).tid⟩ hu.1 hu.2
      (by rw [hsem]; simp [setSemqueue, setSemcount])
      (fun k hk => by
        rw [hsem]
        exact (semtable_setEntry_of_ne _ hk).trans (semtable_setEntry_of_ne _ hk))
      (hb.push (by omega) hroom _) hpush
      (by rw [hset]; exact h.queues.queued.block sem (h.caller _ htid))
    obtain ⟨hsound, hsame⟩ := hq.schedule (h.stocked.setState hcur.live (by decide) hheap htasks)
      (by rw [htasks]; exact hcur.1) hu'
    rw [watch_block h.queues htid (by rw [hsame]; exact hwaiting)]
    exact hsound

theorem Sound.exists_head (h : s.Sound blocked) (hu : s.Used sem)
    (hneg : (s.semtable sem).semcount < 0) : ∃ i xs, s.tasks.Live i ∧
      (s.tasks.thread i).state = .wait ∧ blocked sem = (s.tasks.thread i).tid :: xs := by
  obtain ⟨hb, htids⟩ := h.queues.entries sem hu
  have hpos : 0 < (s.semtable sem).semqueue.num := by
    have := hb.num_eq
    omega
  have hpop := QueueSem.tids_pop hb.head_nonneg hb.head_lt hpos
  rw [htids] at hpop
  have hmem := (h.queues.queued.mem_iff _).mpr ⟨sem, by rw [hpop]; exact List.mem_cons_self ..⟩
  obtain ⟨i, hi, hstate, htid⟩ := Tasks.mem_waiting.mp hmem
  exact ⟨i, _, ⟨hi, by rw [hstate]; decide⟩, hstate, by rw [htid]; exact hpop⟩

theorem signal_eq {xs : List ℤ} (hc : s.tasks.Consistent) (hu : s.Used sem)
    (hb : (s.semtable sem).Balanced) (hneg : (s.semtable sem).semcount < 0)
    (hi : s.tasks.Live i) (htids : (s.semtable sem).semqueue.tids = (s.tasks.thread i).tid :: xs) :
    (s.semtable sem).semqueue.pop.tids = xs ∧ ∃ u : Kernel,
      s.signal sem = u.threadScheduler.map (fun t => (1, t)) ∧ u.heap = s.heap ∧ u.pipes = s.pipes ∧
        u.tasks = s.tasks.setState i .runnable ∧ u.semtable = (s.setEntry sem
          ⟨(s.semtable sem).semstate, (s.semtable sem).semcount + 1,
            (s.semtable sem).semqueue.pop⟩).semtable := by
  have hpos : 0 < (s.semtable sem).semqueue.num := by
    have := hb.num_eq
    omega
  have hpop := QueueSem.tids_pop hb.head_nonneg hb.head_lt hpos
  rw [htids, List.cons.injEq] at hpop
  refine ⟨hpop.2.symm, (s.popped sem).setTasks (s.tasks.setState i .runnable), ?_, rfl, rfl, rfl, ?_⟩
  · rw [signal_of_neg hu hneg, if_neg (by omega), headTid, ← hpop.1,
      if_neg (hc.getThreadPtr_ne_null hi), hc.changeState_eq hi]
    rfl
  · rw [semtable_setTasks, popped, hb.int32_inc hneg]

theorem Sound.signal {r : ℤ} (h : s.Sound blocked) (hsignal : s.signal sem = some (r, t)) :
    t.Sound (s.watch t (.signal sem) blocked) := by
  have hc := h.stocked.table
  rcases signal_cases hsignal with ⟨rfl, -⟩ | ⟨hu, hneg, -⟩
  · rw [watch_same h.queues (fun _ => Iff.rfl) h.caller]
    exact h
  · obtain ⟨i, xs, hi, -, hfirst⟩ := h.exists_head hu hneg
    obtain ⟨hb, htids⟩ := h.queues.entries sem hu
    obtain ⟨hpop, u, heq, hheap, -, htasks, hsem⟩ := signal_eq hc hu hb hneg hi (htids.trans hfirst)
    rw [heq] at hsignal
    obtain ⟨v, hv, hvt⟩ := Option.map_eq_some_iff.mp hsignal
    obtain ⟨rfl, rfl⟩ : 1 = r ∧ v = t := by simpa using hvt
    have hwaiting : ∀ x, x ∈ u.tasks.waiting ↔ x ∈ s.tasks.waiting ∧ x ≠ (s.tasks.thread i).tid := by
      rw [htasks]
      exact fun x => hc.mem_waiting_wake hi
    have hset : {x | x ∈ u.tasks.waiting} = {x | x ∈ s.tasks.waiting} \ {(s.tasks.thread i).tid} := by
      ext x
      exact hwaiting x
    have hq := h.queues.update (t := u) ⟨(s.semtable sem).semstate, (s.semtable sem).semcount + 1,
        (s.semtable sem).semqueue.pop⟩ hu.1 hu.2 (by rw [hsem]; exact semtable_setEntry_self ..)
      (fun k hk => by rw [hsem]; exact semtable_setEntry_of_ne _ hk) (hb.pop hneg) hpop
      (by rw [hset]; exact h.queues.queued.wake hfirst)
    obtain ⟨c, hcur⟩ := h.running
    obtain ⟨hsound, hsame⟩ := hq.schedule (h.stocked.setState hi (by decide) hheap htasks)
      (by rw [htasks]; exact hcur.1) hv
    rw [watch_wake h.queues hfirst (by rw [hsame]; exact hwaiting)]
    exact hsound

theorem Created.mem_waiting (h : Created s t) (x : ℤ) :
    x ∈ t.tasks.waiting ↔ x ∈ s.tasks.waiting := by
  simp only [Tasks.mem_waiting]
  constructor
  · rintro ⟨i, hi, hstate, rfl⟩
    have hl : s.tasks.Live i := by
      apply (h.new i ⟨hi, by rw [hstate]; decide⟩).resolve_right
      rw [hstate]
      decide
    rw [h.old i hl] at hstate ⊢
    exact ⟨i, hi, hstate, rfl⟩
  · rintro ⟨i, hi, hstate, rfl⟩
    have hsame := h.old i ⟨hi, by rw [hstate]; decide⟩
    exact ⟨i, hi, by rw [hsame]; exact hstate, by rw [hsame]⟩

theorem Sound.createThread {r : ℤ} {func : ThreadFunc} (h : s.Sound blocked)
    (hcreate : s.createThread func = some (r, t)) :
    t.Sound (s.watch t (.createThread func) blocked) := by
  obtain ⟨c, hcur⟩ := h.running
  obtain ⟨_, u, hu, hcreated⟩ :=
    h.stocked.createThread (hcur.getCurThreadTid h.stocked.table) func
  obtain ⟨-, rfl⟩ : _ = r ∧ u = t := by simpa [hu] using hcreate
  rw [watch_same h.queues hcreated.mem_waiting h.caller]
  refine ⟨hcreated.stocked, h.queues.of_same hcreated.semtable hcreated.mem_waiting, c, ?_⟩
  exact ⟨hcreated.cur.trans hcur.1, hcur.2.1, by rw [hcreated.old c hcur.live]; exact hcur.2.2⟩

theorem Sound.call {r : ℤ} (h : s.Sound blocked) (hfits : s.Admits op)
    (hcall : s.call op = some (r, t)) : t.Sound (s.watch t op blocked) := by
  cases op with
  | createSem n =>
    obtain rfl : (s.createSem n).2 = t := congrArg Prod.snd (Option.some.inj hcall)
    exact h.createSem hfits
  | wait sem => exact h.wait hfits hcall
  | signal sem => exact h.signal hcall
  | createThread func => exact h.createThread hcall
  | schedule =>
    obtain ⟨u, hu, hut⟩ := Option.map_eq_some_iff.mp hcall
    obtain ⟨-, rfl⟩ : 0 = r ∧ u = t := by simpa using hut
    obtain ⟨c, hcur⟩ := h.running
    obtain ⟨hsound, hsame⟩ := h.queues.schedule h.stocked hcur.1 hu
    rw [watch_same h.queues (by simp [hsame]) h.caller]
    exact hsound

variable {m : Kernel} {kheapStart : ℕ} {init : ThreadFunc}

theorem boot_sound (hal : kheapStart % blkSize = 0) (hbase : m.heap.base < kheapStart)
    (init : ThreadFunc) : ∃ s, m.boot kheapStart init = some s ∧ s.Sound (fun _ => []) := by
  obtain ⟨tid, s, hs, hcreated⟩ := (initKernel_stocked hal hbase).createThread rfl init
  have hdead := initKernel_dead m kheapStart
  refine ⟨s, by rw [boot, hs]; rfl, hcreated.stocked, ?_, 0, hcreated.cur, by decide, ?_⟩
  · constructor
    · intro sem hu
      rw [Used, hcreated.semtable] at hu
      simp only [initKernel, if_neg hu.1] at hu
      exact absurd hu.2 (by decide)
    · exact fun _ _ => rfl
    · have hnone : {x | x ∈ s.tasks.waiting} = ∅ := by
        apply Set.eq_empty_of_forall_notMem
        intro x hx
        obtain ⟨i, hi, hstate, -⟩ := Tasks.mem_waiting.mp ((hcreated.mem_waiting x).mp hx)
        exact hdead i ⟨hi, by rw [hstate]; decide⟩
      rw [hnone]
      exact .empty
  · exact hcreated.first 0 (by decide) (hdead 0) (fun k hk => absurd hk (Nat.not_lt_zero k))

theorem run_sound {s₀ : Kernel} {ops : List QueueOp} {w : Watched}
    (h₀ : s₀.Sound (fun _ => [])) (hrun : Run QueueStep ⟨s₀, fun _ => []⟩ ops w) :
    w.kernel.Sound w.blocked := by
  refine hrun.invariant (I := fun w => w.kernel.Sound w.blocked) h₀ ?_
  rintro w op _ hw ⟨hfits, hcall⟩
  exact hw.call hfits hcall

/-- In every state reached the queue of a semaphore holds the threads that wait on it, in the order
in which they blocked, and a signal wakes the first of them. -/
theorem semaphore_queues_sound {s₀ : Kernel} {ops : List QueueOp} {w : Watched}
    (hal : kheapStart % blkSize = 0) (hbase : m.heap.base < kheapStart)
    (hboot : m.boot kheapStart init = some s₀)
    (hrun : Run QueueStep ⟨s₀, fun _ => []⟩ ops w) :
    (∀ sem, w.kernel.Used sem →
      0 ≤ (w.kernel.semtable sem).semqueue.head ∧ (w.kernel.semtable sem).semqueue.head < nsemQueue ∧
      (w.kernel.semtable sem).semqueue.num = max 0 (-(w.kernel.semtable sem).semcount) ∧
      (w.kernel.semtable sem).semqueue.tids = w.blocked sem ∧ (w.blocked sem).Nodup ∧
      (∀ tid ∈ w.blocked sem, ∃ i, w.kernel.tasks.Live i ∧ (w.kernel.tasks.thread i).tid = tid ∧
        (w.kernel.tasks.thread i).state = .wait) ∧
      ∀ sem', w.kernel.Used sem' → ∀ tid, tid ∈ w.blocked sem → tid ∈ w.blocked sem' → sem = sem') ∧
    (∀ i, w.kernel.tasks.Live i → (w.kernel.tasks.thread i).state = .wait →
      ∃! sem, w.kernel.Used sem ∧ (w.kernel.tasks.thread i).tid ∈ w.blocked sem) ∧
    ∀ sem, w.kernel.Used sem → (w.kernel.semtable sem).semcount < 0 →
      ∃ t i, w.kernel.signal sem = some (1, t) ∧ w.kernel.tasks.Live i ∧
        (w.kernel.tasks.thread i).state = .wait ∧
        (w.blocked sem).head? = some (w.kernel.tasks.thread i).tid ∧
        (t.tasks.thread i).state = .runnable ∧
        ∀ k, k < threadNum → k ≠ i → (t.tasks.thread k).state = (w.kernel.tasks.thread k).state := by
  obtain ⟨s, hs, hsound⟩ := boot_sound (m := m) hal hbase init
  obtain rfl := Option.some.inj (hs.symm.trans hboot)
  have h := run_sound hsound hrun
  have hc := h.stocked.table
  have hmem : ∀ sem tid, tid ∈ w.blocked sem → ∃ i, w.kernel.tasks.Live i ∧
      (w.kernel.tasks.thread i).tid = tid ∧ (w.kernel.tasks.thread i).state = .wait := by
    intro sem tid htid
    obtain ⟨i, hi, hstate, rfl⟩ :=
      Tasks.mem_waiting.mp ((h.queues.queued.mem_iff tid).mpr ⟨sem, htid⟩)
    exact ⟨i, ⟨hi, by rw [hstate]; decide⟩, rfl, hstate⟩
  refine ⟨fun sem hu => ?_, fun i hi hstate => ?_, fun sem hu hneg => ?_⟩
  · obtain ⟨hb, htids⟩ := h.queues.entries sem hu
    exact ⟨hb.head_nonneg, hb.head_lt, hb.num_eq, htids, h.queues.queued.nodup sem, hmem sem,
      fun sem' _ tid => h.queues.queued.disjoint sem sem' tid⟩
  · obtain ⟨sem, htid⟩ := (h.queues.queued.mem_iff _).mp (Tasks.mem_waiting.mpr ⟨i, hi.1, hstate, rfl⟩)
    have hu : w.kernel.Used sem := by
      by_contra hfree
      rw [h.queues.free sem hfree] at htid
      cases htid
    exact ⟨sem, ⟨hu, htid⟩, fun k hk => h.queues.queued.disjoint k sem _ hk.2 htid⟩
  · obtain ⟨hb, htids⟩ := h.queues.entries sem hu
    obtain ⟨i, xs, hi, hstate, hfirst⟩ := h.exists_head hu hneg
    obtain ⟨-, u, heq, -, -, htasks, -⟩ := signal_eq hc hu hb hneg hi (htids.trans hfirst)
    obtain ⟨c, hcur⟩ := h.running
    have hself : (u.tasks.thread i).state = .runnable := by rw [htasks, Tasks.thread_setState_self]
    obtain ⟨tasks, hnext⟩ := Tasks.exists_threadScheduler (s := u.tasks) (c := c)
      (by rw [htasks]; exact hcur.1) hi.1 hself
    obtain ⟨j, rfl, -⟩ := Tasks.threadScheduler_running (by rw [htasks]; exact hcur.1) hnext
    refine ⟨u.setTasks { u.tasks with curThreadIndex := j }, i, ?_, hi, hstate, by rw [hfirst]; rfl,
      hself, fun k hk hki => ?_⟩
    · rw [heq, threadScheduler, hnext]
      rfl
    · have hother : u.tasks.thread k = w.kernel.tasks.thread k := by
        rw [htasks]
        exact hc.thread_setState_other hi hk hki .runnable
      exact congrArg Thread.state hother

theorem semaphore_queues_sound_example : ∃ (s₀ : Kernel) (w : Watched) (t : Kernel) (i : ℕ),
    Run QueueStep ⟨s₀, fun _ => []⟩ [.createThread ⟨0, 0, 0⟩, .createSem 0, .wait 0] w ∧
      (w.kernel.semtable 0).semcount = -1 ∧ w.kernel.signal 0 = some (1, t) ∧
      (w.kernel.tasks.thread i).state = .wait ∧ (t.tasks.thread i).state = .runnable := by
  have hvals : (zeroKernel.boot 0x400000 ⟨0, 0, 0⟩).bind (fun s => (s.createThread ⟨0, 0, 0⟩).bind
      (fun x => ((x.2.createSem 0).2.wait 0).map
        (fun y => [((x.2.createSem 0).2.semtable 0).semqueue.num, y.1, (y.2.semtable 0).semstate,
          (y.2.semtable 0).semcount]))) = some [0, 1, 1, -1] := by decide +kernel
  obtain ⟨s₀, hboot, hrest⟩ := Option.bind_eq_some_iff.mp hvals
  obtain ⟨⟨tid, s₁⟩, hcreate, hrest⟩ := Option.bind_eq_some_iff.mp hrest
  obtain ⟨⟨r, s₂⟩, hwait, hr⟩ := Option.map_eq_some_iff.mp hrest
  simp only [List.cons.injEq, and_true] at hr
  obtain ⟨hnum, rfl, hstate, hcount⟩ := hr
  have hroom : ¬ (s₁.createSem 0).2.QueueFull 0 := by
    rintro ⟨-, -, hfull⟩
    rw [hnum] at hfull
    exact absurd hfull (by decide)
  have hfirst : QueueStep ⟨s₀, fun _ => []⟩ (.createThread ⟨0, 0, 0⟩) _ := .call trivial hcreate
  have hsecond : ∀ blocked, QueueStep ⟨s₁, blocked⟩ (.createSem 0) _ :=
    fun _ => .call (show (0 : ℤ) < 2 ^ 31 by decide) rfl
  have hthird : ∀ blocked, QueueStep ⟨(s₁.createSem 0).2, blocked⟩ (.wait 0) _ :=
    fun _ => .call hroom hwait
  have hrun := Run.cons hfirst (.cons (hsecond _) (.single (hthird _)))
  have hal : 0x400000 % blkSize = 0 := by decide
  have hbase : zeroKernel.heap.base < 0x400000 := by decide
  obtain ⟨-, -, hsignal⟩ := semaphore_queues_sound hal hbase hboot hrun
  obtain ⟨t, i, hsig, -, hwaits, -, hruns, -⟩ :=
    hsignal 0 ⟨by decide, hstate⟩ (by rw [hcount]; decide)
  exact ⟨s₀, _, t, i, hrun, hcount, hsig, hwaits, hruns⟩

end Kernel

end MinOS
