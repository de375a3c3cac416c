import MinOS.Semaphore

namespace MinOS

open Library.Integers

structure SemtableEntry.Balanced (e : SemtableEntry) : Prop where
  num_eq : e.semqueue.num = max 0 (-e.semcount)
  num_le : e.semqueue.num ≤ nsemQueue
  head_nonneg : 0 ≤ e.semqueue.head
  head_lt : e.semqueue.head < nsemQueue
  semcount_lt : e.semcount < 2 ^ 31

namespace SemtableEntry.Balanced

variable {e : SemtableEntry}

theorem int32_dec (h : e.Balanced) : int32 (e.semcount - 1) = e.semcount - 1 := by
  have hnum := h.num_eq
  have hle := h.num_le
  have hlt := h.semcount_lt
  simp only [nsemQueue] at hle
  apply int32_eq <;> omega

theorem int32_inc (h : e.Balanced) (hneg : e.semcount < 0) :
    int32 (e.semcount + 1) = e.semcount + 1 := by
  have hnum := h.num_eq
  have hle := h.num_le
  simp only [nsemQueue] at hle
  apply int32_eq <;> omega

theorem init {semstate initCount : ℤ} (h0 : 0 ≤ initCount) (hlt : initCount < 2 ^ 31)
    (que : ℤ → ℤ) : Balanced ⟨semstate, initCount, ⟨0, 0, que⟩⟩ :=
  ⟨by dsimp only; omega, by simp [nsemQueue], le_refl _, by simp [nsemQueue], hlt⟩

theorem take (h : e.Balanced) (hpos : 0 < e.semcount) :
    Balanced { e with semcount := e.semcount - 1 } := by
  have hnum := h.num_eq
  have hlt := h.semcount_lt
  exact ⟨by dsimp only; omega, h.num_le, h.head_nonneg, h.head_lt, by dsimp only; omega⟩

theorem push (h : e.Balanced) (hpos : e.semcount ≤ 0) (hroom : e.semqueue.num < nsemQueue)
    (tid : ℤ) : Balanced ⟨e.semstate, e.semcount - 1, e.semqueue.push tid⟩ := by
  have hnum := h.num_eq
  have hlt := h.semcount_lt
  have hpush : (e.semqueue.push tid).num = e.semqueue.num + 1 := rfl
  exact ⟨by dsimp only; omega, by dsimp only; omega, h.head_nonneg, h.head_lt, by dsimp only; omega⟩

theorem pop (h : e.Balanced) (hneg : e.semcount < 0) :
    Balanced ⟨e.semstate, e.semcount + 1, e.semqueue.pop⟩ := by
  have hnum := h.num_eq
  have hle := h.num_le
  have hhead := h.head_nonneg
  have hpop : e.semqueue.pop.num = e.semqueue.num - 1 := rfl
  constructor
  · dsimp only
    omega
  · dsimp only
    omega
  · exact Int.tmod_nonneg _ (by omega)
  · exact Int.tmod_lt_of_pos _ (by simp [nsemQueue])
  · dsimp only
    omega

end SemtableEntry.Balanced

namespace Kernel

variable {s t : Kernel} {sem k r tid : ℤ}

@[simp] theorem semtable_setEntry_self (s : Kernel) (sem : ℤ) (e : SemtableEntry) :
    (s.setEntry sem e).semtable sem = e :=
  Function.update_self ..

theorem semtable_setEntry_of_ne (e : SemtableEntry) (h : k ≠ sem) :
    (s.setEntry sem e).semtable k = s.semtable k :=
  Function.update_of_ne h ..

@[simp] theorem semtable_setTasks (s : Kernel) (tasks : Tasks) :
    (s.setTasks tasks).semtable = s.semtable := rfl

@[simp] theorem semtable_setSid (s : Kernel) (p : ℕ) (sem : ℤ) :
    (s.setSid p sem).semtable = s.semtable := rfl

@[simp] theorem tasks_setEntry (s : Kernel) (sem : ℤ) (e : SemtableEntry) :
    (s.setEntry sem e).tasks = s.tasks := rfl

theorem enqueueSem_cases (s : Kernel) (tid sem : ℤ) :
    s.enqueueSem tid sem = none ∧ nsemQueue ≤ (s.semtable sem).semqueue.num ∨
      (s.semtable sem).semqueue.num < nsemQueue ∧
        s.enqueueSem tid sem = some (s.setSemqueue sem ((s.semtable sem).semqueue.push tid)) := by
  by_cases h : (s.semtable sem).semqueue.num < nsemQueue
  · exact .inr ⟨h, if_pos h⟩
  · exact .inl ⟨if_neg h, by omega⟩

theorem dequeueSem_cases (s : Kernel) (sem : ℤ) :
    s.dequeueSem sem = none ∧ (s.semtable sem).semqueue.num ≤ 0 ∨
      0 < (s.semtable sem).semqueue.num ∧ s.dequeueSem sem =
        some ((s.semtable sem).semqueue.que (s.semtable sem).semqueue.head,
          s.setSemqueue sem (s.semtable sem).semqueue.pop) := by
  by_cases h : 0 < (s.semtable sem).semqueue.num
  · exact .inr ⟨h, if_pos h⟩
  · exact .inl ⟨if_neg h, by omega⟩

theorem threadScheduler_cases (h : s.threadScheduler = some t) :
    ∃ tasks, s.tasks.threadScheduler = some tasks ∧ t = s.setTasks tasks := by
  obtain ⟨tasks, ht, rfl⟩ := Option.map_eq_some_iff.mp h
  exact ⟨tasks, ht, rfl⟩

def blocking (s : Kernel) (sem tid : ℤ) : Kernel :=
  let s := s.setTasks (s.tasks.changeState tid .wait).2
  s.setSid (s.tasks.obj (s.tasks.getThreadPtr tid)).sidPtr sem

@[simp] theorem semtable_blocking (s : Kernel) (sem tid : ℤ) :
    (s.blocking sem tid).semtable = s.semtable := rfl

@[simp] theorem tasks_blocking (s : Kernel) (sem tid : ℤ) :
    (s.blocking sem tid).tasks = (s.tasks.changeState tid .wait).2 := rfl

theorem block_eq (s : Kernel) (sem tid : ℤ) : s.block sem tid =
    if s.tasks.getThreadPtr tid = .at 0 then some (0, s)
    else if (s.semtable sem).semqueue.num < nsemQueue then
      ((s.blocking sem tid).setSemqueue sem ((s.semtable sem).semqueue.push tid)).threadScheduler.map
        (fun t => (1, t))
    else some (0, s.blocking sem tid) := by
  by_cases hnull : s.tasks.getThreadPtr tid = .at 0
  · have hchange : s.tasks.changeState tid .wait = (0, s.tasks) := if_pos hnull
    rw [if_pos hnull, block, hchange]
    rfl
  · have hfound : (s.tasks.changeState tid .wait).1 ≠ 0 := by simp [Tasks.changeState, hnull]
    have hsem : (s.blocking sem tid).semtable = s.semtable := rfl
    rw [if_neg hnull, block]
    simp only [if_neg hfound]
    generalize hv : (s.setTasks _).setSid _ sem = v
    obtain rfl : s.blocking sem tid = v := hv
    rcases (s.blocking sem tid).enqueueSem_cases tid sem with ⟨hnone, hfull⟩ | ⟨hroom, heq⟩
    · rw [hsem] at hfull
      simp only [hnone, if_neg (show ¬ (s.semtable sem).semqueue.num < nsemQueue by omega)]
    · rw [hsem] at hroom heq
      simp only [heq, if_pos hroom]

theorem block_semtable (h : s.block sem tid = some (r, t)) :
    r = 0 ∧ t.semtable = s.semtable ∨ r = 1 ∧ (s.semtable sem).semqueue.num < nsemQueue ∧
      t.semtable = (s.setSemqueue sem ((s.semtable sem).semqueue.push tid)).semtable := by
  rw [block_eq] at h
  split_ifs at h with hnull hroom
  · obtain ⟨rfl, rfl⟩ : 0 = r ∧ s = t := by simpa using h
    exact .inl ⟨rfl, rfl⟩
  · obtain ⟨u, hu, hut⟩ := Option.map_eq_some_iff.mp h
    obtain ⟨rfl, rfl⟩ : 1 = r ∧ u = t := by simpa using hut
    obtain ⟨tasks, -, rfl⟩ := threadScheduler_cases hu
    exact .inr ⟨rfl, hroom, rfl⟩
  · obtain ⟨rfl, rfl⟩ : 0 = r ∧ s.blocking sem tid = t := by simpa using h
    exact .inl ⟨rfl, rfl⟩

theorem wait_of_neg (hu : s.Used sem) (hneg : int32 ((s.semtable sem).semcount - 1) < 0) :
    s.wait sem = s.tasks.getCurThreadTid.bind
      ((s.setSemcount sem (int32 ((s.semtable sem).semcount - 1))).block sem) := by
  rw [wait, if_neg hu.1, if_neg (not_not.mpr hu.2)]
  simp only [setSemcount, semtable_setEntry_self, tasks_setEntry, if_pos hneg]

theorem wait_cases (h : s.wait sem = some (r, t)) :
    r = 0 ∧ t = s ∨
      s.Used sem ∧ 0 ≤ int32 ((s.semtable sem).semcount - 1) ∧ r = 1 ∧
        t = s.setSemcount sem (int32 ((s.semtable sem).semcount - 1)) ∨
      s.Used sem ∧ int32 ((s.semtable sem).semcount - 1) < 0 ∧ ∃ tid,
        s.tasks.getCurThreadTid = some tid ∧
        (s.setSemcount sem (int32 ((s.semtable sem).semcount - 1))).block sem tid = some (r, t) := by
  simp only [wait, setSemcount, semtable_setEntry_self, tasks_setEntry] at h
  split_ifs at h with hbad hstate hneg
  · obtain ⟨rfl, rfl⟩ : 0 = r ∧ s = t := by simpa using h
    exact .inl ⟨rfl, rfl⟩
  · obtain ⟨rfl, rfl⟩ : 0 = r ∧ s = t := by simpa using h
    exact .inl ⟨rfl, rfl⟩
  · obtain ⟨tid, htid, hblock⟩ := Option.bind_eq_some_iff.mp h
    exact .inr (.inr ⟨⟨hbad, not_not.mp hstate⟩, hneg, tid, htid, hblock⟩)
  · obtain ⟨rfl, rfl⟩ : 1 = r ∧ _ = t := by simpa using h
    exact .inr (.inl ⟨⟨hbad, not_not.mp hstate⟩, by omega, rfl, rfl⟩)

def popped (s : Kernel) (sem : ℤ) : Kernel :=
  s.setEntry sem ⟨(s.semtable sem).semstate, int32 ((s.semtable sem).semcount + 1),
    (s.semtable sem).semqueue.pop⟩

def headTid (s : Kernel) (sem : ℤ) : ℤ :=
  (s.semtable sem).semqueue.que (s.semtable sem).semqueue.head

theorem signal_of_neg (hu : s.Used sem) (hneg : (s.semtable sem).semcount < 0) : s.signal sem =
    if (s.semtable sem).semqueue.num ≤ 0 then
      some (0, s.setSemcount sem (int32 ((s.semtable sem).semcount + 1)))
    else if s.tasks.getThreadPtr (s.headTid sem) = .at 0 then some (0, s.popped sem)
    else ((s.popped sem).setTasks (s.tasks.changeState (s.headTid sem) .runnable).2).threadScheduler.map
      (fun t => (1, t)) := by
  rw [signal, if_neg hu.1, if_neg (not_not.mpr hu.2), if_pos hneg]
  rcases (s.setSemcount sem (int32 ((s.semtable sem).semcount + 1))).dequeueSem_cases sem with
    ⟨hnone, hempty⟩ | ⟨hpos, heq⟩
  · simp only [setSemcount, semtable_setEntry_self] at hempty
    simp only [hnone, if_pos hempty]
  · simp only [setSemcount, semtable_setEntry_self] at hpos
    have hpop : (s.setSemcount sem (int32 ((s.semtable sem).semcount + 1))).setSemqueue sem
        (s.semtable sem).semqueue.pop = s.popped sem := by
      simp [setSemcount, setSemqueue, setEntry, popped]
    have hque : ((s.setSemcount sem (int32 ((s.semtable sem).semcount + 1))).semtable sem).semqueue =
        (s.semtable sem).semqueue := by
      rw [setSemcount, semtable_setEntry_self]
    rw [hque, hpop] at heq
    have htasks : (s.popped sem).tasks = s.tasks := rfl
    rw [if_neg (by omega)]
    simp only [heq, htasks]
    rw [← headTid]
    by_cases hnull : s.tasks.getThreadPtr (s.headTid sem) = .at 0
    · have hchange : s.tasks.changeState (s.headTid sem) .runnable = (0, s.tasks) := if_pos hnull
      rw [if_pos hnull, hchange]
      rfl
    · have hfound : (s.tasks.changeState (s.headTid sem) .runnable).1 ≠ 0 := by
        simp [Tasks.changeState, hnull]
      rw [if_neg hnull, if_neg hfound]

theorem signal_cases (h : s.signal sem = some (r, t)) :
    t = s ∧ (r = 1 → s.Used sem ∧ 0 ≤ (s.semtable sem).semcount) ∨
      s.Used sem ∧ (s.semtable sem).semcount < 0 ∧
        (r = 0 ∧ t = s.setSemcount sem (int32 ((s.semtable sem).semcount + 1)) ∨
          0 < (s.semtable sem).semqueue.num ∧
            t.semtable = (s.setEntry sem ⟨(s.semtable sem).semstate,
              int32 ((s.semtable sem).semcount + 1), (s.semtable sem).semqueue.pop⟩).semtable) := by
  by_cases hneg : s.Used sem ∧ (s.semtable sem).semcount < 0
  · refine .inr ⟨hneg.1, hneg.2, ?_⟩
    rw [signal_of_neg hneg.1 hneg.2] at h
    split_ifs at h with hempty hnull
    · obtain ⟨rfl, rfl⟩ : 0 = r ∧ _ = t := by simpa using h
      exact .inl ⟨rfl, rfl⟩
    · obtain ⟨rfl, rfl⟩ : 0 = r ∧ s.popped sem = t := by simpa using h
      exact .inr ⟨by omega, rfl⟩
    · obtain ⟨u, hu, hut⟩ := Option.map_eq_some_iff.mp h
      obtain ⟨rfl, rfl⟩ : 1 = r ∧ u = t := by simpa using hut
      obtain ⟨tasks, -, rfl⟩ := threadScheduler_cases hu
      exact .inr ⟨by omega, rfl⟩
  · rw [signal] at h
    split_ifs at h with hbad hstate hcount
    · obtain ⟨rfl, rfl⟩ : 0 = r ∧ s = t := by simpa using h
      exact .inl ⟨rfl, by simp⟩
    · obtain ⟨rfl, rfl⟩ : 0 = r ∧ s = t := by simpa using h
      exact .inl ⟨rfl, by simp⟩
    · exact absurd ⟨⟨hbad, not_not.mp hstate⟩, hcount⟩ hneg
    · obtain ⟨rfl, rfl⟩ : 1 = r ∧ s = t := by simpa using h
      exact .inl ⟨rfl, fun _ => ⟨⟨hbad, not_not.mp hstate⟩, by omega⟩⟩

theorem newsem_cases (s : Kernel) :
    s.newsem = (-1, s) ∨ ∃ i : ℕ, i < nsem ∧ (s.semtable i).semstate = sFree ∧
      s.newsem = ((i : ℤ), s.setEntry i { s.semtable i with semstate := sUsed }) := by
  unfold newsem
  split
  · rename_i i hi
    have hmem := List.mem_range.mp (List.mem_of_find?_eq_some hi)
    exact .inr ⟨i, hmem, by simpa using List.find?_some hi, rfl⟩
  · exact .inl rfl

theorem newsem_full (h : s.newsem = (-1, s)) {i : ℕ} (hi : i < nsem) :
    (s.semtable i).semstate ≠ sFree := by
  unfold newsem at h
  split at h
  · have hfst := congrArg Prod.fst h
    dsimp only at hfst
    omega
  · rename_i hnone
    simpa using List.find?_eq_none.mp hnone i (List.mem_range.mpr hi)

theorem createSem_cases (s : Kernel) (initCount : ℤ) :
    s.createSem initCount = (-1, s) ∨ 0 ≤ initCount ∧ ∃ i : ℕ, i < nsem ∧
      (s.semtable i).semstate = sFree ∧ ∃ que, s.createSem initCount =
        ((i : ℤ), s.setEntry i ⟨sUsed, initCount, ⟨0, 0, que⟩⟩) := by
  unfold createSem
  split_ifs with hneg
  · exact .inl rfl
  · rcases s.newsem_cases with hfull | ⟨i, hi, hfree, hnew⟩
    · exact .inl (by simp [hfull])
    · refine .inr ⟨by omega, i, hi, hfree, fun _ => -1, ?_⟩
      simp [hnew, setEntry, show ¬ ((i : ℤ) < 0) by omega]

theorem createSem_fields (s : Kernel) (n : ℤ) : (s.createSem n).2.tasks = s.tasks ∧
    (s.createSem n).2.heap = s.heap ∧ (s.createSem n).2.pipes = s.pipes := by
  rcases s.createSem_cases n with h | ⟨-, i, -, -, que, h⟩
  · simp [h]
  · simp [h, setEntry]

theorem not_isbadsem {i : ℕ} (hi : i < nsem) : ¬ isbadsem i := by
  simp only [isbadsem]
  omega

theorem wait_other (h : s.wait k = some (r, t)) (hne : sem ≠ k) : t.semtable sem = s.semtable sem := by
  rcases wait_cases h with ⟨-, rfl⟩ | ⟨-, -, -, rfl⟩ | ⟨-, -, tid, -, hblock⟩
  · rfl
  · exact semtable_setEntry_of_ne _ hne
  · rcases block_semtable hblock with ⟨-, ht⟩ | ⟨-, -, ht⟩
    · rw [ht]
      exact semtable_setEntry_of_ne _ hne
    · rw [ht]
      exact (semtable_setEntry_of_ne _ hne).trans (semtable_setEntry_of_ne _ hne)

theorem signal_other (h : s.signal k = some (r, t)) (hne : sem ≠ k) :
    t.semtable sem = s.semtable sem := by
  rcases signal_cases h with ⟨rfl, -⟩ | ⟨-, -, ⟨-, rfl⟩ | ⟨-, ht⟩⟩
  · rfl
  · exact semtable_setEntry_of_ne _ hne
  · rw [ht]
    exact semtable_setEntry_of_ne _ hne

theorem createSem_other (hu : s.Used sem) (initCount : ℤ) :
    (s.createSem initCount).2.semtable sem = s.semtable sem := by
  rcases s.createSem_cases initCount with h | ⟨-, i, -, hfree, que, h⟩
  · rw [h]
  · rw [h]
    apply semtable_setEntry_of_ne
    rintro rfl
    exact absurd (hu.2.symm.trans hfree) (by decide)

theorem dequeueSem_other (h : s.dequeueSem k = some (tid, t)) (hne : sem ≠ k) :
    t.semtable sem = s.semtable sem := by
  rcases s.dequeueSem_cases k with ⟨hnone, -⟩ | ⟨-, heq⟩
  · rw [hnone] at h
    cases h
  · obtain ⟨-, rfl⟩ : _ = tid ∧ _ = t := by simpa [heq] using h
    exact semtable_setEntry_of_ne _ hne

theorem releaseWaiters_other (hne : sem ≠ k) (n : ℕ) (s : Kernel) :
    (releaseWaiters k n s).2.semtable sem = s.semtable sem := by
  induction n generalizing s with
  | zero => rfl
  | succ n ih =>
    rw [releaseWaiters]
    split
    · rfl
    · rename_i tid t ht
      have hsame := dequeueSem_other ht hne
      by_cases hfound : (t.tasks.changeState tid .runnable).1 = 0
      · simp only [hfound, ↓reduceIte, semtable_setTasks, hsame]
      · simp only [hfound, ↓reduceIte, ih, semtable_setTasks, hsame]

theorem deleteSem_of_good (hsem : ¬ isbadsem sem) (s : Kernel) : s.deleteSem sem = (0, s) :=
  if_pos hsem

theorem deleteSem_other (hsem : ¬ isbadsem sem) (k : ℤ) :
    (s.deleteSem k).2.semtable sem = s.semtable sem := by
  have hne : isbadsem k → sem ≠ k := by
    rintro hbad rfl
    exact hsem hbad
  unfold deleteSem
  split_ifs with hbad hstate
  · rfl
  · rw [releaseWaiters_other (hne hbad)]
    exact semtable_setEntry_of_ne _ (hne hbad)
  · rfl

end Kernel

end MinOS
