import MinOS.Ownership

namespace MinOS

open Library.Runs

structure Attempt where
  result : ℤ
  kernel : Kernel
  written : List ℕ
  live : List Block

namespace Owned

def createAttempt (s : Owned) (func : ThreadFunc) : Option Attempt :=
  match kmallocAll s.kernel.heap threadSizes with
  | some ([t, stack, sidPtr, pstruct], _) => (s.kernel.createThread func).map (fun x =>
      ⟨x.1, x.2, [t, stack, pstruct], gainedAll s.live threadSizes [t, stack, sidPtr, pstruct]⟩)
  | _ => none

def forkAttempt (s : Owned) (result : ℤ) : Option Attempt :=
  match kmallocAll s.kernel.heap forkSizes with
  | some ([stack, t], _) => s.kernel.forkThread.map (fun k =>
      ⟨result, k, [t, stack], gainedAll s.live forkSizes [stack, t]⟩)
  | _ => none

def Exhausted (s : Owned) (sizes : List ℤ) : Prop :=
  (∀ i, i < threadNum → s.kernel.tasks.Live i) ∨
    ∃ rs h, kmallocAll s.kernel.heap sizes = some (rs, h) ∧ 0 ∈ rs

structure FailsCleanly (s : Owned) (a : Attempt) : Prop where
  result : a.result < 0
  threads : ∀ i, i < threadNum → a.kernel.tasks.threads i = s.kernel.tasks.threads i
  dict : ∀ i, i < threadNum → a.kernel.tasks.tidIndexDict i = s.kernel.tasks.tidIndexDict i
  tidGlobal : a.kernel.tasks.tidGlobal = s.kernel.tasks.tidGlobal
  cur : a.kernel.tasks.curThreadIndex = s.kernel.tasks.curThreadIndex
  cur_inTable : 0 ≤ a.kernel.tasks.curThreadIndex ∧ a.kernel.tasks.curThreadIndex < threadNum
  ctid : ∀ tid, s.kernel.tasks.getCurThreadTid = some tid → ∀ j, j < nthreadChild →
    (a.kernel.tasks.obj (s.kernel.tasks.getThreadPtr tid)).ctid j =
      (s.kernel.tasks.obj (s.kernel.tasks.getThreadPtr tid)).ctid j
  nonnull : 0 ∉ a.written
  live : a.live = s.live

variable {s : Owned} {a : Attempt} {func : ThreadFunc} {r : ℕ} {result : ℤ}

theorem length_gained (live : List Block) (r n : ℕ) : live.length ≤ (gained live r n).length := by
  unfold gained
  split_ifs
  · exact le_refl _
  · exact Nat.le_succ _

theorem length_gainedAll (live : List Block) (sizes : List ℤ) (rs : List ℕ) :
    live.length ≤ (gainedAll live sizes rs).length := by
  induction sizes generalizing live rs with
  | nil => exact le_refl _
  | cons size sizes ih =>
    cases rs with
    | nil => exact le_refl _
    | cons r rs => exact le_trans (length_gained live r _) (ih _ rs)

theorem gainedAll_ne {live : List Block} {size : ℤ} {sizes : List ℤ} {rs : List ℕ} (hr : r ≠ 0) :
    gainedAll live (size :: sizes) (r :: rs) ≠ live := by
  intro h
  have hlen := length_gainedAll (gained live r (nunits size)) sizes rs
  rw [gainedAll] at h
  rw [h, gained, if_neg hr, List.length_cons] at hlen
  omega

theorem createAttempt_leaks (h : s.createAttempt func = some a) : 0 ∈ a.written ∨ a.live ≠ s.live := by
  unfold createAttempt at h
  split at h
  · next t stack sidPtr pstruct _ hall =>
    obtain ⟨x, -, rfl⟩ := Option.map_eq_some_iff.mp h
    by_cases ht : t = 0
    · exact .inl (by simp [ht])
    · exact .inr (gainedAll_ne ht)
  · cases h

theorem forkAttempt_leaks (h : s.forkAttempt result = some a) : 0 ∈ a.written ∨ a.live ≠ s.live := by
  unfold forkAttempt at h
  split at h
  · next stack t _ hall =>
    obtain ⟨k, -, rfl⟩ := Option.map_eq_some_iff.mp h
    by_cases hs : stack = 0
    · exact .inl (by simp [hs])
    · exact .inr (gainedAll_ne hs)
  · cases h

theorem FailsCleanly.not_leaks (h : s.FailsCleanly a) : ¬ (0 ∈ a.written ∨ a.live ≠ s.live) := by
  rintro (h0 | hne)
  · exact h.nonnull h0
  · exact hne h.live

/-- Without room for a thread neither call fails as it should: it writes through a null pointer, or a
block that nobody frees stays behind. -/
theorem creation_never_fails_cleanly :
    (s.Exhausted threadSizes → ∀ func, ¬ ∃ a, s.createAttempt func = some a ∧ s.FailsCleanly a) ∧
      (s.Exhausted forkSizes → ∀ result, ¬ ∃ a, s.forkAttempt result = some a ∧ s.FailsCleanly a) := by
  constructor
  · rintro - func ⟨a, ha, hclean⟩
    exact hclean.not_leaks (createAttempt_leaks ha)
  · rintro - result ⟨a, ha, hclean⟩
    exact hclean.not_leaks (forkAttempt_leaks ha)

end Owned

section FullTable

open Kernel Owned

variable {s : Tasks} {tid : ℤ}

theorem Tasks.forkThread_full (p : ThreadPtr) (stack threadExec : ℕ) (hcur : s.getCurThreadTid = some tid)
    (hfull : ∀ i, i < threadNum → s.Live i) :
    ∃ t, s.forkThread p stack threadExec = some t ∧ t.curThreadIndex = -1 := by
  let u := s.threadGenForFork p (s.getThreadPtr tid) stack threadExec
  have hstate : ∀ q, (u.obj q).state = (s.obj q).state := by
    intro q
    by_cases hq : q = p
    · subst hq
      simp [u, Tasks.threadGenForFork, Tasks.setObj]
    · simp [u, Tasks.threadGenForFork, Tasks.setObj, hq]
  have hnone : u.findDead = none := by
    rcases u.findDead_cases with ⟨hnone, -⟩ | ⟨i, -, hi, hdead, -⟩
    · exact hnone
    · exact absurd ((hstate _).symm.trans hdead) (hfull i hi).2
  have hreg : u.threadRegister p = some (-1, u) := by
    rw [Tasks.threadRegister, Tasks.register, hnone]
  simp only [Tasks.forkThread, hcur, Option.bind_eq_bind, Option.bind_some]
  rw [hreg]
  exact ⟨_, rfl, rfl⟩

theorem exists_crowded {s : Owned} (hs : s.kernel.Stocked) (hcur : s.kernel.tasks.curThreadIndex = 0)
    (func : ThreadFunc) {n : ℕ} (hn : n ≤ threadNum) :
    ∃ t, Run OwnStep s (List.replicate n (.create func)) t ∧ t.kernel.Stocked ∧
      t.kernel.tasks.curThreadIndex = 0 ∧ ∀ i, i < n → t.kernel.tasks.Live i := by
  induction n with
  | zero => exact ⟨s, .nil, hs, hcur, fun i hi => absurd hi (by omega)⟩
  | succ n ih =>
    obtain ⟨t, hrun, ht, hcur', hlive⟩ := ih (by omega)
    have htid := Tasks.getCurThreadTid_index hcur' (by decide)
    obtain ⟨tid, k, hcreate, hc⟩ := ht.createThread htid func
    obtain ⟨free, live, hw, -⟩ := ht.heap
    obtain ⟨p, stack, sidPtr, pstruct, h, -, hall, -⟩ := hw.threadSizes_granted
    rw [List.replicate_succ']
    refine ⟨_, hrun.snoc (.create hall hcreate), hc.stocked, hc.cur.trans hcur', fun i hi => ?_⟩
    by_cases hl : t.kernel.tasks.Live i
    · refine ⟨hl.1, ?_⟩
      rw [hc.old i hl]
      exact hl.2
    · have hin : i = n := by
        by_contra hne
        exact hl (hlive i (by omega))
      have hrunnable := hc.first i (by omega) hl (fun k hk => hlive k (by omega))
      refine ⟨by omega, ?_⟩
      rw [hrunnable]
      decide

theorem exists_full : ∃ s, Run OwnStep empty (List.replicate threadNum (.create ⟨0, 0, 0⟩)) s ∧
    s.kernel.Stocked ∧ s.kernel.tasks.curThreadIndex = 0 ∧ ∀ i, i < threadNum → s.kernel.tasks.Live i :=
  exists_crowded (initKernel_stocked (by decide) (by decide)) rfl _ (le_refl _)

theorem creation_never_fails_cleanly_example :
    ∃ s, Run OwnStep empty (List.replicate threadNum (.create ⟨0, 0, 0⟩)) s ∧
      (∀ i, i < threadNum → s.kernel.tasks.Live i) ∧
      (∀ func, ¬ ∃ a, s.createAttempt func = some a ∧ s.FailsCleanly a) ∧
      ∀ result, ¬ ∃ a, s.forkAttempt result = some a ∧ s.FailsCleanly a := by
  obtain ⟨s, hrun, -, -, hfull⟩ := exists_full
  obtain ⟨hcreate, hfork⟩ := creation_never_fails_cleanly (s := s)
  exact ⟨s, hrun, hfull, hcreate (.inl hfull), hfork (.inl hfull)⟩

/-- With forty threads `create_thread` returns, but its blocks stay behind, and `fork_thread` makes
`-1` the number of the current entry. -/
theorem full_table_leaks : ∃ s a b, Run OwnStep empty (List.replicate threadNum (.create ⟨0, 0, 0⟩)) s ∧
    (∀ i, i < threadNum → s.kernel.tasks.Live i) ∧
    s.createAttempt ⟨0, 0, 0⟩ = some a ∧ (0 ∈ a.written ∨ a.live ≠ s.live) ∧ ¬ s.FailsCleanly a ∧
    s.forkAttempt (-1) = some b ∧ b.kernel.tasks.curThreadIndex = -1 ∧ ¬ s.FailsCleanly b := by
  obtain ⟨s, hrun, hs, hcur, hfull⟩ := exists_full
  have htid := Tasks.getCurThreadTid_index hcur (by decide)
  obtain ⟨tid, k, hcreate, -⟩ := hs.createThread htid ⟨0, 0, 0⟩
  obtain ⟨free, live, hw, -⟩ := hs.heap
  obtain ⟨t, stack, sidPtr, pstruct, h, -, hall, -⟩ := hw.threadSizes_granted
  obtain ⟨rs, h', -, hall', -, hans, -⟩ :=
    hw.kmallocAll_granted (show ∀ size ∈ forkSizes, 0 ≤ size ∧ size ≤ 2 ^ 31 - 16 by decide)
  obtain ⟨stack', t', rfl⟩ := List.length_eq_two.mp hans.length_eq
  obtain ⟨tasks, hfork, hminus⟩ :=
    Tasks.forkThread_full (.at t') stack' s.kernel.threadExec htid hfull
  have ha : s.createAttempt ⟨0, 0, 0⟩ = some ⟨tid, k, [t, stack, pstruct],
      gainedAll s.live threadSizes [t, stack, sidPtr, pstruct]⟩ := by
    rw [createAttempt, hall]
    dsimp only
    rw [hcreate, Option.map_some]
  have hb : s.forkAttempt (-1) = some ⟨-1, (s.kernel.setHeap h').setTasks tasks, [t', stack'],
      gainedAll s.live forkSizes [stack', t']⟩ := by
    rw [forkAttempt, hall']
    dsimp only
    rw [forkThread_eq hall', hfork, Option.map_some, Option.map_some]
  exact ⟨s, _, _, hrun, hfull, ha, createAttempt_leaks ha, fun hc => hc.not_leaks (createAttempt_leaks ha),
    hb, hminus, fun hc => hc.not_leaks (forkAttempt_leaks hb)⟩

end FullTable

end MinOS
