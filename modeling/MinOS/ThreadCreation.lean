import MinOS.HeapRequests
import MinOS.ThreadStates
import MinOS.Threads

namespace MinOS

/-- The requests of `create_thread`: the structure, the stack, the cell for the semaphore and the
pipe structure of the thread. -/
def threadSizes : List ℤ := [sizeofThread, stackLength, sizeofSid, sizeofPipeStruct]

def forkSizes : List ℤ := [stackLength, sizeofThread]

theorem WellFormed.threadSizes_granted {h : Heap} {free live : List Block}
    (hw : WellFormed h free live) : ∃ t stack sidPtr pstruct h' free',
      kmallocAll h threadSizes = some ([t, stack, sidPtr, pstruct], h') ∧
      WellFormed h' free' (gainedAll live threadSizes [t, stack, sidPtr, pstruct]) ∧
      Answers live threadSizes [t, stack, sidPtr, pstruct] ∧
      ∀ m, 0 < m → Roomy free (270 + m) → 0 ∉ [t, stack, sidPtr, pstruct] ∧ Roomy free' m := by
  obtain ⟨rs, h', free', hall, hw', hans, hroom⟩ :=
    hw.kmallocAll_granted (show ∀ size ∈ threadSizes, 0 ≤ size ∧ size ≤ 2 ^ 31 - 16 by decide)
  have hsum : (threadSizes.map nunits).sum = 270 := by decide
  obtain ⟨t, stack, sidPtr, pstruct, rfl⟩ := List.length_eq_four.mp hans.length_eq
  exact ⟨t, stack, sidPtr, pstruct, h', free', hall, hw', hans, hsum ▸ hroom⟩

namespace Kernel

variable {s : Kernel} {free live : List Block}

theorem createThread_eq {t stack sidPtr pstruct : ℕ} {h : Heap} (func : ThreadFunc)
    (hall : kmallocAll s.heap threadSizes = some ([t, stack, sidPtr, pstruct], h)) :
    s.createThread func =
      ((s.tasks.setObj (.at t) (s.genThread t stack sidPtr pstruct func)).threadRun (.at t)).map
        (fun tasks => ((tasks.obj (.at t)).tid, ((s.setHeap h).setPipe pstruct
          { s.pipes pstruct with pstate := .empty }).setTasks tasks)) := by
  obtain ⟨h₁, ht, hall⟩ := kmallocAll_cons.mp hall
  obtain ⟨h₂, hstack, hall⟩ := kmallocAll_cons.mp hall
  obtain ⟨h₃, hsid, hall⟩ := kmallocAll_cons.mp hall
  obtain ⟨h₄, hpst, hall⟩ := kmallocAll_cons.mp hall
  obtain rfl : h₄ = h := congrArg Prod.snd (Option.some.inj hall)
  have ht' : kmallocAlignas s.heap sizeofThread 16 = some (t, h₁) := ht
  have hstack' : kmallocAlignas h₁ stackLength 16 = some (stack, h₂) := hstack
  simp only [createThread, threadGen2, ht', setHeap, hstack', hsid, hpst, Option.bind_eq_bind,
    Option.bind_some, Option.map_eq_bind]
  rfl

theorem forkThread_eq {stack t : ℕ} {h : Heap}
    (hall : kmallocAll s.heap forkSizes = some ([stack, t], h)) : s.forkThread =
      (s.tasks.forkThread (.at t) stack s.threadExec).map (fun tasks => (s.setHeap h).setTasks tasks) := by
  obtain ⟨h₁, hstack, hall⟩ := kmallocAll_cons.mp hall
  obtain ⟨h₂, ht, hall⟩ := kmallocAll_cons.mp hall
  obtain rfl : h₂ = h := congrArg Prod.snd (Option.some.inj hall)
  have hstack' : kmallocAlignas s.heap stackLength 16 = some (stack, h₁) := hstack
  have ht' : kmallocAlignas h₁ sizeofThread 16 = some (t, h₂) := ht
  simp only [forkThread, hstack', ht', Option.bind_eq_bind, Option.bind_some, Option.map_eq_bind]
  rfl

theorem threadGen2_cases {t : ℕ} {k : Kernel} {func : ThreadFunc} (h : s.threadGen2 t func = some k) :
    ∃ rs heap x, kmallocAll s.heap [stackLength, sizeofSid, sizeofPipeStruct] = some (rs, heap) ∧
      k.heap = heap ∧ x.state = (s.tasks.obj (.at t)).state ∧ k.tasks = s.tasks.setObj (.at t) x := by
  obtain ⟨⟨stack, h₁⟩, hstack, h⟩ := Option.bind_eq_some_iff.mp h
  obtain ⟨⟨sidPtr, h₂⟩, hsid, h⟩ := Option.bind_eq_some_iff.mp h
  obtain ⟨⟨pstruct, h₃⟩, hpst, h⟩ := Option.bind_eq_some_iff.mp h
  obtain rfl := Option.some.inj h
  have hstack' : kmalloc s.heap stackLength = some (stack, h₁) := hstack
  refine ⟨[stack, sidPtr, pstruct], h₃, s.genThread t stack sidPtr pstruct func, ?_, rfl, rfl, rfl⟩
  simp only [kmallocAll, hstack', hsid, hpst, Option.bind_some, Option.map_some]

structure Stocked (s : Kernel) : Prop where
  table : s.tasks.Consistent
  global_nonneg : 0 ≤ s.tasks.tidGlobal
  global_le : s.tasks.tidGlobal ≤ threadNum
  slots : ∀ i, i < threadNum → (s.tasks.Live i ↔ i < s.tasks.tidGlobal)
  unused : ∀ i, i < threadNum → ¬ s.tasks.Live i → s.tasks.threads i = .emptyThread
  heap : ∃ free live, WellFormed s.heap free live ∧
    (∀ i, s.tasks.Live i → ∃ b ∈ live, s.tasks.threads i = .at (b.addr + blkSize)) ∧
    (s.tasks.tidGlobal < threadNum → Roomy free (270 * (threadNum - s.tasks.tidGlobal).toNat + 1))

theorem Stocked.of_tasks {t : Kernel} (hs : s.Stocked) (hheap : t.heap = s.heap)
    (htable : t.tasks.Consistent) (hthreads : t.tasks.threads = s.tasks.threads)
    (hglobal : t.tasks.tidGlobal = s.tasks.tidGlobal)
    (hlive : ∀ i, t.tasks.Live i ↔ s.tasks.Live i) : t.Stocked := by
  constructor
  · exact htable
  · rw [hglobal]
    exact hs.global_nonneg
  · rw [hglobal]
    exact hs.global_le
  · simp only [hlive, hglobal]
    exact hs.slots
  · simp only [hlive, hthreads]
    exact hs.unused
  · simp only [hlive, hthreads, hheap, hglobal]
    exact hs.heap

structure Created (s t : Kernel) : Prop where
  stocked : t.Stocked
  semtable : t.semtable = s.semtable
  cur : t.tasks.curThreadIndex = s.tasks.curThreadIndex
  old : ∀ i, s.tasks.Live i → t.tasks.thread i = s.tasks.thread i
  new : ∀ i, t.tasks.Live i → s.tasks.Live i ∨ (t.tasks.thread i).state = .runnable
  first : ∀ i, i < threadNum → ¬ s.tasks.Live i → (∀ k, k < i → s.tasks.Live k) →
    (t.tasks.thread i).state = .runnable

theorem blocks_gained {live live' : List Block} {s : Tasks} (hsub : ∀ b ∈ live, b ∈ live')
    (h : ∀ i, s.Live i → ∃ b ∈ live, s.threads i = .at (b.addr + blkSize)) :
    ∀ i, s.Live i → ∃ b ∈ live', s.threads i = .at (b.addr + blkSize) := by
  intro i hi
  obtain ⟨b, hb, hptr⟩ := h i hi
  exact ⟨b, hsub b hb, hptr⟩

theorem Stocked.enter {p i : ℕ} {ptid : ℤ} {content : Thread} {t : Kernel} {free live : List Block}
    (hs : s.Stocked) (hout : ∀ k, k < threadNum → s.tasks.threads k ≠ .at p) (hp : p ≠ 0)
    (hi : i < threadNum) (hdead : ¬ s.tasks.Live i) (hmin : ∀ k, k < i → s.tasks.Live k)
    (ht : t.tasks = (s.tasks.setObj (.at p) content).enter (.at p) .runnable i ptid)
    (hw : WellFormed t.heap free live) (hblock : ∃ b ∈ live, p = b.addr + blkSize)
    (hblocks : ∀ k, s.tasks.Live k → ∃ b ∈ live, s.tasks.threads k = .at (b.addr + blkSize))
    (hroom : Roomy free (270 * (threadNum - (s.tasks.tidGlobal + 1)).toNat + 1)) : t.Stocked := by
  have hfresh : s.tasks.Fresh (.at p) := ⟨by simp, by simpa using hp, hout⟩
  have hgi : s.tasks.tidGlobal = i := by
    have hge := mt (hs.slots i hi).mpr hdead
    have h0 := hs.global_nonneg
    by_contra hne
    have hl := (hs.slots (i - 1) (by omega)).mp (hmin (i - 1) (by omega))
    omega
  have hlt : s.tasks.tidGlobal + 1 < 2 ^ 31 := by
    simp only [threadNum] at hi
    omega
  have hglobal : t.tasks.tidGlobal = s.tasks.tidGlobal + 1 := by
    have h0 : -2 ^ 31 ≤ s.tasks.tidGlobal + 1 := by
      have := hs.global_nonneg
      omega
    rw [ht]
    exact Library.Integers.int32_eq h0 hlt
  have hlive : ∀ k, t.tasks.Live k ↔ k = i ∨ s.tasks.Live k := by
    intro k
    rw [ht]
    exact Tasks.enter_live hout hi content
  have hthreads : ∀ k, k ≠ i → t.tasks.threads k = s.tasks.threads k := by
    intro k hk
    rw [ht]
    exact Function.update_of_ne hk ..
  have hself : t.tasks.threads i = .at p := by
    rw [ht]
    exact Function.update_self ..
  constructor
  · rw [ht]
    exact (hs.table.setObj_fresh hfresh content).enter (hfresh.setObj content)
      (fun k hk => hfresh.live_setObj content (hmin k hk)) hs.global_nonneg hlt
  · omega
  · omega
  · intro k hk
    rw [hlive, hglobal, hs.slots k hk]
    omega
  · intro k hk hl
    have hki : k ≠ i := fun he => hl ((hlive k).mpr (.inl he))
    rw [hthreads k hki]
    exact hs.unused k hk (fun h => hl ((hlive k).mpr (.inr h)))
  · refine ⟨free, live, hw, fun k hk => ?_, fun _ => by rw [hglobal]; exact hroom⟩
    by_cases hki : k = i
    · subst hki
      obtain ⟨b, hb, rfl⟩ := hblock
      exact ⟨b, hb, hself⟩
    · rw [hthreads k hki]
      exact hblocks k (((hlive k).mp hk).resolve_left hki)

theorem Stocked.createThread {ptid : ℤ} (hs : s.Stocked)
    (hcur : s.tasks.getCurThreadTid = some ptid) (func : ThreadFunc) :
    ∃ tid t, s.createThread func = some (tid, t) ∧ Created s t := by
  obtain ⟨free, live, hw, hblocks, hroom⟩ := hs.heap
  obtain ⟨p, stack, sidPtr, pstruct, h, free', hall, hw', hans, hroom'⟩ := hw.threadSizes_granted
  have heq := createThread_eq func hall
  cases hans with
  | cons hpos hnew _ =>
  generalize s.genThread p stack sidPtr pstruct func = content at heq
  have hout : ∀ k, k < threadNum → s.tasks.threads k ≠ .at p := by
    intro k hk he
    by_cases hl : s.tasks.Live k
    · obtain ⟨b, hb, hptr⟩ := hblocks k hl
      rw [he] at hptr
      exact hnew b hb (ThreadPtr.at.inj hptr).symm
    · rw [hs.unused k hk hl] at he
      cases he
  have hsub : ∀ b ∈ gained live p 9, b ∈
      gained (gained (gained (gained live p 9) stack 257) sidPtr 2) pstruct 2 :=
    fun b hb => mem_gained_of_mem _ _ (mem_gained_of_mem _ _ (mem_gained_of_mem _ _ hb))
  have hblocks' := blocks_gained (fun b hb => hsub b (mem_gained_of_mem p 9 hb)) hblocks
  have hsame : ∀ k, k < threadNum → (s.tasks.setObj (.at p) content).thread k = s.tasks.thread k :=
    fun k hk => Tasks.thread_setObj_of_ne _ (hout k hk)
  have hlive : ∀ k, (s.tasks.setObj (.at p) content).Live k ↔ s.tasks.Live k := by
    intro k
    by_cases hk : k < threadNum
    · simp only [Tasks.Live, hsame k hk]
    · simp [Tasks.Live, hk]
  rcases Tasks.threadRun_cases hout hcur content with ⟨hfull, hrun⟩ | ⟨i, hi, hdead, hmin, hrun⟩
  · rw [hrun, Option.map_some] at heq
    refine ⟨_, _, heq, ?_, rfl, rfl, fun i hi => hsame i hi.1, fun i hi => .inl ((hlive i).mp hi),
      fun i hi hdead => absurd (hfull i hi) hdead⟩
    have hmany : ¬ s.tasks.tidGlobal < threadNum := by
      have := (hs.slots 39 (by decide)).mp (hfull 39 (by decide))
      simp only [threadNum]
      omega
    refine ⟨hs.table.setObj_outside (by simp) hout content, hs.global_nonneg, hs.global_le,
      fun k hk => (hlive k).trans (hs.slots k hk), fun k hk hl => ?_, _, _, hw', fun k hk => ?_,
      fun hlt => absurd hlt hmany⟩
    · exact hs.unused k hk (fun h => hl ((hlive k).mpr h))
    · exact hblocks' k ((hlive k).mp hk)
  · rw [hrun, Option.map_some] at heq
    have hglobal : s.tasks.tidGlobal < threadNum := by
      have := mt (hs.slots i hi).mpr hdead
      omega
    obtain ⟨hrs, hroom''⟩ := hroom' (270 * (threadNum - (s.tasks.tidGlobal + 1)).toNat + 1) (by omega)
      ((hroom hglobal).mono (by omega))
    have hp : p ≠ 0 := by
      rintro rfl
      exact hrs (List.mem_cons_self ..)
    have hother : ∀ k, k < threadNum → k ≠ i → ((s.tasks.setObj (.at p) content).enter (.at p)
        .runnable i ptid).thread k = s.tasks.thread k :=
      fun k hk hne => (Tasks.thread_enter_other (s := s.tasks.setObj (.at p) content) hne
        (hout k hk)).trans (hsame k hk)
    refine ⟨_, _, heq, ?_, rfl, rfl, fun k hk => hother k hk.1 ?_, fun k hk => ?_, fun k hk hl hmin' => ?_⟩
    · refine hs.enter hout hp hi hdead hmin rfl hw' ⟨⟨p - blkSize, 9⟩, ?_, ?_⟩ hblocks' hroom''
      · exact hsub _ (mem_gained_self live 9 hp)
      · have := hpos hp
        dsimp only
        omega
    · rintro rfl
      exact hdead hk
    · rcases (Tasks.enter_live hout hi content).mp hk with rfl | hl
      · exact .inr (by rw [Kernel.setTasks]; dsimp only; rw [Tasks.thread_enter_self])
      · exact .inl hl
    · have hki : k = i := by
        rcases Nat.lt_trichotomy k i with hlt | heq | hgt
        · exact absurd (hmin k hlt) hl
        · exact heq
        · exact absurd (hmin' i hgt) hdead
      subst hki
      rw [Kernel.setTasks]
      dsimp only
      rw [Tasks.thread_enter_self]

end Kernel

end MinOS
