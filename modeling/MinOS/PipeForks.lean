import MinOS.SemaphoreQueues
import MinOS.ThreadForks

namespace MinOS

namespace Kernel

structure Paired (s : Kernel) (parent child ps sem : ℕ) : Prop where
  table : s.tasks.Consistent
  running : s.tasks.Running child
  ne : parent ≠ child
  lt : parent < threadNum
  runnable : (s.tasks.thread parent).state = .runnable
  pstruct_parent : (s.tasks.thread parent).pstruct = ps
  pstruct_child : (s.tasks.thread child).pstruct = ps
  sid_parent : s.sids (s.tasks.thread parent).sidPtr = sem
  sid_child : s.sids (s.tasks.thread child).sidPtr = sem
  empty : (s.pipes ps).pstate = .empty
  entry : ∃ que, sem < nsem ∧ s.semtable sem = ⟨sUsed, 0, ⟨0, 0, que⟩⟩

variable {s s₁ s₂ : Kernel} {t : ThreadPtr} {c : ℕ}

theorem genPipe_made {r : ℤ} (h : s.genPipe t = some (r, s₁)) (hr : r = 1) :
    ∃ ptr h', kmalloc s.heap npipeQueue = some (ptr, h') ∧ ptr ≠ 0 ∧ s₁.tasks = s.tasks ∧
      s₁.heap = h' ∧ s₁.threadExec = s.threadExec ∧
      s₁.pipes (s.tasks.obj t).pstruct = ⟨ptr, .empty⟩ ∧
      (s₁.sids (s.tasks.obj t).sidPtr ≠ -1 → ∃ (sem : ℕ) (que : ℤ → ℤ), sem < nsem ∧
        s₁.sids (s.tasks.obj t).sidPtr = sem ∧ s₁.semtable sem = ⟨sUsed, 0, ⟨0, 0, que⟩⟩) := by
  obtain ⟨⟨ptr, h'⟩, hk, hrest⟩ := Option.bind_eq_some_iff.mp h
  dsimp only at hrest
  by_cases h0 : ptr = 0
  · rw [if_pos h0, Option.some.injEq, Prod.mk.injEq] at hrest
    omega
  · rw [if_neg h0] at hrest
    generalize hu : ((s.setHeap h').setPipe _ _).setPipe _ _ = u at hrest
    have htasks : u.tasks = s.tasks := by
      rw [← hu]
      rfl
    have hheap : u.heap = h' := by
      rw [← hu]
      rfl
    have hexec : u.threadExec = s.threadExec := by
      rw [← hu]
      rfl
    have hpipe : u.pipes (s.tasks.obj t).pstruct = ⟨ptr, .empty⟩ := by
      rw [← hu]
      simp [setPipe]
    simp only [Option.some.injEq, Prod.mk.injEq] at hrest
    rcases u.createSem_cases 0 with hcreate | ⟨-, i, hi, -, que, hcreate⟩
    · rw [hcreate] at hrest
      obtain ⟨-, rfl⟩ := hrest
      refine ⟨ptr, h', hk, h0, htasks, hheap, hexec, hpipe, fun hne => ?_⟩
      exact absurd (by simp [setSid, htasks]) hne
    · rw [hcreate] at hrest
      obtain ⟨-, rfl⟩ := hrest
      refine ⟨ptr, h', hk, h0, htasks, hheap, hexec, hpipe, fun _ => ⟨i, que, hi, ?_, ?_⟩⟩
      · simp [setSid, setEntry, htasks]
      · exact semtable_setEntry_self u i _

theorem Stocked.fresh_of_answers {live live' : List Block} {p : ℕ}
    (hs : s.Stocked) (hblocks : ∀ i, s.tasks.Live i → ∃ b ∈ live, s.tasks.threads i = .at (b.addr + blkSize))
    (hsub : ∀ b ∈ live, b ∈ live') (hnew : ∀ b ∈ live', b.addr + blkSize ≠ p) (hp : p ≠ 0) :
    s.tasks.Fresh (.at p) := by
  refine ⟨by simp, by simpa using hp, fun i hi he => ?_⟩
  by_cases hl : s.tasks.Live i
  · obtain ⟨b, hb, hptr⟩ := hblocks i hl
    rw [he] at hptr
    exact hnew b (hsub b hb) (ThreadPtr.at.inj hptr).symm
  · rw [hs.unused i hi hl] at he
    cases he

theorem Stocked.paired {stack p : ℕ} {h : Heap} (hs : s.Stocked) (hcur : s.tasks.Running c)
    (hpipe : s.genPipe (s.tasks.threads c) = some (1, s₁))
    (hsid : s₁.sids (s.tasks.thread c).sidPtr ≠ -1)
    (hall : kmallocAll s₁.heap forkSizes = some ([stack, p], h)) (hp : p ≠ 0)
    (hfree : s.tasks.tidGlobal < threadNum) (hfork : s₁.forkThread = some s₂) :
    ∃ child sem, s₂.Paired c child (s.tasks.thread c).pstruct sem := by
  obtain ⟨ptr, h', hk, -, htasks, hheap, -, hstate, hsem⟩ := genPipe_made hpipe rfl
  obtain ⟨sem, que, hlt, hsem, hentry⟩ := hsem hsid
  obtain ⟨free, live, hw, hblocks, -⟩ := hs.heap
  obtain ⟨ptr', h'', free', hk', hw', -, -, -⟩ := hw.kmalloc_granted npipeQueue.toNat 257 (by decide) (by decide)
  obtain ⟨rfl, rfl⟩ : ptr' = ptr ∧ h'' = h' := by simpa [npipeQueue, hk] using hk'.symm.trans hk
  rw [hheap] at hall
  obtain ⟨-, -, hans⟩ := hw'.kmallocAll_answers (by decide) hall
  cases hans with
  | cons _ _ hans =>
  cases hans with
  | cons _ hnew _ =>
  have hfresh : s.tasks.Fresh (.at p) := hs.fresh_of_answers hblocks
    (fun b hb => mem_gained_of_mem _ _ (mem_gained_of_mem _ _ hb)) hnew hp
  have hself : s.tasks.setObj (.at p) (s.tasks.obj (.at p)) = s.tasks := by
    rw [Tasks.setObj, Function.update_eq_self]
  have hdead : ∃ k, k < threadNum ∧ ¬ s.tasks.Live k := by
    have h0 := hs.global_nonneg
    refine ⟨s.tasks.tidGlobal.toNat, by omega, fun hl => ?_⟩
    have := (hs.slots _ (by omega)).mp hl
    omega
  rw [← hheap] at hall
  rw [forkThread_eq hall] at hfork
  obtain ⟨tasks, htable, rfl⟩ := Option.map_eq_some_iff.mp hfork
  rw [htasks, ← hself] at htable
  obtain ⟨i, hforked⟩ := Tasks.forkThread_forked hs.table hcur.1 hcur.live hfresh hdead
    hs.global_nonneg (by have := hs.global_le; simp only [threadNum] at this; omega) htable
  have hci : c ≠ i := by
    rintro rfl
    exact hforked.dead hcur.live
  obtain ⟨hstate', -, -, -, hsid', hps'⟩ := Tasks.setCtid_fields (s.tasks.thread c) s.tasks.tidGlobal
  refine ⟨i, sem, ?_⟩
  constructor
  · exact hforked.consistent
  · exact ⟨hforked.cur, hforked.lt, by rw [setTasks, hforked.child]; rfl⟩
  · exact hci
  · exact hcur.2.1
  · rw [setTasks, hforked.parent, hstate']
    exact hcur.2.2
  · rw [setTasks, hforked.parent, hps']
  · rw [setTasks, hforked.child]
    rfl
  · rw [setTasks, hforked.parent, hsid']
    exact hsem
  · rw [setTasks, hforked.child]
    exact hsem
  · exact congrArg PipeStruct.pstate hstate
  · exact ⟨que, hlt, hentry⟩

def pipeFork (s : Kernel) : Option Kernel :=
  (s.genPipe (s.tasks.threads 0)).bind (fun x => x.2.forkThread)

def pipeKernel : Kernel := ((zeroKernel.boot 0x400000 ⟨0, 0, 0⟩).bind pipeFork).get (by decide +kernel)

theorem pipeKernel_paired : pipeKernel.Paired 0 1 0x7fef30 0 := by
  have hkernel : (zeroKernel.boot 0x400000 ⟨0, 0, 0⟩).bind pipeFork = some pipeKernel :=
    (Option.some_get _).symm
  obtain ⟨s, hboot, hrest⟩ := Option.bind_eq_some_iff.mp hkernel
  obtain ⟨⟨r, s₁⟩, hpipe, hfork⟩ := Option.bind_eq_some_iff.mp hrest
  obtain ⟨s', hboot', hsound⟩ :=
    boot_sound (m := zeroKernel) (show 0x400000 % blkSize = 0 by decide) (by decide) ⟨0, 0, 0⟩
  obtain rfl := Option.some.inj (hboot'.symm.trans hboot)
  obtain ⟨c, hcur⟩ := hsound.running
  have hvals : (zeroKernel.boot 0x400000 ⟨0, 0, 0⟩).bind (fun s => (s.genPipe (s.tasks.threads 0)).bind
      (fun x => (kmallocAll x.2.heap forkSizes).map (fun y => (s.tasks.curThreadIndex, x.1,
        x.2.sids (s.tasks.thread 0).sidPtr, y.1, s.tasks.tidGlobal, (s.tasks.thread 0).pstruct)))) =
      some (0, 1, 0, [0x7fcf10, 0x7fce80], 1, 0x7fef30) := by decide +kernel
  rw [hboot, Option.bind_some, hpipe, Option.bind_some] at hvals
  obtain ⟨⟨rs, h⟩, hall, hvals⟩ := Option.map_eq_some_iff.mp hvals
  simp only [Prod.mk.injEq] at hvals
  obtain ⟨hcur0, rfl, hsid, rfl, hglobal, hps⟩ := hvals
  obtain rfl : c = 0 := by
    have := hcur.1
    omega
  obtain ⟨child, sem, hpaired⟩ := hsound.stocked.paired hcur hpipe (by rw [hsid]; decide) hall
    (by decide) (by rw [hglobal]; decide) hfork
  obtain rfl : child = 1 := by
    have hchild : pipeKernel.tasks.curThreadIndex = 1 := by decide +kernel
    have := hpaired.running.1
    omega
  obtain rfl : sem = 0 := by
    have hsem : pipeKernel.sids (pipeKernel.tasks.thread 1).sidPtr = 0 := by decide +kernel
    have := hpaired.sid_child
    omega
  rw [← hps]
  exact hpaired

end Kernel

end MinOS
