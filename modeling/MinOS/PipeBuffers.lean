import MinOS.PipeCalls

namespace MinOS

open Library.Runs

namespace Owned

def Buffers (s : Owned) : Prop :=
  ∀ i, s.kernel.tasks.Live i → (s.kernel.tasks.thread i).pstruct ∈ s.piped →
    (s.kernel.pipes (s.kernel.tasks.thread i).pstruct).pipePtr ≠ 0 →
    s.HasBuffer (s.kernel.tasks.thread i).pstruct

structure KeepsPipes (s t : Owned) : Prop where
  pipes : ∀ j, t.kernel.tasks.Live j → (t.kernel.tasks.thread j).pstruct ∈ t.piped →
    ∃ i, s.kernel.tasks.Live i ∧ (s.kernel.tasks.thread i).pstruct = (t.kernel.tasks.thread j).pstruct ∧
      (s.kernel.tasks.thread i).pstruct ∈ s.piped ∧
      (t.kernel.pipes (s.kernel.tasks.thread i).pstruct).pipePtr =
        (s.kernel.pipes (s.kernel.tasks.thread i).pstruct).pipePtr
  live : ∀ b ∈ s.live, Held t.live (b.addr + blkSize) → b ∈ t.live

variable {s t : Owned} {c i : ℕ}

theorem Owns.held_pipe (h : s.Owns) (hi : s.kernel.tasks.Live i)
    (hpiped : (s.kernel.tasks.thread i).pstruct ∈ s.piped)
    (hptr : (s.kernel.pipes (s.kernel.tasks.thread i).pstruct).pipePtr ≠ 0) :
    Held s.live (s.kernel.pipes (s.kernel.tasks.thread i).pstruct).pipePtr := by
  obtain ⟨role, hrole⟩ := h.roles
  obtain ⟨p, hp⟩ := exists_at h.table hi
  exact ((hrole i p hi hp).pipe hpiped hptr).held

theorem Buffers.kept (hb : s.Buffers) (h : t.Owns) (hk : KeepsPipes s t) : t.Buffers := by
  intro j hj hpiped hptr
  have hheld := h.held_pipe hj hpiped hptr
  obtain ⟨i, hi, hsame, hpiped', hptr'⟩ := hk.pipes j hj hpiped
  rw [← hsame, hptr'] at hptr hheld
  obtain ⟨-, b, hmem, haddr, hunits⟩ := hb i hi hpiped' hptr
  rw [haddr] at hheld
  exact ⟨hpiped, b, hk.live b hmem hheld, by rw [← hsame, hptr', haddr], hunits⟩

theorem mem_gainedAll_of_mem {live : List Block} {b : Block} (sizes : List ℤ) (rs : List ℕ)
    (hb : b ∈ live) : b ∈ gainedAll live sizes rs := by
  induction sizes generalizing live rs with
  | nil => exact hb
  | cons size sizes ih =>
    cases rs with
    | nil => exact hb
    | cons r rs => exact ih rs (mem_gained_of_mem r _ hb)

theorem mem_of_mem_releaseAll {live : List Block} {b : Block} (ps : List ℕ)
    (hb : b ∈ ps.foldl release live) : b ∈ live := by
  induction ps generalizing live with
  | nil => exact hb
  | cons p ps ih => exact (List.mem_filter.mp (ih hb)).1

theorem Owns.mem_releaseAll {b : Block} (h : s.Owns) (ps : List ℕ) (hb : b ∈ s.live)
    (hheld : Held (ps.foldl release s.live) (b.addr + blkSize)) : b ∈ ps.foldl release s.live := by
  obtain ⟨free, hw⟩ := h.heap
  obtain ⟨b', hb', haddr⟩ := hheld
  rwa [← hw.eq_of_addr (mem_of_mem_releaseAll ps hb') hb (Nat.add_right_cancel haddr)]

theorem Owns.create_keeps {func : ThreadFunc} {t stack sidPtr pstruct : ℕ} {h' : Heap} {tid : ℤ}
    {k : Kernel} (h : s.Owns)
    (hall : kmallocAll s.kernel.heap threadSizes = some ([t, stack, sidPtr, pstruct], h'))
    (hcreate : s.kernel.createThread func = some (tid, k)) (h0 : 0 ∉ [t, stack, sidPtr, pstruct])
    (hlt : s.kernel.tasks.tidGlobal + 1 < 2 ^ 31) :
    KeepsPipes s ⟨k, gainedAll s.live threadSizes [t, stack, sidPtr, pstruct], s.piped \ {pstruct},
      s.calls, Function.update s.root s.kernel.tasks.tidGlobal s.kernel.tasks.tidGlobal⟩ := by
  refine ⟨?_, fun b hb _ => mem_gainedAll_of_mem _ _ hb⟩
  have hp := h.fresh_created hall h0
  obtain ⟨tasks, ptid, rfl, hcases⟩ := h.createThread_cases hall hcreate h0 hlt
  intro j hj hpiped
  have hptr : ∀ p, p ≠ pstruct → (Function.update s.kernel.pipes pstruct
      { s.kernel.pipes pstruct with pstate := .empty } p).pipePtr = (s.kernel.pipes p).pipePtr :=
    fun p hne => by rw [Function.update_of_ne hne]
  rcases hcases with rfl | ⟨i, hadd⟩
  · have hsame : (s.kernel.tasks.setObj (.at t)
        (s.kernel.genThread t stack sidPtr pstruct func)).thread j = s.kernel.tasks.thread j :=
      Tasks.thread_setObj_of_ne _ (hp.not_mem j hj.1)
    have hthread := congrArg Thread.pstruct hsame
    have hlive : s.kernel.tasks.Live j := ⟨hj.1, hsame ▸ hj.2⟩
    exact ⟨j, hlive, hthread.symm, hthread ▸ hpiped.1, hptr _ (hthread ▸ hpiped.2)⟩
  · by_cases hji : j = i
    · subst hji
      exact absurd (congrArg Thread.pstruct hadd.new) hpiped.2
    · have hl := ((hadd.live j).mp hj).resolve_left hji
      have hthread := congrArg Thread.pstruct (hadd.other j hl)
      exact ⟨j, hl, hthread.symm, hthread ▸ hpiped.1, hptr _ (hthread ▸ hpiped.2)⟩

theorem Owns.fork_keeps {stack t : ℕ} {h' : Heap} {k : Kernel} (h : s.Owns) (hcur : s.Current c)
    (hall : kmallocAll s.kernel.heap forkSizes = some ([stack, t], h'))
    (hfork : s.kernel.forkThread = some k) (h0 : 0 ∉ [stack, t])
    (hlt : s.kernel.tasks.tidGlobal + 1 < 2 ^ 31)
    (hfree : ∃ k, k < threadNum ∧ ¬ s.kernel.tasks.Live k) :
    KeepsPipes s ⟨k, gainedAll s.live forkSizes [stack, t], s.piped, s.calls,
      Function.update s.root s.kernel.tasks.tidGlobal (s.root (s.kernel.tasks.thread c).tid)⟩ := by
  refine ⟨?_, fun b hb _ => mem_gainedAll_of_mem _ _ hb⟩
  obtain ⟨tasks, i, rfl, hforked⟩ := h.forkThread_forked hcur hall hfork h0 hlt hfree
  intro j hj hpiped
  by_cases hji : j = i
  · subst hji
    have hthread : (tasks.thread j).pstruct = (s.kernel.tasks.thread c).pstruct := by
      simp [hforked.child, Tasks.childThread]
    exact ⟨c, hcur.2, hthread.symm, hthread ▸ hpiped, rfl⟩
  · have hl := ((hforked.live j).mp hj).resolve_left hji
    have hthread : (tasks.thread j).pstruct = (s.kernel.tasks.thread j).pstruct := by
      by_cases hjc : j = c
      · rw [hjc, hforked.parent]
        exact (Tasks.setCtid_fields ..).2.2.2.2.2
      · rw [hforked.other j hl hjc]
    exact ⟨j, hl, hthread.symm, hthread ▸ hpiped, rfl⟩

theorem Owns.finish_keeps {t : ℕ} {k : Kernel} (h : s.Owns) (hi : s.kernel.tasks.Live i)
    (ht : s.kernel.tasks.threads i = .at t) (hexit : s.kernel.threadExit t = some k)
    (hdelete : s.kernel.Deletable s.piped (s.kernel.tasks.thread i)) :
    KeepsPipes s ⟨k, (s.kernel.exitFrees t).foldl release s.live, s.piped,
      s.calls ++ freeCalls s.live (s.kernel.exitFrees t), s.root⟩ := by
  refine ⟨?_, fun b hb hheld => h.mem_releaseAll _ hb hheld⟩
  obtain ⟨hends, -, hpipes⟩ := Kernel.threadExit_cases hi ht hexit (fun h => (hdelete h).1)
  have hended := hends.ended h.table
  intro j hj hpiped
  obtain ⟨hl, hji⟩ := (hended.live j).mp hj
  have hthread : (k.tasks.thread j).pstruct = (s.kernel.tasks.thread j).pstruct := by
    rcases hended.thread hji with he | he
    · rw [he]
    · rw [he]
      exact (Tasks.clearCtid_fields ..).2.2.2.2.2
  exact ⟨j, hl, hthread.symm, hthread ▸ hpiped, congrArg PipeStruct.pipePtr (congrFun hpipes _)⟩

theorem Buffers.genPipe {pipePtr : ℕ} {h' : Heap} {r : ℤ} {k : Kernel} (hb : s.Buffers) (h : s.Owns)
    (hall : kmallocAll s.kernel.heap [npipeQueue] = some ([pipePtr], h'))
    (hgen : s.kernel.genPipe (s.kernel.tasks.threads i) = some (r, k)) :
    Buffers ⟨k, gainedAll s.live [npipeQueue] [pipePtr],
      insert (s.kernel.tasks.thread i).pstruct s.piped, s.calls, s.root⟩ := by
  obtain ⟨htasks, hheap, hself, hother⟩ := Kernel.genPipe_cases hall hgen
  obtain ⟨free, hw⟩ := h.heap
  obtain ⟨free', -, hans⟩ := hw.kmallocAll_answers (by decide) hall
  have hsize : (blkSize : ℤ) * (nunits npipeQueue - 1) = npipeQueue := by decide
  intro j hj hpiped hptr
  simp only [htasks] at hj hpiped hptr ⊢
  by_cases hp : (s.kernel.tasks.thread j).pstruct = (s.kernel.tasks.thread i).pstruct
  · have hpipe : (k.pipes (s.kernel.tasks.thread j).pstruct).pipePtr = pipePtr := hp ▸ hself
    rw [hpipe] at hptr
    cases hans with
    | cons hpos _ _ =>
      refine ⟨hpiped, ⟨pipePtr - blkSize, nunits npipeQueue⟩, mem_gained_self _ _ hptr, ?_, hsize⟩
      rw [hpipe]
      exact (Nat.sub_add_cancel (hpos hptr)).symm
  · have hold := hother _ hp
    rw [hold] at hptr
    obtain ⟨-, b, hmem, haddr, hunits⟩ := hb j hj (hpiped.resolve_left hp) hptr
    exact ⟨hpiped, b, mem_gainedAll_of_mem _ _ hmem, by rw [hold, haddr], hunits⟩

theorem Buffers.step {op : OwnOp} (hb : s.Buffers) (h : s.Owns) (hstep : OwnStep s op t)
    (hmeets : op.Meets s) : t.Buffers := by
  have ht := hstep.owns hmeets h
  cases hstep with
  | create hall hcreate =>
    exact hb.kept ht (h.create_keeps hall hcreate (hmeets.1.not_mem hall) hmeets.2)
  | genPipe _ hall hgen => exact hb.genPipe h hall hgen
  | fork hcur hall hfork =>
    exact hb.kept ht (h.fork_keeps hcur hall hfork (hmeets.1.not_mem hall) hmeets.2.1 hmeets.2.2)
  | finish hcur hhouse hptr hexit =>
    exact hb.kept ht (h.finish_keeps hhouse.1 hptr hexit (hmeets _ _ hcur hhouse).1)
  | schedule hi => exact hb.kept ht ⟨fun j hj hpiped => ⟨j, hj, rfl, hpiped, rfl⟩, fun b hb _ => hb⟩
  | other hk =>
    obtain ⟨htasks, -, hpipes⟩ := hk
    refine hb.kept ht ⟨fun j hj hpiped => ?_, fun b hb _ => hb⟩
    simp only [htasks] at hj hpiped ⊢
    exact ⟨j, hj, rfl, hpiped, hpipes _ hpiped⟩
  | stray hcur hnone =>
    obtain ⟨i, hhouse, -⟩ := h.housed _ hcur.2
    exact absurd hhouse (hnone i)

theorem Buffers.init (m : Kernel) (kheapStart : ℕ) : Buffers ⟨m.initKernel kheapStart, [], ∅, [], id⟩ :=
  fun i hi => absurd hi (Kernel.initKernel_dead m kheapStart i)

theorem hasBuffer_iff (hb : s.Buffers) (hi : s.kernel.tasks.Live i) :
    s.HasBuffer (s.kernel.tasks.thread i).pstruct ↔ (s.kernel.tasks.thread i).pstruct ∈ s.piped ∧
      (s.kernel.pipes (s.kernel.tasks.thread i).pstruct).pipePtr ≠ 0 := by
  constructor
  · rintro ⟨hpiped, b, -, haddr, -⟩
    exact ⟨hpiped, by rw [haddr]; exact Nat.succ_ne_zero _⟩
  · exact fun ⟨hpiped, hptr⟩ => hb i hi hpiped hptr

end Owned

/-- A call is safe exactly when it refuses, or has a buffer and the length fits. While pointers are
freed once, the buffer is there from the call of `gen_pipe` on. -/
theorem pipe_calls_safe {s : Owned} {m u : Core} {f : PipeFun} {buf n : ℕ} {t : ThreadPtr}
    (hk : m.kernel = s.kernel) (hcur : m.curThreadPtr = some (t, u)) :
    (PipeCallSafe s f buf n (m.pstruct t) m ↔
      ((m.pipe t).pstate = f.expects → s.HasBuffer (m.pstruct t) ∧ n ≤ npipeQueue)) ∧
    ∀ (m₀ : Kernel) (kheapStart : ℕ) (ops : List OwnOp) (c : ℕ), kheapStart % blkSize = 0 →
      m₀.heap.base < kheapStart →
      Run (fun s op t => OwnStep s op t ∧ op.Meets s) ⟨m₀.initKernel kheapStart, [], ∅, [], id⟩ ops s →
      m.kernel.tasks.Running c →
      (s.HasBuffer (m.pstruct t) ↔ m.pstruct t ∈ s.piped ∧ (m.pipe t).pipePtr ≠ 0) := by
  refine ⟨pipe_call_safe_iff hk hcur, fun m₀ kheapStart ops c hal hbase hrun hr => ?_⟩
  have hinit : (Owned.mk (m₀.initKernel kheapStart) [] ∅ [] id).Owns ∧ Owned.Buffers _ :=
    ⟨.init hal hbase, .init m₀ kheapStart⟩
  obtain ⟨howns, hbuffers⟩ := hrun.invariant (I := fun s => s.Owns ∧ s.Buffers) hinit
    (fun h hstep => ⟨hstep.1.owns hstep.2 h.1, h.2.step h.1 hstep.1 hstep.2⟩)
  have heq := Core.curThreadPtr_eq (hk ▸ howns.table) hr
  obtain ⟨rfl, -⟩ := Prod.mk.inj (Option.some.inj (hcur.symm.trans heq))
  rw [hk] at hr
  have hiff := Owned.hasBuffer_iff hbuffers hr.live
  rw [Core.pipe, Core.pstruct, hk]
  exact hiff

section Example

open Kernel

def quiet (k : Kernel) : Core := ⟨k, true, fun _ => 0⟩

theorem quiet_curThreadPtr {s : Owned} (h : s.Owns) (hr : s.kernel.tasks.Running 0) :
    (quiet s.kernel).curThreadPtr = some (s.kernel.tasks.threads 0, quiet s.kernel) :=
  Core.curThreadPtr_eq h.table hr

theorem pipe_calls_safe_example : piped.HasBuffer 0x7fef30 ∧
    PipeCallSafe piped .pwrite 0x2000 4096 0x7fef30 (quiet piped.kernel) := by
  have hrunning : piped.kernel.tasks.Running 0 := ⟨by decide +kernel, by decide, by decide +kernel⟩
  have hcur := quiet_curThreadPtr piped_owns hrunning
  have hps : (quiet piped.kernel).pstruct (piped.kernel.tasks.threads 0) = 0x7fef30 := by decide +kernel
  have hptr : ((quiet piped.kernel).pipe (piped.kernel.tasks.threads 0)).pipePtr ≠ 0 := by decide +kernel
  have hsame : (piped.kernel.tasks.thread 0).pstruct = (created.kernel.tasks.thread 0).pstruct := by
    decide +kernel
  have hbase : zeroKernel.heap.base < 0x400000 := by decide
  have hcalls : (PipeCallSafe piped .pwrite 0x2000 4096 _ (quiet piped.kernel) ↔ _) ∧ _ :=
    pipe_calls_safe rfl hcur
  obtain ⟨hsafe, hbuffer⟩ := hcalls
  have hhas := (hbuffer zeroKernel 0x400000 _ 0 (by decide) hbase
    (.cons ⟨empty_create, empty_create_meets⟩ (.single ⟨created_genPipe, trivial⟩)) hrunning).mpr
      ⟨.inl hsame, hptr⟩
  rw [hps] at hsafe hhas
  exact ⟨hhas, hsafe.mpr (fun _ => ⟨hhas, by decide⟩)⟩

/-- A message that is one byte longer overwrites the header of the next block, and a thread that has
not called `gen_pipe` can write. -/
theorem pwrite_overruns : Run OwnStep empty [.create ⟨0, 0, 0⟩, .genPipe 0] piped ∧
    PipePoint.Touches .pwrite 0x2000 4097 (quiet piped.kernel) 0x7fef20 ∧
    (∃ b ∈ piped.live, b.addr = 0x7fef20) ∧
    ¬ PipeCallSafe piped .pwrite 0x2000 4097 0x7fef30 (quiet piped.kernel) ∧
    Run OwnStep empty [.create ⟨0, 0, 0⟩] created ∧ ¬ created.HasBuffer 0x7fef30 ∧
    ¬ PipeCallSafe created .pwrite 0x2000 1 0x7fef30 (quiet created.kernel) := by
  have hrunning : piped.kernel.tasks.Running 0 := ⟨by decide +kernel, by decide, by decide +kernel⟩
  have hrunning' : created.kernel.tasks.Running 0 := ⟨by decide +kernel, by decide, by decide +kernel⟩
  have hcur := quiet_curThreadPtr piped_owns hrunning
  have hcur' := quiet_curThreadPtr created_owns hrunning'
  have hps : (quiet piped.kernel).pstruct (piped.kernel.tasks.threads 0) = 0x7fef30 := by decide +kernel
  have hps' : (quiet created.kernel).pstruct (created.kernel.tasks.threads 0) = 0x7fef30 := by
    decide +kernel
  have hstate : ((quiet piped.kernel).pipe (piped.kernel.tasks.threads 0)).pstate = .empty := by
    decide +kernel
  have hstate' : ((quiet created.kernel).pipe (created.kernel.tasks.threads 0)).pstate = .empty := by
    decide +kernel
  have hptr : ((quiet piped.kernel).pipe (piped.kernel.tasks.threads 0)).pipePtr = 0x7fdf20 := by
    decide +kernel
  have hnone : ¬ created.HasBuffer 0x7fef30 := fun h => h.1.2 rfl
  refine ⟨.cons empty_create (.single created_genPipe), ?_, by decide +kernel, ?_, .single empty_create,
    hnone, ?_⟩
  · exact (PipePoint.touches_iff hcur).mpr ⟨hstate, 4096, by decide, by rw [hptr]⟩
  · intro hsafe
    have hiff : PipeCallSafe piped .pwrite 0x2000 4097 _ (quiet piped.kernel) ↔ _ :=
      pipe_call_safe_iff rfl hcur
    rw [hps] at hiff
    exact absurd (hiff.mp hsafe hstate).2 (by decide)
  · intro hsafe
    have hiff : PipeCallSafe created .pwrite 0x2000 1 _ (quiet created.kernel) ↔ _ :=
      pipe_call_safe_iff rfl hcur'
    rw [hps'] at hiff
    exact hnone (hiff.mp hsafe hstate').1

end Example

end MinOS
