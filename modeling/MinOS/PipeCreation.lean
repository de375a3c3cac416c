import Mathlib.Data.Finset.Card
import MinOS.AllocationAnswers
import MinOS.Ownership

namespace MinOS

namespace Kernel

structure GotBoth (s t : Kernel) (live : List Block) (p : ThreadPtr) : Prop where
  buffer : ∃ b ∈ live, (t.pipes (s.tasks.obj p).pstruct).pipePtr = b.addr + blkSize ∧
    blkSize * (b.units - 1) = npipeQueue
  used : t.Used (t.sids (s.tasks.obj p).sidPtr)
  fresh : ¬ s.Used (t.sids (s.tasks.obj p).sidPtr)

def FreeSem (s : Kernel) : Prop := ∃ i : ℕ, i < nsem ∧ (s.semtable i).semstate = sFree

def GenPipeRight (s : Kernel) (live : List Block) (p : ThreadPtr) : Prop :=
  ∃ pipePtr h r t, kmalloc s.heap npipeQueue = some (pipePtr, h) ∧ s.genPipe p = some (r, t) ∧
    (r = 1 → s.GotBoth t (gained live pipePtr (nunits npipeQueue)) p) ∧
    (¬ (pipePtr ≠ 0 ∧ s.FreeSem) → r = 0 ∧ gained live pipePtr (nunits npipeQueue) = live ∧
      t.semtable = s.semtable ∧ t.sids (s.tasks.obj p).sidPtr = s.sids (s.tasks.obj p).sidPtr)

variable {s t : Kernel} {free live : List Block} {p : ThreadPtr} {pipePtr : ℕ} {h : Heap}

theorem createSem_of_freeSem (hfree : s.FreeSem) : ∃ i : ℕ, i < nsem ∧
    (s.semtable i).semstate = sFree ∧ ∃ que, s.createSem 0 =
      ((i : ℤ), s.setEntry i ⟨sUsed, 0, ⟨0, 0, que⟩⟩) := by
  obtain ⟨k, hk, hstate⟩ := hfree
  rcases s.createSem_cases 0 with hfull | ⟨-, hnew⟩
  · rcases s.newsem_cases with hnone | ⟨i, -, -, hnew⟩
    · exact absurd hstate (newsem_full hnone hk)
    · have hsid : (s.createSem 0).1 = i := by
        simp [createSem, hnew, show ¬ ((i : ℤ) < 0) by omega]
      rw [hfull] at hsid
      omega
  · exact hnew

theorem createSem_of_not_freeSem (hfree : ¬ s.FreeSem) : s.createSem 0 = (-1, s) := by
  rcases s.createSem_cases 0 with hfull | ⟨-, i, hi, hstate, -⟩
  · exact hfull
  · exact absurd ⟨i, hi, hstate⟩ hfree

def freeSems (s : Kernel) : Finset ℕ :=
  {i ∈ Finset.range nsem | (s.semtable i).semstate = sFree}

theorem freeSems_nonempty_iff : s.freeSems.Nonempty ↔ s.FreeSem := by
  simp only [Finset.Nonempty, freeSems, Finset.mem_filter, Finset.mem_range, FreeSem]

theorem card_freeSems_le_nsem (s : Kernel) : s.freeSems.card ≤ nsem :=
  (Finset.card_filter_le _ _).trans_eq (Finset.card_range nsem)

theorem freeSems_createSem (s : Kernel) : (s.createSem 0).2.freeSems.card ≤ s.freeSems.card - 1 := by
  by_cases hfree : s.FreeSem
  · obtain ⟨i, hi, hstate, que, hcreate⟩ := createSem_of_freeSem hfree
    have hmem : i ∈ s.freeSems := Finset.mem_filter.mpr ⟨Finset.mem_range.mpr hi, hstate⟩
    rw [hcreate, ← Finset.card_erase_of_mem hmem]
    apply Finset.card_le_card
    intro k hk
    obtain ⟨hlt, hk⟩ := Finset.mem_filter.mp hk
    by_cases hki : k = i
    · subst hki
      simp [setEntry, sFree, sUsed] at hk
    · rw [semtable_setEntry_of_ne _ (by exact_mod_cast hki)] at hk
      exact Finset.mem_erase.mpr ⟨hki, Finset.mem_filter.mpr ⟨hlt, hk⟩⟩
  · have hempty : s.freeSems = ∅ :=
      Finset.not_nonempty_iff_eq_empty.mp (mt freeSems_nonempty_iff.mp hfree)
    rw [createSem_of_not_freeSem hfree]
    simp [hempty]

theorem card_freeSems_le (s : Kernel) (l : List ℕ) :
    (l.foldl (fun s _ => (s.createSem 0).2) s).freeSems.card ≤ s.freeSems.card - l.length := by
  induction l generalizing s with
  | nil => exact le_rfl
  | cons _ l ih =>
    have hrest := ih (s.createSem 0).2
    have hone := freeSems_createSem s
    rw [List.foldl_cons, List.length_cons]
    omega

def piping (s : Kernel) (p : ThreadPtr) (pipePtr : ℕ) (h : Heap) : Kernel :=
  (s.setHeap h).setPipe (s.tasks.obj p).pstruct ⟨pipePtr, .empty⟩

theorem sids_setSid_self (s : Kernel) (q : ℕ) (sid : ℤ) : (s.setSid q sid).sids q = sid :=
  Function.update_self ..

theorem freeSem_piping : (s.piping p pipePtr h).FreeSem ↔ s.FreeSem := Iff.rfl

theorem genPipe_of_null (hk : kmalloc s.heap npipeQueue = some (0, h)) : s.genPipe p =
    some (0, (s.setHeap h).setPipe (s.tasks.obj p).pstruct
      { s.pipes (s.tasks.obj p).pstruct with pipePtr := 0 }) := by
  rw [genPipe, hk]
  rfl

theorem genPipe_of_block (hk : kmalloc s.heap npipeQueue = some (pipePtr, h)) (hr : pipePtr ≠ 0) :
    s.genPipe p = some (1, ((s.piping p pipePtr h).createSem 0).2.setSid (s.tasks.obj p).sidPtr
      ((s.piping p pipePtr h).createSem 0).1) := by
  have htasks := ((s.piping p pipePtr h).createSem_fields 0).1
  simp only [piping, setPipe, setHeap] at htasks ⊢
  simp [genPipe, hk, hr, setPipe, setHeap, htasks]

theorem GenPipeRight.room (hk : kmalloc s.heap npipeQueue = some (pipePtr, h)) (hr : pipePtr ≠ 0)
    (hright : s.GenPipeRight live p) : s.FreeSem := by
  obtain ⟨pipePtr', h', r, t, hk', hgen, -, hneither⟩ := hright
  obtain ⟨rfl, rfl⟩ := Prod.mk.inj (Option.some.inj (hk.symm.trans hk'))
  rw [genPipe_of_block hk hr] at hgen
  obtain ⟨rfl, -⟩ := Prod.mk.inj (Option.some.inj hgen)
  by_contra hfree
  exact absurd (hneither (fun h => hfree h.2)).1 (by decide)

/-- `gen_pipe` ignores the failure of `create_sem`, and nothing else is wrong with it. -/
theorem genPipe_right_iff (hw : WellFormed s.heap free live) : s.GenPipeRight live p ↔
    ¬ (∃ b ∈ free, roundUpBlock npipeQueue blkSize + 1 ≤ b.units) ∨ s.FreeSem := by
  obtain ⟨pipePtr, h, hk, hroom, hnull, hblock⟩ :=
    hw.kmalloc_answers (show 0 ≤ npipeQueue by decide) (by decide)
  rw [← hroom, not_not]
  constructor
  · intro hright
    by_cases hr : pipePtr = 0
    · exact .inl hr
    · exact .inr (hright.room hk hr)
  · intro hcond
    by_cases hr : pipePtr = 0
    · subst hr
      refine ⟨0, h, 0, _, hk, genPipe_of_null hk, fun h1 => absurd h1 (by decide), fun _ => ?_⟩
      exact ⟨rfl, if_pos rfl, rfl, rfl⟩
    · have hfree : s.FreeSem := hcond.resolve_left hr
      obtain ⟨-, -, -, free', hw', hcuts⟩ := hblock hr
      have hptr : pipePtr - blkSize + blkSize = pipePtr := by
        obtain ⟨as, b, bs, -, -, -, heq, -⟩ := hcuts
        rw [heq, Nat.add_sub_cancel]
      obtain ⟨i, hi, hstate, que, hcreate⟩ := createSem_of_freeSem (s := s.piping p pipePtr h) hfree
      refine ⟨pipePtr, h, 1, _, hk, genPipe_of_block hk hr, fun _ => ?_,
        fun hneither => absurd ⟨hr, hfree⟩ hneither⟩
      rw [hcreate]
      have hsid : (((s.piping p pipePtr h).setEntry i ⟨sUsed, 0, ⟨0, 0, que⟩⟩).setSid
          (s.tasks.obj p).sidPtr i).sids (s.tasks.obj p).sidPtr = i := sids_setSid_self ..
      constructor
      · have hlen : (blkSize : ℤ) * ((nunits npipeQueue : ℤ) - 1) = npipeQueue := by decide
        refine ⟨_, mem_gained_self live _ hr, ?_, hlen⟩
        dsimp only
        rw [hptr]
        simp [setSid, setEntry, piping, setPipe]
      · rw [hsid]
        refine ⟨not_isbadsem hi, ?_⟩
        rw [semtable_setSid, semtable_setEntry_self]
      · rw [hsid]
        rintro ⟨-, hused⟩
        exact absurd (hstate.symm.trans hused) (by decide)

theorem genPipe_right_iff_example : createdKernel.GenPipeRight created.live (.at 0x7fff80) := by
  obtain ⟨free, hw⟩ := created_owns.heap
  exact (genPipe_right_iff hw).mpr (.inr ⟨0, by decide, by decide +kernel⟩)

def semlessKernel : Kernel :=
  (List.range nsem).foldl (fun s _ => (s.createSem 0).2) createdKernel

theorem foldl_createSem_fields (s : Kernel) (l : List ℕ) :
    (l.foldl (fun s _ => (s.createSem 0).2) s).tasks = s.tasks ∧
      (l.foldl (fun s _ => (s.createSem 0).2) s).heap = s.heap := by
  induction l generalizing s with
  | nil => exact ⟨rfl, rfl⟩
  | cons _ l ih =>
    obtain ⟨htasks, hheap⟩ := ih (s.createSem 0).2
    obtain ⟨htasks', hheap', -⟩ := s.createSem_fields 0
    exact ⟨htasks.trans htasks', hheap.trans hheap'⟩

theorem semlessKernel_heap : semlessKernel.heap = createdKernel.heap := by
  rw [semlessKernel]
  exact (foldl_createSem_fields createdKernel (List.range nsem)).2

theorem semlessKernel_full : ¬ semlessKernel.FreeSem := by
  intro hfree
  have hpos := Finset.card_pos.mpr (freeSems_nonempty_iff.mpr hfree)
  have hle := card_freeSems_le createdKernel (List.range nsem)
  have hall := createdKernel.card_freeSems_le_nsem
  rw [← semlessKernel, List.length_range] at hle
  omega

/-- With no semaphore left `gen_pipe` returns 1, keeps the buffer and gives the pipe the semaphore
`-1`. -/
theorem genPipe_without_sem : ∃ t, semlessKernel.genPipe (.at 0x7fff80) = some (1, t) ∧
    t.sids (semlessKernel.tasks.obj (.at 0x7fff80)).sidPtr = -1 ∧
    ∀ live, ¬ semlessKernel.GenPipeRight live (.at 0x7fff80) := by
  have hblock : (kmalloc createdKernel.heap npipeQueue).map Prod.fst = some 0x7fdf20 := by
    decide +kernel
  obtain ⟨⟨pipePtr, h⟩, hk, rfl⟩ := Option.map_eq_some_iff.mp hblock
  rw [← semlessKernel_heap] at hk
  have hfull : ¬ (semlessKernel.piping (.at 0x7fff80) 0x7fdf20 h).FreeSem :=
    fun hfree => semlessKernel_full (freeSem_piping.mp hfree)
  refine ⟨_, genPipe_of_block hk (by decide), ?_, fun live hright => ?_⟩
  · rw [createSem_of_not_freeSem hfull]
    dsimp only
    exact sids_setSid_self _ _ _
  · exact semlessKernel_full (hright.room hk (by decide))

end Kernel

end MinOS
