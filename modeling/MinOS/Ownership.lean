import MinOS.Boot
import MinOS.Releases
import MinOS.SemaphoreCalls
import MinOS.ThreadForks

namespace MinOS

open Library.Runs

namespace Kernel

variable {s k : Kernel} {t : ℕ}

/-- What `thread_exec` and `thread_end` pass to `kfree` for the thread `t`, in this order. -/
def exitFrees (s : Kernel) (t : ℕ) : List ℕ :=
  (s.tasks.obj (.at t)).stack ::
    (if s.getSemcount (s.sids (s.tasks.obj (.at t)).sidPtr) = 0 then
      [(s.pipes (s.tasks.obj (.at t)).pstruct).pipePtr, (s.tasks.obj (.at t)).pstruct] else []) ++
    [(s.tasks.obj (.at t)).sidPtr, t]

def Deletable (s : Kernel) (piped : Set ℕ) (x : Thread) : Prop :=
  s.getSemcount (s.sids x.sidPtr) = 0 → ¬ isbadsem (s.sids x.sidPtr) ∧ x.pstruct ∈ piped ∧
    (s.pipes x.pstruct).pipePtr ≠ 0

theorem free_eq_some {p : ℕ} : s.free p = some k ↔ ∃ h, kfree s.heap p = some h ∧ s.setHeap h = k := by
  simp [free]

theorem freeAll_eq (ps : List ℕ) : ps.foldlM free s = (ps.foldlM kfree s.heap).map s.setHeap := by
  induction ps generalizing s with
  | nil => rfl
  | cons p ps ih =>
    rw [List.foldlM_cons, List.foldlM_cons, free]
    cases kfree s.heap p with
    | none => rfl
    | some h => exact ih

theorem mem_exitFrees {p : ℕ} (hp : p ∈ s.exitFrees t) : p = (s.tasks.obj (.at t)).stack ∨
    s.getSemcount (s.sids (s.tasks.obj (.at t)).sidPtr) = 0 ∧
      p = (s.pipes (s.tasks.obj (.at t)).pstruct).pipePtr ∨
    p = (s.tasks.obj (.at t)).pstruct ∨ p = (s.tasks.obj (.at t)).sidPtr ∨ p = t := by
  rw [exitFrees] at hp
  split_ifs at hp with hcount
  · simp only [List.mem_append, List.mem_cons, List.not_mem_nil, or_false] at hp
    tauto
  · simp only [List.mem_append, List.mem_cons, List.not_mem_nil, or_false] at hp
    tauto

theorem threadExit_cases {i : ℕ} (hi : s.tasks.Live i) (ht : s.tasks.threads i = .at t)
    (h : s.threadExit t = some k)
    (hgood : s.getSemcount (s.sids (s.tasks.thread i).sidPtr) = 0 →
      ¬ isbadsem (s.sids (s.tasks.thread i).sidPtr)) :
    s.tasks.EndsAt i k.tasks ∧
      (s.exitFrees t).foldlM kfree s.heap = some k.heap ∧ k.pipes = s.pipes := by
  have hobj : s.tasks.thread i = s.tasks.obj (.at t) := by rw [Tasks.thread, ht]
  rw [hobj] at hgood
  obtain ⟨s₁, hstack, h⟩ := Option.bind_eq_some_iff.mp h
  obtain ⟨h₁, hk₁, rfl⟩ := free_eq_some.mp hstack
  obtain ⟨tasks, htasks, h⟩ := Option.bind_eq_some_iff.mp h
  have hrest : ((if s.getSemcount (s.sids (s.tasks.obj (.at t)).sidPtr) = 0 then
      [(s.pipes (s.tasks.obj (.at t)).pstruct).pipePtr, (s.tasks.obj (.at t)).pstruct] else []) ++
      [(s.tasks.obj (.at t)).sidPtr, t]).foldlM free ((s.setHeap h₁).setTasks tasks) = some k := by
    by_cases hcount : s.getSemcount (s.sids (s.tasks.obj (.at t)).sidPtr) = 0
    · replace h := (if_pos hcount).symm.trans h
      have hdelete : ((s.setHeap h₁).setTasks tasks).deleteSem (((s.setHeap h₁).setTasks tasks).sids
          ((s.setHeap h₁).tasks.obj (.at t)).sidPtr) = (0, (s.setHeap h₁).setTasks tasks) :=
        deleteSem_of_good (hgood hcount) _
      rw [hdelete] at h
      rw [if_pos hcount]
      simp only [List.cons_append, List.nil_append, List.foldlM_cons, List.foldlM_nil, bind_pure]
      exact h
    · replace h := (if_neg hcount).symm.trans h
      rw [if_neg hcount]
      simp only [List.nil_append, List.foldlM_cons, List.foldlM_nil, bind_pure]
      exact h
  rw [freeAll_eq, Option.map_eq_some_iff] at hrest
  obtain ⟨h₂, hk₂, rfl⟩ := hrest
  refine ⟨⟨hi, ht.symm ▸ htasks⟩, ?_, rfl⟩
  rw [exitFrees, List.cons_append, List.foldlM_cons, hk₁]
  exact hk₂

theorem genPipe_cases {p : ThreadPtr} {pipePtr : ℕ} {h : Heap} {r : ℤ}
    (hall : kmallocAll s.heap [npipeQueue] = some ([pipePtr], h)) (hgen : s.genPipe p = some (r, k)) :
    k.tasks = s.tasks ∧ k.heap = h ∧ (k.pipes (s.tasks.obj p).pstruct).pipePtr = pipePtr ∧
      ∀ q, q ≠ (s.tasks.obj p).pstruct → k.pipes q = s.pipes q := by
  obtain ⟨h₁, hk, hall⟩ := kmallocAll_cons.mp hall
  obtain rfl : h₁ = h := congrArg Prod.snd (Option.some.inj hall)
  simp only [genPipe, hk, Option.bind_eq_bind, Option.bind_some] at hgen
  split_ifs at hgen with hnull
  · obtain ⟨-, rfl⟩ := Prod.mk.inj (Option.some.inj hgen)
    exact ⟨rfl, rfl, by simp [setPipe], fun q hq => Function.update_of_ne hq ..⟩
  · obtain ⟨-, rfl⟩ := Prod.mk.inj (Option.some.inj hgen)
    obtain ⟨htasks, hheap, hpipes⟩ := createSem_fields (((s.setHeap h₁).setPipe (s.tasks.obj p).pstruct
      { s.pipes (s.tasks.obj p).pstruct with pipePtr := pipePtr }).setPipe (s.tasks.obj p).pstruct
        { ((s.setHeap h₁).setPipe (s.tasks.obj p).pstruct { s.pipes (s.tasks.obj p).pstruct with
          pipePtr := pipePtr }).pipes (s.tasks.obj p).pstruct with pstate := .empty }) 0
    refine ⟨htasks, hheap, ?_, fun q hq => ?_⟩
    · rw [setSid, hpipes]
      simp [setPipe]
    · rw [setSid, hpipes]
      simp [setPipe, setHeap, hq]

end Kernel

structure Owned where
  kernel : Kernel
  live : List Block
  piped : Set ℕ
  calls : List FreeCall
  root : ℤ → ℤ

inductive OwnOp where
  | create (func : ThreadFunc)
  | genPipe (i : ℕ)
  | fork
  | finish
  | schedule (i : ℕ)
  | other
  | stray

namespace Owned

def Current (s : Owned) (c : ℕ) : Prop := s.kernel.tasks.curThreadIndex = c ∧ s.kernel.tasks.Live c

/-- What runs in between leaves the threads, the pointers to the buffers of the pipes and the
headers of the heap alone. -/
structure Between (s : Owned) (k : Kernel) : Prop where
  tasks : k.tasks = s.kernel.tasks
  heap : ∃ mem, k.heap = { s.kernel.heap with mem := mem } ∧
    ∀ a, mem a ≠ s.kernel.heap.mem a → (Arena.mk s.kernel.heap s.live).Payload a
  pipes : ∀ p ∈ s.piped, (k.pipes p).pipePtr = (s.kernel.pipes p).pipePtr

end Owned

open Kernel in
/-- A thread that ends frees the stack and the structure that the frame of `thread_exec` names. Once
that frame is on a freed stack, a thread may do anything. -/
inductive OwnStep : Owned → OwnOp → Owned → Prop
  | create {s : Owned} {func : ThreadFunc} {t stack sidPtr pstruct : ℕ} {h : Heap} {tid : ℤ}
      {k : Kernel} : kmallocAll s.kernel.heap threadSizes = some ([t, stack, sidPtr, pstruct], h) →
      s.kernel.createThread func = some (tid, k) → OwnStep s (.create func)
        ⟨k, gainedAll s.live threadSizes [t, stack, sidPtr, pstruct], s.piped \ {pstruct}, s.calls,
          Function.update s.root s.kernel.tasks.tidGlobal s.kernel.tasks.tidGlobal⟩
  | genPipe {s : Owned} {i pipePtr : ℕ} {h : Heap} {r : ℤ} {k : Kernel} : s.kernel.tasks.Live i →
      kmallocAll s.kernel.heap [npipeQueue] = some ([pipePtr], h) →
      s.kernel.genPipe (s.kernel.tasks.threads i) = some (r, k) → OwnStep s (.genPipe i)
        ⟨k, gainedAll s.live [npipeQueue] [pipePtr],
          insert (s.kernel.tasks.thread i).pstruct s.piped, s.calls, s.root⟩
  | fork {s : Owned} {c stack t : ℕ} {h : Heap} {k : Kernel} : s.Current c →
      kmallocAll s.kernel.heap forkSizes = some ([stack, t], h) → s.kernel.forkThread = some k →
      OwnStep s .fork ⟨k, gainedAll s.live forkSizes [stack, t], s.piped, s.calls,
        Function.update s.root s.kernel.tasks.tidGlobal (s.root (s.kernel.tasks.thread c).tid)⟩
  | finish {s : Owned} {i c t : ℕ} {k : Kernel} : s.Current c → s.kernel.tasks.Houses s.root i c →
      s.kernel.tasks.threads i = .at t → s.kernel.threadExit t = some k → OwnStep s .finish
        ⟨k, (s.kernel.exitFrees t).foldl release s.live, s.piped,
          s.calls ++ freeCalls s.live (s.kernel.exitFrees t), s.root⟩
  | schedule {s : Owned} {i : ℕ} : s.kernel.tasks.Live i → OwnStep s (.schedule i)
      { s with kernel := s.kernel.setTasks { s.kernel.tasks with curThreadIndex := i } }
  | other {s : Owned} {k : Kernel} : s.Between k → OwnStep s .other { s with kernel := k }
  | stray {s t : Owned} {c : ℕ} : s.Current c → (∀ i, ¬ s.kernel.tasks.Houses s.root i c) →
      OwnStep s .stray t

/-- New threads get their blocks, a tid and, if they are forked, an entry of the table. The structure
that `thread_exec` frees shares its semaphore with no other thread; if the counter of that is zero, it
must have a pipe. -/
def OwnOp.Meets (s : Owned) : OwnOp → Prop
  | .create _ => Answered s.kernel.heap threadSizes ∧ s.kernel.tasks.tidGlobal + 1 < 2 ^ 31
  | .fork => Answered s.kernel.heap forkSizes ∧ s.kernel.tasks.tidGlobal + 1 < 2 ^ 31 ∧
      ∃ k, k < threadNum ∧ ¬ s.kernel.tasks.Live k
  | .finish => ∀ c i, s.Current c → s.kernel.tasks.Houses s.root i c →
      s.kernel.Deletable s.piped (s.kernel.tasks.thread i) ∧
      ∀ k, s.kernel.tasks.Live k → k ≠ i →
        (s.kernel.tasks.thread k).sidPtr ≠ (s.kernel.tasks.thread i).sidPtr
  | _ => True

structure Assets (live : List Block) (piped : Set ℕ) (pipes : ℕ → PipeStruct) (role : ℕ → Role)
    (t : ℕ) (x : Thread) : Prop where
  thread : Has live role t .thread
  stack : Has live role x.stack (.stack t)
  sid : Has live role x.sidPtr .sid
  pstruct : Has live role x.pstruct (.pstruct x.sidPtr)
  pipe : x.pstruct ∈ piped → (pipes x.pstruct).pipePtr ≠ 0 →
    Has live role (pipes x.pstruct).pipePtr (.pipe x.pstruct)

namespace Assets

variable {live : List Block} {piped piped' : Set ℕ} {pipes pipes' : ℕ → PipeStruct} {role : ℕ → Role}
  {t t' : ℕ} {x y : Thread} {sizes : List ℤ} {rs ps : List ℕ}

theorem of_fields (h : Assets live piped pipes role t x)
    (hy : y.stack = x.stack ∧ y.sidPtr = x.sidPtr ∧ y.pstruct = x.pstruct) :
    Assets live piped pipes role t y := by
  obtain ⟨hstack, hsid, hpstruct⟩ := hy
  constructor
  · exact h.thread
  · rw [hstack]
    exact h.stack
  · rw [hsid]
    exact h.sid
  · rw [hpstruct, hsid]
    exact h.pstruct
  · rw [hpstruct]
    exact h.pipe

theorem kept (h : Assets live piped pipes role t x) (xs : List Role) (hans : Answers live sizes rs) :
    Assets (gainedAll live sizes rs) piped pipes (assign role rs xs) t x where
  thread := h.thread.kept xs hans
  stack := h.stack.kept xs hans
  sid := h.sid.kept xs hans
  pstruct := h.pstruct.kept xs hans
  pipe := fun hp hne => (h.pipe hp hne).kept xs hans

theorem of_pipes (h : Assets live piped pipes role t x) (hpiped : x.pstruct ∈ piped' → x.pstruct ∈ piped)
    (hpipes : x.pstruct ∈ piped' → (pipes' x.pstruct).pipePtr = (pipes x.pstruct).pipePtr) :
    Assets live piped' pipes' role t x where
  thread := h.thread
  stack := h.stack
  sid := h.sid
  pstruct := h.pstruct
  pipe := by
    intro hp hne
    rw [hpipes hp] at hne ⊢
    exact h.pipe (hpiped hp) hne

theorem created {stack sidPtr pstruct : ℕ}
    (hans : Answers live threadSizes [t, stack, sidPtr, pstruct])
    (h0 : 0 ∉ [t, stack, sidPtr, pstruct])
    (hx : x.stack = stack ∧ x.sidPtr = sidPtr ∧ x.pstruct = pstruct) :
    Assets (gainedAll live threadSizes [t, stack, sidPtr, pstruct]) (piped \ {pstruct}) pipes
      (assign role [t, stack, sidPtr, pstruct] [.thread, .stack t, .sid, .pstruct sidPtr]) t x := by
  obtain ⟨rfl, rfl, rfl⟩ := hx
  simp only [List.mem_cons, List.not_mem_nil, not_or, eq_comm] at h0
  obtain ⟨ht, hstack, hsid, hpstruct, -⟩ := h0
  cases hans with
  | cons hpos₁ _ hans₁ =>
  cases id hans₁ with
  | cons hpos₂ _ hans₂ =>
  cases id hans₂ with
  | cons hpos₃ _ hans₃ =>
  cases id hans₃ with
  | cons hpos₄ _ hans₄ =>
  constructor
  · exact (Has.new ht hpos₁).kept [.stack t, .sid, .pstruct x.sidPtr] hans₁
  · exact (Has.new hstack hpos₂).kept [.sid, .pstruct x.sidPtr] hans₂
  · exact (Has.new hsid hpos₃).kept [.pstruct x.sidPtr] hans₃
  · exact Has.new hpstruct hpos₄
  · intro hp _
    exact absurd rfl hp.2

theorem forked {stack : ℕ} (hans : Answers live forkSizes [stack, t])
    (h0 : 0 ∉ [stack, t]) (h : Assets live piped pipes role t' y)
    (hx : x.stack = stack ∧ x.sidPtr = y.sidPtr ∧ x.pstruct = y.pstruct) :
    Assets (gainedAll live forkSizes [stack, t]) piped pipes
      (assign role [stack, t] [.stack t, .thread]) t x := by
  have hold : Assets _ piped pipes (assign role [stack, t] [.stack t, .thread]) t' y := h.kept _ hans
  obtain ⟨rfl, hsid, hpstruct⟩ := hx
  simp only [List.mem_cons, List.not_mem_nil, not_or, eq_comm] at h0
  obtain ⟨hstack, ht, -⟩ := h0
  cases hans with
  | cons hpos₁ _ hans₁ =>
  cases id hans₁ with
  | cons hpos₂ _ hans₂ =>
  constructor
  · exact Has.new ht hpos₂
  · exact (Has.new hstack hpos₁).kept [.thread] hans₁
  · rw [hsid]
    exact hold.sid
  · rw [hsid, hpstruct]
    exact hold.pstruct
  · rw [hpstruct]
    exact hold.pipe

theorem releaseAll (h : Assets live piped pipes role t x) (hps : ∀ p ∈ ps, role p ≠ .stack t ∧
    role p ≠ .pstruct x.sidPtr ∧ role p ≠ .pipe x.pstruct ∧ p ≠ t ∧ p ≠ x.sidPtr) :
    Assets (ps.foldl release live) piped pipes role t x where
  thread := h.thread.releaseAll (fun hp => (hps t hp).2.2.2.1 rfl)
  stack := h.stack.releaseAll (fun hp => (hps _ hp).1 h.stack.role)
  sid := h.sid.releaseAll (fun hp => (hps _ hp).2.2.2.2 rfl)
  pstruct := h.pstruct.releaseAll (fun hp => (hps _ hp).2.1 h.pstruct.role)
  pipe := fun hp hne => (h.pipe hp hne).releaseAll (fun hmem => (hps _ hmem).2.2.1 (h.pipe hp hne).role)

end Assets

namespace Tasks

variable {s t : Tasks} {i c : ℕ} {p : ThreadPtr} {root : ℤ → ℤ} {x : Thread}

def Housed (s : Tasks) (root : ℤ → ℤ) : Prop :=
  ∀ c, s.Live c → ∃ i, s.Houses root i c ∧ (s.thread i).sidPtr = (s.thread c).sidPtr

theorem Housed.grow {v : ℤ} (h : s.Housed root) (hc : s.Consistent) (hlive : ∀ k, s.Live k → t.Live k)
    (hkept : ∀ k, s.Live k →
      (t.thread k).tid = (s.thread k).tid ∧ (t.thread k).sidPtr = (s.thread k).sidPtr)
    (hnew : ∀ c, t.Live c → ¬ s.Live c → ∃ i, t.Houses (Function.update root s.tidGlobal v) i c ∧
      (t.thread i).sidPtr = (t.thread c).sidPtr) :
    t.Housed (Function.update root s.tidGlobal v) := by
  intro c hl
  by_cases hold : s.Live c
  · obtain ⟨i, ⟨hi, hroot⟩, hsid⟩ := h c hold
    have hlt := hc.tid_lt c hold
    obtain ⟨htidc, hsidc⟩ := hkept c hold
    obtain ⟨htidi, hsidi⟩ := hkept i hi
    refine ⟨i, ⟨hlive i hi, ?_⟩, by rw [hsidi, hsidc, hsid]⟩
    rw [htidi, htidc, Function.update_of_ne hlt.ne, hroot]
  · exact hnew c hl hold

theorem Housed.added (h : s.Housed root) (hc : s.Consistent) (hadd : Added s t p i x)
    (htid : x.tid = s.tidGlobal) : t.Housed (Function.update root s.tidGlobal s.tidGlobal) := by
  refine h.grow hc (fun k hk => (hadd.live k).mpr (.inr hk)) (fun k hk => ?_) (fun k hk hold => ?_)
  · rw [hadd.other k hk]
    exact ⟨rfl, rfl⟩
  · obtain rfl := ((hadd.live k).mp hk).resolve_right hold
    have hself : (t.thread k).tid = s.tidGlobal := by rw [hadd.new, htid]
    exact ⟨k, ⟨hk, by rw [hself, Function.update_self]⟩, rfl⟩

theorem Housed.forked (h : s.Housed root) (hc : s.Consistent) (hl : s.Live c)
    (hfork : Forked s t p c i x) (htid : x.tid = s.tidGlobal) (hsid : x.sidPtr = (s.thread c).sidPtr) :
    t.Housed (Function.update root s.tidGlobal (root (s.thread c).tid)) := by
  have hkept : ∀ k, s.Live k →
      (t.thread k).tid = (s.thread k).tid ∧ (t.thread k).sidPtr = (s.thread k).sidPtr := by
    intro k hk
    by_cases hkc : k = c
    · rw [hkc, hfork.parent]
      exact ⟨(setCtid_fields ..).2.2.1, (setCtid_fields ..).2.2.2.2.1⟩
    · rw [hfork.other k hk hkc]
      exact ⟨rfl, rfl⟩
  refine h.grow hc (fun k hk => (hfork.live k).mpr (.inr hk)) hkept (fun k hk hold => ?_)
  obtain rfl := ((hfork.live k).mp hk).resolve_right hold
  obtain ⟨j, ⟨hj, hroot⟩, hsidj⟩ := h c hl
  refine ⟨j, ⟨(hfork.live j).mpr (.inr hj), ?_⟩, ?_⟩
  · rw [(hkept j hj).1, hfork.child, htid, Function.update_self, hroot]
  · rw [(hkept j hj).2, hfork.child, hsid, hsidj]

theorem Housed.ended (h : s.Housed root) (hend : Ended s t i)
    (hshare : ∀ k, s.Live k → k ≠ i → (s.thread k).sidPtr ≠ (s.thread i).sidPtr) : t.Housed root := by
  intro c hc
  obtain ⟨hl, hci⟩ := (hend.live c).mp hc
  obtain ⟨j, ⟨hj, hroot⟩, hsid⟩ := h c hl
  have hji : j ≠ i := by
    rintro rfl
    exact hshare c hl hci hsid.symm
  have hsame : ∀ k, k ≠ i → (t.thread k).sidPtr = (s.thread k).sidPtr := by
    intro k hk
    rcases hend.thread hk with he | he
    · rw [he]
    · rw [he]
      exact (clearCtid_fields ..).2.2.2.2.1
  refine ⟨j, ⟨(hend.live j).mpr ⟨hj, hji⟩, ?_⟩, ?_⟩
  · rw [hend.tid hji, hend.tid hci, hroot]
  · rw [hsame j hji, hsame c hci, hsid]

end Tasks

namespace Owned

structure Owns (s : Owned) : Prop where
  table : s.kernel.tasks.Consistent
  global_nonneg : 0 ≤ s.kernel.tasks.tidGlobal
  heap : ∃ free, WellFormed s.kernel.heap free s.live
  roles : ∃ role, ∀ i t, s.kernel.tasks.Live i → s.kernel.tasks.threads i = .at t →
    Assets s.live s.piped s.kernel.pipes role t (s.kernel.tasks.thread i)
  housed : s.kernel.tasks.Housed s.root
  unused : ∀ i, i < threadNum → ¬ s.kernel.tasks.Live i → s.kernel.tasks.threads i = .emptyThread
  cur : ∃ c : ℕ, c < threadNum ∧ s.kernel.tasks.curThreadIndex = c
  calls : ∀ c ∈ s.calls, Held c.live c.ptr

variable {s t : Owned} {c i : ℕ} {op : OwnOp}

theorem Current.eq {k : ℕ} (h : s.Current c) (h' : s.Current k) : c = k := by
  exact_mod_cast h.1.symm.trans h'.1

theorem exists_at (hc : s.kernel.tasks.Consistent) (hi : s.kernel.tasks.Live i) :
    ∃ p, s.kernel.tasks.threads i = .at p := by
  cases hptr : s.kernel.tasks.threads i with
  | emptyThread => exact absurd hptr (hc.ptr_ne hi)
  | «at» p => exact ⟨p, rfl⟩

theorem Owns.schedule (h : s.Owns) (hi : s.kernel.tasks.Live i) :
    Owns { s with kernel := s.kernel.setTasks { s.kernel.tasks with curThreadIndex := i } } where
  table := h.table.schedule i
  global_nonneg := h.global_nonneg
  heap := h.heap
  roles := h.roles
  housed := h.housed
  unused := h.unused
  cur := ⟨i, hi.1, rfl⟩
  calls := h.calls

theorem Owns.other {k : Kernel} (h : s.Owns) (hk : s.Between k) : Owns { s with kernel := k } := by
  obtain ⟨htasks, ⟨mem, hheap, hmem⟩, hpipes⟩ := hk
  obtain ⟨free, hw⟩ := h.heap
  obtain ⟨role, hrole⟩ := h.roles
  constructor
  · exact htasks ▸ h.table
  · exact htasks ▸ h.global_nonneg
  · refine ⟨free, ?_⟩
    rw [hheap]
    exact hw.write (s := ⟨s.kernel.heap, s.live⟩) hmem
  · refine ⟨role, ?_⟩
    simp only [htasks]
    exact fun i t hi hptr => (hrole i t hi hptr).of_pipes id (hpipes _)
  · exact htasks ▸ h.housed
  · exact htasks ▸ h.unused
  · exact htasks ▸ h.cur
  · exact h.calls

theorem Owns.genPipe {pipePtr : ℕ} {h' : Heap} {r : ℤ} {k : Kernel} (h : s.Owns)
    (hall : kmallocAll s.kernel.heap [npipeQueue] = some ([pipePtr], h'))
    (hgen : s.kernel.genPipe (s.kernel.tasks.threads i) = some (r, k)) :
    Owns ⟨k, gainedAll s.live [npipeQueue] [pipePtr],
      insert (s.kernel.tasks.thread i).pstruct s.piped, s.calls, s.root⟩ := by
  obtain ⟨htasks, hheap, hself, hother⟩ := Kernel.genPipe_cases hall hgen
  obtain ⟨free, hw⟩ := h.heap
  obtain ⟨free', hw', hans⟩ := hw.kmallocAll_answers (by decide) hall
  obtain ⟨role, hrole⟩ := h.roles
  constructor
  · exact htasks ▸ h.table
  · exact htasks ▸ h.global_nonneg
  · exact ⟨free', hheap ▸ hw'⟩
  · refine ⟨assign role [pipePtr] [.pipe (s.kernel.tasks.thread i).pstruct], ?_⟩
    simp only [htasks]
    intro j t hj hptr
    have hold := (hrole j t hj hptr).kept [.pipe (s.kernel.tasks.thread i).pstruct] hans
    by_cases hp : (s.kernel.tasks.thread j).pstruct = (s.kernel.tasks.thread i).pstruct
    · refine ⟨hold.thread, hold.stack, hold.sid, hold.pstruct, fun _ hne => ?_⟩
      have hpipe : (k.pipes (s.kernel.tasks.thread j).pstruct).pipePtr = pipePtr := hp ▸ hself
      rw [hpipe] at hne ⊢
      rw [hp]
      cases hans with
      | cons hpos _ _ => exact Has.new hne hpos
    · exact hold.of_pipes (fun hmem => hmem.resolve_left hp) (fun _ => by rw [hother _ hp])
  · exact htasks ▸ h.housed
  · exact htasks ▸ h.unused
  · exact htasks ▸ h.cur
  · exact h.calls

theorem Owns.fresh {p : ℕ} (h : s.Owns) (h0 : p ≠ 0) (hnew : ¬ Held s.live p) :
    s.kernel.tasks.Fresh (.at p) := by
  obtain ⟨role, hrole⟩ := h.roles
  constructor
  · simp
  · simpa using h0
  · intro i hi he
    by_cases hl : s.kernel.tasks.Live i
    · exact hnew (hrole i p hl he).thread.held
    · rw [h.unused i hi hl] at he
      cases he

theorem Owns.fresh_created {t stack sidPtr pstruct : ℕ} {h' : Heap} (h : s.Owns)
    (hall : kmallocAll s.kernel.heap threadSizes = some ([t, stack, sidPtr, pstruct], h'))
    (h0 : 0 ∉ [t, stack, sidPtr, pstruct]) : s.kernel.tasks.Fresh (.at t) := by
  obtain ⟨free, hw⟩ := h.heap
  obtain ⟨_, _, hans⟩ := hw.kmallocAll_answers (by decide) hall
  cases hans with
  | cons _ hnew _ =>
    refine h.fresh ?_ (fun ⟨b, hb, he⟩ => hnew b hb he)
    rintro rfl
    exact h0 (List.mem_cons_self ..)

theorem Owns.fresh_forked {stack t : ℕ} {h' : Heap} (h : s.Owns)
    (hall : kmallocAll s.kernel.heap forkSizes = some ([stack, t], h')) (h0 : 0 ∉ [stack, t]) :
    s.kernel.tasks.Fresh (.at t) := by
  obtain ⟨free, hw⟩ := h.heap
  obtain ⟨_, _, hans⟩ := hw.kmallocAll_answers (by decide) hall
  apply h.fresh
  · rintro rfl
    simp at h0
  · cases hans with
    | cons _ _ hans =>
      cases hans with
      | cons _ hnew _ =>
        intro hheld
        obtain ⟨b, hb, he⟩ := hheld.gained stack (nunits stackLength)
        exact hnew b hb he

theorem Owns.getCurThreadTid (h : s.Owns) :
    ∃ c, s.kernel.tasks.getCurThreadTid = some (s.kernel.tasks.tidIndexDict c) := by
  obtain ⟨c, hcn, hc⟩ := h.cur
  exact ⟨c, Tasks.getCurThreadTid_index hc hcn⟩

theorem Owns.createThread_cases {func : ThreadFunc} {t stack sidPtr pstruct : ℕ} {h' : Heap} {tid : ℤ}
    {k : Kernel} (h : s.Owns)
    (hall : kmallocAll s.kernel.heap threadSizes = some ([t, stack, sidPtr, pstruct], h'))
    (hcreate : s.kernel.createThread func = some (tid, k)) (h0 : 0 ∉ [t, stack, sidPtr, pstruct])
    (hlt : s.kernel.tasks.tidGlobal + 1 < 2 ^ 31) :
    ∃ tasks ptid, k = ((s.kernel.setHeap h').setPipe pstruct
        { s.kernel.pipes pstruct with pstate := .empty }).setTasks tasks ∧
      (tasks = s.kernel.tasks.setObj (.at t) (s.kernel.genThread t stack sidPtr pstruct func) ∨
        ∃ i, Tasks.Added s.kernel.tasks tasks (.at t) i
          { s.kernel.genThread t stack sidPtr pstruct func with
            state := .runnable, index := i, ptid := ptid, tid := s.kernel.tasks.tidGlobal }) := by
  obtain ⟨_, hcur⟩ := h.getCurThreadTid
  rw [Kernel.createThread_eq func hall, Option.map_eq_some_iff] at hcreate
  obtain ⟨tasks, hrun, hk⟩ := hcreate
  obtain ⟨-, rfl⟩ := Prod.mk.inj hk
  exact ⟨tasks, _, rfl,
    Tasks.threadRun_added h.table hcur (h.fresh_created hall h0) h.global_nonneg hlt hrun⟩

theorem Owns.forkThread_forked {stack t : ℕ} {h' : Heap} {k : Kernel} (h : s.Owns) (hcur : s.Current c)
    (hall : kmallocAll s.kernel.heap forkSizes = some ([stack, t], h'))
    (hfork : s.kernel.forkThread = some k) (h0 : 0 ∉ [stack, t])
    (hlt : s.kernel.tasks.tidGlobal + 1 < 2 ^ 31)
    (hfree : ∃ k, k < threadNum ∧ ¬ s.kernel.tasks.Live k) :
    ∃ tasks i, k = (s.kernel.setHeap h').setTasks tasks ∧
      Tasks.Forked s.kernel.tasks tasks (.at t) c i (s.kernel.tasks.childThread c i stack
        s.kernel.threadExec (s.kernel.tasks.obj (.at t))) := by
  rw [Kernel.forkThread_eq hall, Option.map_eq_some_iff] at hfork
  obtain ⟨tasks, hfork, rfl⟩ := hfork
  have hself : s.kernel.tasks.setObj (.at t) (s.kernel.tasks.obj (.at t)) = s.kernel.tasks := by
    simp [Tasks.setObj]
  obtain ⟨i, hforked⟩ := Tasks.forkThread_forked h.table hcur.1 hcur.2 (h.fresh_forked hall h0) hfree
    h.global_nonneg hlt (hself.symm ▸ hfork)
  exact ⟨tasks, i, rfl, hforked⟩

theorem Owns.create {func : ThreadFunc} {t stack sidPtr pstruct : ℕ} {h' : Heap} {tid : ℤ}
    {k : Kernel} (h : s.Owns)
    (hall : kmallocAll s.kernel.heap threadSizes = some ([t, stack, sidPtr, pstruct], h'))
    (hcreate : s.kernel.createThread func = some (tid, k)) (h0 : 0 ∉ [t, stack, sidPtr, pstruct])
    (hlt : s.kernel.tasks.tidGlobal + 1 < 2 ^ 31) :
    Owns ⟨k, gainedAll s.live threadSizes [t, stack, sidPtr, pstruct], s.piped \ {pstruct}, s.calls,
      Function.update s.root s.kernel.tasks.tidGlobal s.kernel.tasks.tidGlobal⟩ := by
  obtain ⟨free, hw⟩ := h.heap
  obtain ⟨free', hw', hans⟩ := hw.kmallocAll_answers (by decide) hall
  obtain ⟨role, hrole⟩ := h.roles
  obtain ⟨c, hcn, hc⟩ := h.cur
  have hp := h.fresh_created hall h0
  obtain ⟨tasks, ptid, rfl, hcases⟩ := h.createThread_cases hall hcreate h0 hlt
  have hold : ∀ i t', s.kernel.tasks.Live i → s.kernel.tasks.threads i = .at t' →
      Assets (gainedAll s.live threadSizes [t, stack, sidPtr, pstruct]) (s.piped \ {pstruct})
        (Function.update s.kernel.pipes pstruct { s.kernel.pipes pstruct with pstate := .empty })
        (assign role [t, stack, sidPtr, pstruct] [.thread, .stack t, .sid, .pstruct sidPtr]) t'
        (s.kernel.tasks.thread i) := by
    intro i t' hi hptr
    refine ((hrole i t' hi hptr).kept _ hans).of_pipes (fun hmem => hmem.1) (fun hmem => ?_)
    rw [Function.update_of_ne hmem.2]
  rcases hcases with rfl | ⟨i, hadd⟩
  · have hsame : ∀ j, j < threadNum → (s.kernel.tasks.setObj (.at t)
        (s.kernel.genThread t stack sidPtr pstruct func)).thread j = s.kernel.tasks.thread j :=
      fun j hj => Tasks.thread_setObj_of_ne _ (hp.not_mem j hj)
    have hlive : ∀ j, (s.kernel.tasks.setObj (.at t)
        (s.kernel.genThread t stack sidPtr pstruct func)).Live j → s.kernel.tasks.Live j :=
      fun j hj => ⟨hj.1, hsame j hj.1 ▸ hj.2⟩
    constructor
    · exact h.table.setObj_fresh hp _
    · exact h.global_nonneg
    · exact ⟨free', hw'⟩
    · refine ⟨assign role [t, stack, sidPtr, pstruct] [.thread, .stack t, .sid, .pstruct sidPtr], ?_⟩
      intro j t' hj hptr
      apply (hold j t' (hlive j hj) hptr).of_fields
      simp [Kernel.setTasks, hsame j hj.1]
    · refine h.housed.grow h.table (fun j hj => hp.live_setObj _ hj) (fun j hj => ?_)
        (fun j hj hdead => absurd (hlive j hj) hdead)
      change ((s.kernel.tasks.setObj (.at t) _).thread j).tid = _ ∧ _
      rw [hsame j hj.1]
      exact ⟨rfl, congrArg Thread.sidPtr (hsame j hj.1)⟩
    · exact fun j hj hdead => h.unused j hj (fun hl => hdead (hp.live_setObj _ hl))
    · exact h.cur
    · exact h.calls
  · have hptr : ∀ j, j ≠ i → tasks.threads j = s.kernel.tasks.threads j := by
      intro j hj
      rw [hadd.threads]
      exact Function.update_of_ne hj ..
    constructor
    · exact hadd.consistent
    · have := h.global_nonneg
      have hglobal := hadd.tidGlobal
      change 0 ≤ tasks.tidGlobal
      omega
    · exact ⟨free', hw'⟩
    · refine ⟨assign role [t, stack, sidPtr, pstruct] [.thread, .stack t, .sid, .pstruct sidPtr], ?_⟩
      intro j t' hj hat
      change tasks.threads j = .at t' at hat
      by_cases hji : j = i
      · subst hji
        obtain rfl : t = t' := by simpa [hadd.threads] using hat
        apply Assets.created hans h0
        simp [Kernel.setTasks, hadd.new, Kernel.genThread]
      · have hl := ((hadd.live j).mp hj).resolve_left hji
        apply (hold j t' hl (hptr j hji ▸ hat)).of_fields
        simp [Kernel.setTasks, hadd.other j hl]
    · exact h.housed.added h.table hadd rfl
    · intro j hj hdead
      have hji : j ≠ i := fun he => hdead ((hadd.live j).mpr (.inl he))
      exact (hptr j hji).trans (h.unused j hj (fun hl => hdead ((hadd.live j).mpr (.inr hl))))
    · exact ⟨c, hcn, hadd.cur.trans hc⟩
    · exact h.calls

theorem Owns.fork {stack t : ℕ} {h' : Heap} {k : Kernel} (h : s.Owns) (hcur : s.Current c)
    (hall : kmallocAll s.kernel.heap forkSizes = some ([stack, t], h'))
    (hfork : s.kernel.forkThread = some k) (h0 : 0 ∉ [stack, t])
    (hlt : s.kernel.tasks.tidGlobal + 1 < 2 ^ 31)
    (hfree : ∃ k, k < threadNum ∧ ¬ s.kernel.tasks.Live k) :
    Owns ⟨k, gainedAll s.live forkSizes [stack, t], s.piped, s.calls,
      Function.update s.root s.kernel.tasks.tidGlobal (s.root (s.kernel.tasks.thread c).tid)⟩ := by
  obtain ⟨free, hw⟩ := h.heap
  obtain ⟨free', hw', hans⟩ := hw.kmallocAll_answers (by decide) hall
  obtain ⟨role, hrole⟩ := h.roles
  obtain ⟨tasks, i, rfl, hforked⟩ := h.forkThread_forked hcur hall hfork h0 hlt hfree
  obtain ⟨tc, htc⟩ := exists_at h.table hcur.2
  have hptr : ∀ j, j ≠ i → tasks.threads j = s.kernel.tasks.threads j := by
    intro j hj
    rw [hforked.threads]
    exact Function.update_of_ne hj ..
  constructor
  · exact hforked.consistent
  · have := h.global_nonneg
    have hglobal := hforked.tidGlobal
    change 0 ≤ tasks.tidGlobal
    omega
  · exact ⟨free', hw'⟩
  · refine ⟨assign role [stack, t] [.stack t, .thread], ?_⟩
    intro j t' hj hat
    change tasks.threads j = .at t' at hat
    change Assets _ _ _ _ _ (tasks.thread j)
    by_cases hji : j = i
    · subst hji
      obtain rfl : t = t' := by simpa [hforked.threads] using hat
      apply Assets.forked hans h0 (hrole c tc hcur.2 htc)
      simp [hforked.child, Tasks.childThread]
    · have hl := ((hforked.live j).mp hj).resolve_left hji
      apply ((hrole j t' hl (hptr j hji ▸ hat)).kept _ hans).of_fields
      by_cases hjc : j = c
      · rw [hjc, hforked.parent]
        exact (Tasks.setCtid_fields ..).2.2.2
      · simp [hforked.other j hl hjc]
  · exact h.housed.forked h.table hcur.2 hforked rfl rfl
  · intro j hj hdead
    have hji : j ≠ i := fun he => hdead ((hforked.live j).mpr (.inl he))
    exact (hptr j hji).trans (h.unused j hj (fun hl => hdead ((hforked.live j).mpr (.inr hl))))
  · exact ⟨i, hforked.lt, hforked.cur⟩
  · exact h.calls

theorem Owns.finish {t : ℕ} {k : Kernel} (h : s.Owns) (hi : s.kernel.tasks.Live i)
    (ht : s.kernel.tasks.threads i = .at t) (hexit : s.kernel.threadExit t = some k)
    (hdelete : s.kernel.Deletable s.piped (s.kernel.tasks.thread i))
    (hshare : ∀ k, s.kernel.tasks.Live k → k ≠ i →
      (s.kernel.tasks.thread k).sidPtr ≠ (s.kernel.tasks.thread i).sidPtr) :
    Owns ⟨k, (s.kernel.exitFrees t).foldl release s.live, s.piped,
      s.calls ++ freeCalls s.live (s.kernel.exitFrees t), s.root⟩ := by
  obtain ⟨free, hw⟩ := h.heap
  obtain ⟨role, hrole⟩ := h.roles
  obtain ⟨hends, hfrees, hpipes⟩ := Kernel.threadExit_cases hi ht hexit (fun h => (hdelete h).1)
  have hended := hends.ended h.table
  have hobj : s.kernel.tasks.thread i = s.kernel.tasks.obj (.at t) := by rw [Tasks.thread, ht]
  have hown := hrole i t hi ht
  rw [hobj] at hown hdelete hshare
  generalize hx : s.kernel.tasks.obj (.at t) = x at hown hdelete hshare hobj
  have hpipe := fun hcount => hown.pipe (hdelete hcount).2.1 (hdelete hcount).2.2
  -- the blocks of the thread have five different uses
  have hmem : ∀ p ∈ s.kernel.exitFrees t, ∃ y, Has s.live role p y ∧ (y = .stack t ∨
      y = .pipe x.pstruct ∨ y = .pstruct x.sidPtr ∨ y = .sid ∧ p = x.sidPtr ∨ y = .thread ∧ p = t) := by
    intro p hp
    rcases Kernel.mem_exitFrees hp with hp | ⟨hcount, hp⟩ | hp | hp | hp
    · exact ⟨_, hp.trans (by rw [hx]) ▸ hown.stack, by simp⟩
    · exact ⟨_, hp.trans (by rw [hx]) ▸ hpipe (hx ▸ hcount), by simp⟩
    · exact ⟨_, hp.trans (by rw [hx]) ▸ hown.pstruct, by simp⟩
    · exact ⟨_, hp.trans (by rw [hx]) ▸ hown.sid, by simp [hp, hx]⟩
    · exact ⟨_, hp ▸ hown.thread, by simp [hp]⟩
  have hnodup : (s.kernel.exitFrees t).Nodup := by
    apply List.Nodup.of_map role
    rw [Kernel.exitFrees, hx]
    split_ifs with hcount
    · simp [hown.stack.role, hown.pstruct.role, hown.sid.role, hown.thread.role, (hpipe hcount).role]
    · simp [hown.stack.role, hown.sid.role, hown.thread.role]
  obtain ⟨h', free', hfrees', -, -, hw', hcalls⟩ :=
    hw.kfreeAll hnodup (fun p hp => (hmem p hp).choose_spec.1.held)
  obtain rfl := Option.some.inj (hfrees.symm.trans hfrees')
  constructor
  · exact hended.consistent
  · exact hended.tidGlobal ▸ h.global_nonneg
  · exact ⟨free', hw'⟩
  · refine ⟨role, fun j t' hj hat => ?_⟩
    obtain ⟨hl, hji⟩ := (hended.live j).mp hj
    have hptr : k.tasks.threads j = s.kernel.tasks.threads j := by
      rw [hended.threads]
      exact Function.update_of_ne hji ..
    have hold := hrole j t' hl (hptr ▸ hat)
    have hne : t' ≠ t := by
      rintro rfl
      exact hji (h.table.ptr_inj j i hl.1 hi.1 ((hptr ▸ hat).trans ht.symm) (by simp [hptr ▸ hat]))
    have hsid := hshare j hl hji
    have hfields : (k.tasks.thread j).stack = (s.kernel.tasks.thread j).stack ∧
        (k.tasks.thread j).sidPtr = (s.kernel.tasks.thread j).sidPtr ∧
        (k.tasks.thread j).pstruct = (s.kernel.tasks.thread j).pstruct := by
      rcases hended.thread hji with he | he
      · simp [he]
      · rw [he]
        exact (Tasks.clearCtid_fields ..).2.2.2
    have hpstruct : (s.kernel.tasks.thread j).pstruct ≠ x.pstruct :=
      hold.pstruct.ne hown.pstruct (by simp [hsid])
    change Assets _ _ k.pipes _ _ _
    rw [hpipes]
    refine (hold.releaseAll (fun p hp => ?_)).of_fields hfields
    obtain ⟨y, ⟨-, rfl⟩, hy⟩ := hmem p hp
    have hpt : role p ≠ .thread → p ≠ t' := fun hr he => hr (he ▸ hold.thread.role)
    have hps : role p ≠ .sid → p ≠ (s.kernel.tasks.thread j).sidPtr := fun hr he => hr (he ▸ hold.sid.role)
    rcases hy with hy | hy | hy | ⟨hy, rfl⟩ | ⟨hy, rfl⟩
    · simp_all [hne.symm]
    · simp_all [hpstruct.symm]
    · simp_all [hsid.symm]
    · simp_all [hsid.symm]
    · simp_all [hne.symm]
  · refine h.housed.ended hended ?_
    rw [hobj]
    exact hshare
  · intro j hj hdead
    rw [hended.threads]
    by_cases hji : j = i
    · rw [hji]
      exact Function.update_self ..
    · rw [Function.update_of_ne hji]
      exact h.unused j hj (fun hl => hdead ((hended.live j).mpr ⟨hl, hji⟩))
  · obtain ⟨c, hcn, hc⟩ := h.cur
    exact ⟨c, hcn, hended.cur.trans hc⟩
  · intro f hf
    rcases List.mem_append.mp hf with hf | hf
    · exact h.calls f hf
    · exact hcalls f hf

theorem Owns.init {m : Kernel} {kheapStart : ℕ} (hal : kheapStart % blkSize = 0)
    (hbase : m.heap.base < kheapStart) : Owns ⟨m.initKernel kheapStart, [], ∅, [], id⟩ where
  table := .init _ _
  global_nonneg := le_refl _
  heap := ⟨_, WellFormed.init hal hbase rfl⟩
  roles := ⟨fun _ => .thread, fun i _ hi => absurd hi (Kernel.initKernel_dead m kheapStart i)⟩
  housed := fun i hi => absurd hi (Kernel.initKernel_dead m kheapStart i)
  unused := fun _ hi _ => if_pos hi
  cur := ⟨0, by decide, rfl⟩
  calls := fun _ hc => absurd hc List.not_mem_nil

end Owned

theorem OwnStep.owns {s t : Owned} {op : OwnOp} (hstep : OwnStep s op t) (hmeets : op.Meets s)
    (h : s.Owns) : t.Owns := by
  cases hstep with
  | create hall hcreate => exact h.create hall hcreate (hmeets.1.not_mem hall) hmeets.2
  | genPipe _ hall hgen => exact h.genPipe hall hgen
  | fork hcur hall hfork => exact h.fork hcur hall hfork (hmeets.1.not_mem hall) hmeets.2.1 hmeets.2.2
  | finish hcur hhouse ht hexit =>
    obtain ⟨hdelete, hshare⟩ := hmeets _ _ hcur hhouse
    exact h.finish hhouse.1 ht hexit hdelete hshare
  | schedule hi => exact h.schedule hi
  | other hk => exact h.other hk
  | stray hcur hnone =>
    -- the condition keeps the thread whose frame is used in the table
    obtain ⟨i, hhouse, -⟩ := h.housed _ hcur.2
    exact absurd hhouse (hnone i)

/-- Every pointer passed to `kfree` is that of a live block, and the blocks that live threads refer
to are allocated. -/
theorem frees_right {m : Kernel} {kheapStart : ℕ} {ops : List OwnOp} {s : Owned}
    (hal : kheapStart % blkSize = 0) (hbase : m.heap.base < kheapStart)
    (hrun : Run (fun s op t => OwnStep s op t ∧ op.Meets s) ⟨m.initKernel kheapStart, [], ∅, [], id⟩ ops s) :
    (∀ c ∈ s.calls, ∃ b ∈ c.live, b.addr + blkSize = c.ptr) ∧
      ∀ i, s.kernel.tasks.Live i → Held s.live (s.kernel.tasks.thread i).stack ∧
        Held s.live (s.kernel.tasks.thread i).sidPtr ∧ Held s.live (s.kernel.tasks.thread i).pstruct ∧
        ((s.kernel.tasks.thread i).pstruct ∈ s.piped →
          (s.kernel.pipes (s.kernel.tasks.thread i).pstruct).pipePtr ≠ 0 →
          Held s.live (s.kernel.pipes (s.kernel.tasks.thread i).pstruct).pipePtr) := by
  have h := hrun.invariant (Owned.Owns.init hal hbase) (fun h hstep => hstep.1.owns hstep.2 h)
  refine ⟨h.calls, fun i hi => ?_⟩
  obtain ⟨role, hrole⟩ := h.roles
  obtain ⟨t, ht⟩ := Owned.exists_at h.table hi
  have hown := hrole i t hi ht
  exact ⟨hown.stack.held, hown.sid.held, hown.pstruct.held, fun hp hne => (hown.pipe hp hne).held⟩

section Example

open Kernel

def emptyKernel : Kernel := zeroKernel.initKernel 0x400000

def createdKernel : Kernel := ((emptyKernel.createThread ⟨0, 0, 0⟩).get (by decide +kernel)).2

def pipedKernel : Kernel := ((createdKernel.genPipe (.at 0x7fff80)).get (by decide +kernel)).2

def forkedKernel : Kernel := pipedKernel.forkThread.get (by decide +kernel)

def orphanKernel : Kernel := (forkedKernel.threadExit 0x7fff80).get (by decide +kernel)

def empty : Owned := ⟨emptyKernel, [], ∅, [], id⟩

def created : Owned :=
  ⟨createdKernel, gainedAll [] threadSizes [0x7fff80, 0x7fef70, 0x7fef50, 0x7fef30], ∅ \ {0x7fef30}, [],
    Function.update id 0 0⟩

def piped : Owned := ⟨pipedKernel, gainedAll created.live [npipeQueue] [0x7fdf20],
  insert (createdKernel.tasks.thread 0).pstruct created.piped, [], created.root⟩

def forked : Owned := ⟨forkedKernel, gainedAll piped.live forkSizes [0x7fcf10, 0x7fce80], piped.piped, [],
  Function.update piped.root pipedKernel.tasks.tidGlobal (piped.root (pipedKernel.tasks.thread 0).tid)⟩

def orphan : Owned := ⟨orphanKernel, (forkedKernel.exitFrees 0x7fff80).foldl release forked.live,
  forked.piped, freeCalls forked.live (forkedKernel.exitFrees 0x7fff80), forked.root⟩

theorem empty_create : OwnStep empty (.create ⟨0, 0, 0⟩) created := by
  obtain ⟨h, hall⟩ : ∃ h,
      kmallocAll emptyKernel.heap threadSizes = some ([0x7fff80, 0x7fef70, 0x7fef50, 0x7fef30], h) :=
    exists_kmallocAll (by decide +kernel)
  exact .create hall (Option.some_get _).symm

theorem empty_create_meets : OwnOp.Meets empty (.create ⟨0, 0, 0⟩) := by
  obtain ⟨h, hall⟩ : ∃ h, kmallocAll emptyKernel.heap threadSizes =
      some ([0x7fff80, 0x7fef70, 0x7fef50, 0x7fef30], h) := exists_kmallocAll (by decide +kernel)
  exact ⟨⟨_, h, hall, by decide⟩, by decide⟩

theorem created_owns : created.Owns :=
  empty_create.owns empty_create_meets (.init (by decide) (by decide))

theorem created_genPipe : OwnStep created (.genPipe 0) piped := by
  obtain ⟨h, hall⟩ : ∃ h, kmallocAll createdKernel.heap [npipeQueue] = some ([0x7fdf20], h) :=
    exists_kmallocAll (by decide +kernel)
  have hptr : createdKernel.tasks.threads 0 = .at 0x7fff80 := by decide +kernel
  have hlive : createdKernel.tasks.Live 0 := ⟨by decide, by decide +kernel⟩
  obtain ⟨r, hgen⟩ : ∃ r, createdKernel.genPipe (createdKernel.tasks.threads 0) = some (r, pipedKernel) := by
    rw [hptr]
    exact ⟨_, (Option.some_get _).symm⟩
  exact .genPipe hlive hall hgen

theorem piped_owns : piped.Owns := created_genPipe.owns trivial created_owns

theorem piped_fork : OwnStep piped .fork forked := by
  obtain ⟨h, hall⟩ : ∃ h, kmallocAll pipedKernel.heap forkSizes = some ([0x7fcf10, 0x7fce80], h) :=
    exists_kmallocAll (by decide +kernel)
  have hcur : piped.Current 0 := ⟨by decide +kernel, by decide, by decide +kernel⟩
  exact .fork hcur hall (Option.some_get _).symm

theorem forked_finish : OwnStep forked .finish orphan := by
  have hcur : forked.Current 1 := ⟨by decide +kernel, by decide, by decide +kernel⟩
  have hhouse : forked.kernel.tasks.Houses forked.root 0 1 :=
    ⟨⟨by decide, by decide +kernel⟩, by decide +kernel⟩
  have hptr : forkedKernel.tasks.threads 0 = .at 0x7fff80 := by decide +kernel
  exact .finish hcur hhouse hptr (Option.some_get _).symm

theorem frees_right_example : ∃ s, Run OwnStep empty [.create ⟨0, 0, 0⟩, .genPipe 0, .finish] s ∧
    s.calls.map FreeCall.ptr = [0x7fef70, 0x7fdf20, 0x7fef30, 0x7fef50, 0x7fff80] ∧
    ∀ c ∈ s.calls, ∃ b ∈ c.live, b.addr + blkSize = c.ptr := by
  have hcur : piped.Current 0 := ⟨by decide +kernel, by decide, by decide +kernel⟩
  have hhouse : piped.kernel.tasks.Houses piped.root 0 0 := ⟨hcur.2, by decide +kernel⟩
  have hptr : pipedKernel.tasks.threads 0 = .at 0x7fff80 := by decide +kernel
  have hfinish : OwnStep piped .finish _ :=
    .finish hcur hhouse hptr (Option.some_get (by decide +kernel)).symm
  have hend : OwnOp.Meets piped .finish := by
    intro c i hc hi
    obtain rfl := hc.eq hcur
    obtain rfl := piped_owns.table.houses_unique hi hhouse
    refine ⟨fun _ => ⟨by decide +kernel, ?_, by decide +kernel⟩, fun k hk hne => absurd hk ?_⟩
    · have hsame : (pipedKernel.tasks.thread 0).pstruct = (createdKernel.tasks.thread 0).pstruct := by
        decide +kernel
      exact .inl hsame
    · have hdead : ∀ i, i < threadNum → i ≠ 0 → (pipedKernel.tasks.thread i).state = .dead := by
        decide +kernel
      exact fun hl => hl.2 (hdead k hl.1 hne)
  have hrun := Run.cons empty_create (.cons created_genPipe (.single hfinish))
  have hbase : zeroKernel.heap.base < 0x400000 := by decide
  obtain ⟨hfrees, -⟩ := frees_right (by decide) hbase
    (.cons ⟨empty_create, empty_create_meets⟩ (.cons ⟨created_genPipe, trivial⟩ (.single ⟨hfinish, hend⟩)))
  refine ⟨_, hrun, ?_, hfrees⟩
  change (freeCalls piped.live (pipedKernel.exitFrees 0x7fff80)).map FreeCall.ptr = _
  decide +kernel

/-- A forked child ends, in the frame of its parent: it frees what the parent has, and stays in the
table itself with a semaphore and a pipe that are freed. -/
theorem child_frees_parent :
    Run OwnStep empty [.create ⟨0, 0, 0⟩, .genPipe 0, .fork, .finish] orphan ∧
    orphan.calls.map FreeCall.ptr = [0x7fef70, 0x7fdf20, 0x7fef30, 0x7fef50, 0x7fff80] ∧
    ¬ orphan.kernel.tasks.Live 0 ∧ orphan.kernel.tasks.Live 1 ∧
    ¬ Held orphan.live (orphan.kernel.tasks.thread 1).sidPtr ∧
    ¬ ∀ i, orphan.kernel.tasks.Live i → Held orphan.live (orphan.kernel.tasks.thread i).stack ∧
      Held orphan.live (orphan.kernel.tasks.thread i).sidPtr ∧
      Held orphan.live (orphan.kernel.tasks.thread i).pstruct := by
  have hlive : orphanKernel.tasks.Live 1 := ⟨by decide, by decide +kernel⟩
  have hdead : (orphanKernel.tasks.thread 0).state = .dead := by decide +kernel
  have hnot : ¬ Held orphan.live (orphanKernel.tasks.thread 1).sidPtr := by decide +kernel
  refine ⟨.cons empty_create (.cons created_genPipe (.cons piped_fork (.single forked_finish))), ?_,
    fun hl => hl.2 hdead, hlive, hnot, fun hall => hnot (hall 1 hlive).2.1⟩
  change (freeCalls forked.live (forkedKernel.exitFrees 0x7fff80)).map FreeCall.ptr = _
  decide +kernel

end Example

end MinOS
