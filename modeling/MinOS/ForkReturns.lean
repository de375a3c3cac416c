import MinOS.ForkFrames
import MinOS.ThreadForks
import MinOS.ThreadTableRuns

namespace MinOS

open Library.Integers Library.Runs

structure Pending where
  caller : ℤ
  child : ℤ
  point : ForkPoint
  deriving DecidableEq

structure ForkReturn where
  tid : ℤ
  child : ℤ
  value : ℤ
  deriving DecidableEq

/-- `root` gives the tid of the thread in whose stack `thread_exec` has its frame, and `frames` the
frame of `fork_thread` for the call that has made the thread with the given tid. -/
structure Forks where
  tasks : Tasks
  root : ℤ → ℤ
  pending : ℤ → Option Pending
  frames : ℤ → ForkFrame
  returns : List ForkReturn

inductive ForkOp where
  | create (p : ThreadPtr) (content : Thread)
  | fork (p : ThreadPtr) (content : Thread) (stack threadExec : ℕ) (frame : ForkFrame)
  | stmt
  | leave
  | finish
  | schedule (i : ℕ)
  | stray

namespace Forks

def Current (s : Forks) (c : ℕ) : Prop := s.tasks.curThreadIndex = c ∧ s.tasks.Live c

def pendingOf (s : Forks) (c : ℕ) : Option Pending := s.pending (s.tasks.thread c).tid

/-- The thread in entry `c` runs in frames that are still in place: `thread_exec` has not freed the
stack they lie on, and if the thread is in `fork_thread`, so is the thread that called it. -/
def Steady (s : Forks) (c : ℕ) : Prop := (∃ i, s.tasks.Houses s.root i c) ∧
  ∀ q, s.pendingOf c = some q → ∃ q', s.pending q.caller = some q' ∧ q'.child = q.child

def InPlace (s : Forks) : Prop := ∀ c, s.Current c → s.Steady c

def grow (s : Forks) (tasks : Tasks) : Forks where
  tasks := tasks
  root := Function.update s.root s.tasks.tidGlobal s.tasks.tidGlobal
  pending := s.pending
  frames := s.frames
  returns := s.returns

def begin (s : Forks) (c : ℕ) (tasks : Tasks) (frame : ForkFrame) : Forks :=
  let parent := (s.tasks.thread c).tid
  let child := s.tasks.tidGlobal
  { tasks := tasks
    root := Function.update s.root child (s.root parent)
    pending := Function.update (Function.update s.pending parent (some ⟨parent, child, .begun⟩))
      child (some ⟨parent, child, .begun⟩)
    frames := Function.update s.frames child frame
    returns := s.returns }

def proceed (s : Forks) (c : ℕ) (q : Pending) (point : ForkPoint) (frame : ForkFrame) : Forks where
  tasks := s.tasks
  root := s.root
  pending := Function.update s.pending (s.tasks.thread c).tid (some { q with point := point })
  frames := Function.update s.frames q.child frame
  returns := s.returns

def leave (s : Forks) (c : ℕ) (q : Pending) : Forks where
  tasks := s.tasks
  root := s.root
  pending := Function.update s.pending (s.tasks.thread c).tid none
  frames := s.frames
  returns := s.returns ++ [⟨(s.tasks.thread c).tid, q.child, (s.frames q.child).retval⟩]

end Forks

/-- The current thread runs; the scheduler may switch to any other thread between two steps. A new
thread gets a structure that no live thread uses. Once its frames are gone, a thread may do
anything. -/
inductive ForkStep : Forks → ForkOp → Forks → Prop
  | create {s : Forks} {c : ℕ} {p : ThreadPtr} {content : Thread} {tasks : Tasks} : s.Current c →
      s.pendingOf c = none → s.tasks.Fresh p →
      (s.tasks.setObj p { content with ctid := fun _ => -1 }).threadRun p = some tasks →
      ForkStep s (.create p content) (s.grow tasks)
  | fork {s : Forks} {c stack threadExec : ℕ} {p : ThreadPtr} {content : Thread} {frame : ForkFrame}
      {tasks : Tasks} : s.Current c → s.pendingOf c = none → s.tasks.Fresh p →
      (∃ k, k < threadNum ∧ ¬ s.tasks.Live k) →
      (s.tasks.setObj p content).forkThread p stack threadExec = some tasks →
      ForkStep s (.fork p content stack threadExec frame) (s.begin c tasks frame)
  | stmt {s : Forks} {c : ℕ} {q : Pending} {point : ForkPoint} {frame : ForkFrame} : s.Current c →
      s.pendingOf c = some q → q.point.next s.tasks (s.frames q.child) = some (point, frame) →
      ForkStep s .stmt (s.proceed c q point frame)
  | leave {s : Forks} {c : ℕ} {q : Pending} : s.Current c → s.pendingOf c = some q →
      q.point = .returning → ForkStep s .leave (s.leave c q)
  | finish {s : Forks} {i c : ℕ} {tasks : Tasks} : s.Current c → s.pendingOf c = none →
      s.tasks.Exits s.root i c tasks → ForkStep s .finish { s with tasks := tasks }
  | schedule {s : Forks} {i : ℕ} : s.tasks.Live i →
      ForkStep s (.schedule i) { s with tasks := { s.tasks with curThreadIndex := i } }
  | stray {s t : Forks} {c : ℕ} : s.Current c → ¬ s.Steady c → ForkStep s .stray t

/-- The current thread runs in frames that are in place. Tids do not wrap around, a fork finds a free
slot for the child, and a statement stores to no local that the other side of the same call has
still to read. -/
def ForkOp.Meets (s : Forks) (op : ForkOp) : Prop :=
  s.InPlace ∧ match op with
    | .create _ _ => s.tasks.tidGlobal + 1 < 2 ^ 31
    | .fork _ _ _ _ _ => s.tasks.tidGlobal + 1 < 2 ^ 31 ∧
        ∀ c, s.Current c → findChildSlot (s.tasks.thread c) (-1) ≠ none
    | .stmt => ∀ c q, s.Current c → s.pendingOf c = some q → ∀ k q', s.tasks.Live k → k ≠ c →
        s.pendingOf k = some q' → q'.child = q.child →
          ∀ l, q.point.stores = some l → q'.point.loads ≠ some l
    | _ => True

def Pending.value (q : Pending) (tid : ℤ) : ℤ := if tid = q.child then -1 else q.child

namespace Tasks

variable {s t : Tasks} {c i k : ℕ} {p : ThreadPtr} {root : ℤ → ℤ} {v : ℤ}

/-- The invariant of the table: only threads that `create_thread` has made end, and these are in no
array, so the arrays fill up in order. -/
structure Rooted (s : Tasks) (root : ℤ → ℤ) : Prop where
  table : s.Consistent
  global_nonneg : 0 ≤ s.tidGlobal
  root_le : ∀ tid, tid < s.tidGlobal → root tid ≤ tid
  root_root : ∀ tid, tid < s.tidGlobal → root (root tid) = root tid
  noted : ∀ k j, s.Live k → j < nthreadChild → (s.thread k).ctid j ≠ -1 →
    (s.thread k).ctid j < s.tidGlobal ∧ root ((s.thread k).ctid j) ≠ (s.thread k).ctid j
  filled : ∀ k, s.Live k → (s.thread k).Filled

namespace Rooted

theorem enroll (h : s.Rooted root) (ht : t.Consistent) (hglobal : t.tidGlobal = s.tidGlobal + 1)
    (hle : v ≤ s.tidGlobal) (hv : v < s.tidGlobal → root v = v)
    (hthread : ∀ k, t.Live k → (∀ j, (t.thread k).ctid j = -1) ∨ s.Live k ∧
      ((t.thread k).ctid = (s.thread k).ctid ∨
        v ≠ s.tidGlobal ∧ (t.thread k) = (setCtid (s.thread k) s.tidGlobal).2)) :
    t.Rooted (Function.update root s.tidGlobal v) := by
  have h0 := h.global_nonneg
  have hold : ∀ tid, tid < s.tidGlobal → Function.update root s.tidGlobal v tid = root tid :=
    fun tid hlt => Function.update_of_ne (by omega) ..
  have hnew : Function.update root s.tidGlobal v s.tidGlobal = v := Function.update_self ..
  have hkept : ∀ k j, s.Live k → j < nthreadChild → (s.thread k).ctid j ≠ -1 →
      (s.thread k).ctid j < t.tidGlobal ∧
        Function.update root s.tidGlobal v ((s.thread k).ctid j) ≠ (s.thread k).ctid j := by
    intro k j hk hj hne
    obtain ⟨hlt, hroot⟩ := h.noted k j hk hj hne
    rw [hold _ hlt]
    exact ⟨by omega, hroot⟩
  refine ⟨ht, by omega, fun tid hlt => ?_, fun tid hlt => ?_, fun k j hk hj hne => ?_, fun k hk => ?_⟩
  · by_cases htid : tid = s.tidGlobal
    · rw [htid, hnew]
      exact hle
    · rw [hold tid (by omega)]
      exact h.root_le tid (by omega)
  · by_cases htid : tid = s.tidGlobal
    · rw [htid, hnew]
      by_cases hvlt : v < s.tidGlobal
      · rw [hold v hvlt, hv hvlt]
      · obtain rfl : v = s.tidGlobal := by omega
        exact hnew
    · have hle' := h.root_le tid (by omega)
      rw [hold tid (by omega), hold _ (by omega)]
      exact h.root_root tid (by omega)
  · rcases hthread k hk with hempty | ⟨hkl, hsame | ⟨hvne, hset⟩⟩
    · exact absurd (hempty j) hne
    · rw [hsame] at hne ⊢
      exact hkept k j hkl hj hne
    · rw [hset] at hne ⊢
      cases hslot : findChildSlot (s.thread k) (-1) with
      | none =>
        rw [setCtid_full hslot] at hne ⊢
        exact hkept k j hkl hj hne
      | some i =>
        obtain ⟨-, -, hctid⟩ := setCtid_slot h0 hslot
        rw [hctid] at hne ⊢
        by_cases hji : j = i
        · rw [hji, Function.update_self, hnew]
          exact ⟨by omega, hvne⟩
        · rw [Function.update_of_ne hji] at hne ⊢
          exact hkept k j hkl hj hne
  · rcases hthread k hk with hempty | ⟨hkl, hsame | ⟨-, hset⟩⟩
    · exact .of_empty (fun j _ => hempty j)
    · rw [Thread.Filled, hsame]
      exact h.filled k hkl
    · rw [hset]
      exact (h.filled k hkl).set h0

theorem keep {root' : ℤ → ℤ} (h : s.Rooted root) (ht : t.Consistent)
    (hglobal : t.tidGlobal = s.tidGlobal) (hroot : ∀ tid, tid < s.tidGlobal → root' tid = root tid)
    (hthread : ∀ k, t.Live k → s.Live k ∧ t.thread k = s.thread k) : t.Rooted root' := by
  refine ⟨ht, hglobal ▸ h.global_nonneg, ?_, ?_, ?_, ?_⟩
  · intro tid hlt
    rw [hglobal] at hlt
    rw [hroot tid hlt]
    exact h.root_le tid hlt
  · intro tid hlt
    rw [hglobal] at hlt
    have hle := h.root_le tid hlt
    rw [hroot tid hlt, hroot _ (by omega)]
    exact h.root_root tid hlt
  · intro k j hk hj hne
    obtain ⟨hkl, hsame⟩ := hthread k hk
    rw [hsame] at hne ⊢
    obtain ⟨hlt, hnoted⟩ := h.noted k j hkl hj hne
    rw [hroot _ hlt, hglobal]
    exact ⟨hlt, hnoted⟩
  · intro k hk
    obtain ⟨hkl, hsame⟩ := hthread k hk
    rw [hsame]
    exact h.filled k hkl

theorem added {new : Thread} (h : s.Rooted root) (hadd : Added s t p i new)
    (hctid : ∀ j, new.ctid j = -1) :
    t.Rooted (Function.update root s.tidGlobal s.tidGlobal) := by
  refine h.enroll hadd.consistent hadd.tidGlobal (le_refl _) (fun hlt => absurd hlt (lt_irrefl _))
    (fun k hk => ?_)
  rcases (hadd.live k).mp hk with rfl | hkl
  · rw [hadd.new]
    exact .inl hctid
  · rw [hadd.other k hkl]
    exact .inr ⟨hkl, .inl rfl⟩

theorem forked {child : Thread} (h : s.Rooted root) (hc : s.Live c) (hfork : Forked s t p c i child)
    (hctid : ∀ j, child.ctid j = -1) :
    t.Rooted (Function.update root s.tidGlobal (root (s.thread c).tid)) := by
  have hlt := h.table.tid_lt c hc
  have hle := h.root_le _ hlt
  refine h.enroll hfork.consistent hfork.tidGlobal (by omega) (fun _ => h.root_root _ hlt)
    (fun k hk => ?_)
  rcases (hfork.live k).mp hk with rfl | hkl
  · rw [hfork.child]
    exact .inl hctid
  · by_cases hkc : k = c
    · rw [hkc, hfork.parent]
      exact .inr ⟨hc, .inr ⟨by omega, rfl⟩⟩
    · rw [hfork.other k hkl hkc]
      exact .inr ⟨hkl, .inl rfl⟩

theorem ended (h : s.Rooted root) (hc : s.Live c) (hend : s.Exits root i c t) :
    Ended s t i ∧ (∀ k, t.Live k → t.thread k = s.thread k) ∧ t.Rooted root := by
  obtain ⟨⟨hi, hroot⟩, hend⟩ := hend
  have he := hend.ended h.table
  have hself : root (s.thread i).tid = (s.thread i).tid := by
    rw [hroot]
    exact h.root_root _ (h.table.tid_lt c hc)
  have hthread : ∀ k, t.Live k → t.thread k = s.thread k := by
    intro k hk
    obtain ⟨hkl, hki⟩ := (he.live k).mp hk
    rcases he.thread hki with hsame | hclear
    · exact hsame
    · rw [hclear]
      apply clearCtid_of_absent
      intro j hj htid
      have h0 := h.table.tid_nonneg i hi
      have hnoted := (h.noted k j hkl hj (by omega)).2
      rw [htid] at hnoted
      exact hnoted hself
  exact ⟨he, hthread, h.keep he.consistent he.tidGlobal (fun _ _ => rfl)
    (fun k hk => ⟨((he.live k).mp hk).1, hthread k hk⟩)⟩

theorem schedule (h : s.Rooted root) (cur : ℤ) : Rooted { s with curThreadIndex := cur } root :=
  h.keep (h.table.schedule cur) rfl (fun _ _ => rfl) (fun _ hk => ⟨hk, rfl⟩)

end Rooted

end Tasks

namespace Forks

variable {s t : Forks} {c i k : ℕ} {q : Pending} {tasks : Tasks}

structure Tracked (s : Forks) : Prop where
  rooted : s.tasks.Rooted s.root
  known : ∀ tid q, s.pending tid = some q → tid < s.tasks.tidGlobal ∧ q.child < s.tasks.tidGlobal
  found : ∀ k q, s.tasks.Live k → s.pendingOf k = some q →
    findCtid (s.tasks.thread k) = q.value (s.tasks.thread k).tid
  right : ∀ k q, s.tasks.Live k → s.pendingOf k = some q →
    q.point.Right (s.frames q.child) (s.tasks.threads k) (s.tasks.thread k).tid
      (q.value (s.tasks.thread k).tid)
  returns : ∀ r ∈ s.returns, r.value = if r.tid = r.child then -1 else r.child

theorem Current.eq (hcur : s.Current c) (hk : s.Current k) : c = k := by
  have := hcur.1
  have := hk.1
  omega

theorem Current.getCurThreadTid (hcur : s.Current c) (hc : s.tasks.Consistent) :
    s.tasks.getCurThreadTid = some (s.tasks.thread c).tid :=
  hc.getCurThreadTid_eq hcur.1 hcur.2

namespace Tracked

theorem of_tasks {root : ℤ → ℤ} (h : s.Tracked) (hrooted : tasks.Rooted root)
    (hglobal : s.tasks.tidGlobal ≤ tasks.tidGlobal)
    (hkept : ∀ k, tasks.Live k → (tasks.thread k).tid < s.tasks.tidGlobal → s.tasks.Live k ∧
      tasks.threads k = s.tasks.threads k ∧ tasks.thread k = s.tasks.thread k) :
    Tracked { s with tasks := tasks, root := root } := by
  have hold : ∀ k q, tasks.Live k → s.pending (tasks.thread k).tid = some q → s.tasks.Live k ∧
      tasks.threads k = s.tasks.threads k ∧ tasks.thread k = s.tasks.thread k :=
    fun k q hk hq => hkept k hk (h.known _ q hq).1
  refine ⟨hrooted, fun tid q hq => ?_, fun k q hk hq => ?_, fun k q hk hq => ?_, h.returns⟩
  · exact ⟨(h.known tid q hq).1.trans_le hglobal, (h.known tid q hq).2.trans_le hglobal⟩
  · obtain ⟨hl, -, hthread⟩ := hold k q hk hq
    change s.pending (tasks.thread k).tid = some q at hq
    rw [hthread] at hq
    exact hthread.symm ▸ h.found k q hl hq
  · obtain ⟨hl, hptr, hthread⟩ := hold k q hk hq
    change s.pending (tasks.thread k).tid = some q at hq
    change q.point.Right (s.frames q.child) (tasks.threads k) (tasks.thread k).tid
      (q.value (tasks.thread k).tid)
    rw [hthread] at hq ⊢
    rw [hptr]
    exact h.right k q hl hq

theorem create {p : ThreadPtr} {content : Thread} (h : s.Tracked) (hcur : s.Current c)
    (hp : s.tasks.Fresh p) (hlt : s.tasks.tidGlobal + 1 < 2 ^ 31)
    (hrun : (s.tasks.setObj p { content with ctid := fun _ => -1 }).threadRun p = some tasks) :
    (s.grow tasks).Tracked := by
  rcases Tasks.threadRun_added h.rooted.table (hcur.getCurThreadTid h.rooted.table) hp
    h.rooted.global_nonneg hlt hrun with rfl | ⟨i, hadd⟩
  · -- the table is full, and the tid has not been given away
    have hkept : ∀ k, (s.tasks.setObj p { content with ctid := fun _ => -1 }).Live k →
        s.tasks.Live k ∧ (s.tasks.setObj p { content with ctid := fun _ => -1 }).thread k =
          s.tasks.thread k := by
      intro k hk
      have hsame := Tasks.thread_setObj_of_ne { content with ctid := fun _ => -1 } (hp.not_mem k hk.1)
      exact ⟨⟨hk.1, hsame ▸ hk.2⟩, hsame⟩
    apply h.of_tasks (h.rooted.keep (h.rooted.table.setObj_fresh hp _) rfl
      (fun tid hlt => Function.update_of_ne hlt.ne ..) hkept) (le_refl _)
    exact fun k hk _ => ⟨(hkept k hk).1, rfl, (hkept k hk).2⟩
  · have hnew : (tasks.thread i).tid = s.tasks.tidGlobal := by rw [hadd.new]
    apply h.of_tasks (h.rooted.added hadd (fun _ => rfl)) (by rw [hadd.tidGlobal]; omega)
    intro k hk htid
    have hki : k ≠ i := by
      rintro rfl
      omega
    have hl := ((hadd.live k).mp hk).resolve_left hki
    refine ⟨hl, ?_, hadd.other k hl⟩
    rw [hadd.threads]
    exact Function.update_of_ne hki ..

theorem finish (h : s.Tracked) (hcur : s.Current c) (hend : s.tasks.Exits s.root i c tasks) :
    Tracked { s with tasks := tasks } := by
  obtain ⟨he, hthread, hrooted⟩ := h.rooted.ended hcur.2 hend
  apply h.of_tasks hrooted he.tidGlobal.ge
  intro k hk _
  obtain ⟨hl, hki⟩ := (he.live k).mp hk
  refine ⟨hl, ?_, hthread k hk⟩
  rw [he.threads]
  exact Function.update_of_ne hki ..

theorem schedule (h : s.Tracked) (cur : ℤ) :
    Tracked { s with tasks := { s.tasks with curThreadIndex := cur } } :=
  h.of_tasks (h.rooted.schedule cur) (le_refl _) (fun _ hk _ => ⟨hk, rfl, rfl⟩)

theorem fork {p : ThreadPtr} {content : Thread} {stack threadExec : ℕ} (frame : ForkFrame)
    (h : s.Tracked) (hcur : s.Current c) (hp : s.tasks.Fresh p)
    (hfree : ∃ k, k < threadNum ∧ ¬ s.tasks.Live k) (hlt : s.tasks.tidGlobal + 1 < 2 ^ 31)
    (hslot : findChildSlot (s.tasks.thread c) (-1) ≠ none)
    (hrun : (s.tasks.setObj p content).forkThread p stack threadExec = some tasks) :
    (s.begin c tasks frame).Tracked := by
  have htable := h.rooted.table
  have h0 := h.rooted.global_nonneg
  obtain ⟨i, hfork⟩ := Tasks.forkThread_forked htable hcur.1 hcur.2 hp hfree h0 hlt hrun
  have hglobal := hfork.tidGlobal
  have hltc := htable.tid_lt c hcur.2
  have htidc : (tasks.thread c).tid = (s.tasks.thread c).tid := by
    rw [hfork.parent]
    exact (Tasks.setCtid_fields ..).2.2.1
  have htidi : (tasks.thread i).tid = s.tasks.tidGlobal := by
    rw [hfork.child]
    rfl
  -- the call is new in both threads, and the other threads are where they were
  have hchild : (s.begin c tasks frame).pending s.tasks.tidGlobal =
      some ⟨(s.tasks.thread c).tid, s.tasks.tidGlobal, .begun⟩ := Function.update_self ..
  have hparent : (s.begin c tasks frame).pending (s.tasks.thread c).tid =
      some ⟨(s.tasks.thread c).tid, s.tasks.tidGlobal, .begun⟩ :=
    (Function.update_of_ne hltc.ne ..).trans (Function.update_self ..)
  have hpending : ∀ tid, tid ≠ s.tasks.tidGlobal → tid ≠ (s.tasks.thread c).tid →
      (s.begin c tasks frame).pending tid = s.pending tid :=
    fun tid h₁ h₂ => (Function.update_of_ne h₁ ..).trans (Function.update_of_ne h₂ ..)
  have hcases : ∀ k q, tasks.Live k → (s.begin c tasks frame).pendingOf k = some q →
      k = i ∧ q = ⟨(s.tasks.thread c).tid, s.tasks.tidGlobal, .begun⟩ ∨
      k = c ∧ q = ⟨(s.tasks.thread c).tid, s.tasks.tidGlobal, .begun⟩ ∨
      k ≠ i ∧ s.tasks.Live k ∧ s.pendingOf k = some q ∧ tasks.thread k = s.tasks.thread k := by
    intro k q hk hq
    change (s.begin c tasks frame).pending (tasks.thread k).tid = some q at hq
    rcases (hfork.live k).mp hk with rfl | hkl
    · rw [htidi, hchild] at hq
      exact .inl ⟨rfl, (Option.some.inj hq).symm⟩
    · have hltk := htable.tid_lt k hkl
      by_cases hkc : k = c
      · rw [hkc, htidc, hparent] at hq
        exact .inr (.inl ⟨hkc, (Option.some.inj hq).symm⟩)
      · have hthread := hfork.other k hkl hkc
        rw [hthread, hpending _ (by omega) (fun htid => hkc (htable.tid_inj hkl hcur.2 htid))] at hq
        refine .inr (.inr ⟨?_, hkl, hq, hthread⟩)
        rintro rfl
        exact hfork.dead hkl
  refine ⟨h.rooted.forked hcur.2 hfork (fun _ => rfl), fun tid q hq => ?_, fun k q hk hq => ?_,
    fun k q hk hq => ?_, h.returns⟩
  · change tid < tasks.tidGlobal ∧ q.child < tasks.tidGlobal
    by_cases h₁ : tid = s.tasks.tidGlobal
    · rw [h₁, hchild] at hq
      obtain rfl := Option.some.inj hq
      dsimp only
      omega
    · by_cases h₂ : tid = (s.tasks.thread c).tid
      · rw [h₂, hparent] at hq
        obtain rfl := Option.some.inj hq
        dsimp only
        omega
      · rw [hpending tid h₁ h₂] at hq
        have := h.known tid q hq
        omega
  · change findCtid (tasks.thread k) = q.value (tasks.thread k).tid
    rcases hcases k q hk hq with ⟨rfl, rfl⟩ | ⟨rfl, rfl⟩ | ⟨-, hkl, hq, hthread⟩
    · rw [Pending.value, if_pos htidi, hfork.child]
      exact findCtid_of_empty (fun _ _ => rfl)
    · rw [Pending.value, if_neg (by rw [htidc]; exact hltc.ne), hfork.parent]
      exact (h.rooted.filled k hcur.2).findCtid_set h0 hslot
    · rw [hthread]
      exact h.found k q hkl hq
  · rcases hcases k q hk hq with ⟨rfl, rfl⟩ | ⟨rfl, rfl⟩ | ⟨hki, hkl, hq, hthread⟩
    · trivial
    · trivial
    · have hframe : (s.begin c tasks frame).frames q.child = s.frames q.child :=
        Function.update_of_ne (h.known _ q hq).2.ne ..
      have hptr : tasks.threads k = s.tasks.threads k := by
        rw [hfork.threads]
        exact Function.update_of_ne hki ..
      change q.point.Right ((s.begin c tasks frame).frames q.child) (tasks.threads k)
        (tasks.thread k).tid (q.value (tasks.thread k).tid)
      rw [hframe, hptr, hthread]
      exact h.right k q hkl hq

theorem leave (h : s.Tracked) (hcur : s.Current c) (hq : s.pendingOf c = some q)
    (hpoint : q.point = .returning) : (s.leave c q).Tracked := by
  have hpending : ∀ tid p, (s.leave c q).pending tid = some p → s.pending tid = some p := by
    intro tid p hp
    by_cases htid : tid = (s.tasks.thread c).tid
    · rw [htid] at hp
      have hnone : (s.leave c q).pending (s.tasks.thread c).tid = none := Function.update_self ..
      rw [hnone] at hp
      cases hp
    · have hsame : (s.leave c q).pending tid = s.pending tid := Function.update_of_ne htid ..
      rwa [hsame] at hp
  refine ⟨h.rooted, fun tid p hp => h.known tid p (hpending tid p hp),
    fun k p hk hp => h.found k p hk (hpending _ p hp),
    fun k p hk hp => h.right k p hk (hpending _ p hp), fun r hr => ?_⟩
  rcases List.mem_append.mp hr with hr | hr
  · exact h.returns r hr
  · have hright := h.right c q hcur.2 hq
    rw [hpoint] at hright
    rw [List.mem_singleton.mp hr]
    exact hright

theorem stmt {point : ForkPoint} {frame : ForkFrame} (h : s.Tracked) (hcur : s.Current c)
    (hq : s.pendingOf c = some q)
    (hnext : q.point.next s.tasks (s.frames q.child) = some (point, frame))
    (hapart : ∀ k q', s.tasks.Live k → k ≠ c → s.pendingOf k = some q' → q'.child = q.child →
      ∀ l, q.point.stores = some l → q'.point.loads ≠ some l) :
    (s.proceed c q point frame).Tracked := by
  have htable := h.rooted.table
  have hself : (s.proceed c q point frame).pendingOf c = some { q with point := point } :=
    Function.update_self ..
  have hother : ∀ k, s.tasks.Live k → k ≠ c →
      (s.proceed c q point frame).pendingOf k = s.pendingOf k :=
    fun k hk hkc => Function.update_of_ne (fun htid => hkc (htable.tid_inj hk hcur.2 htid)) ..
  refine ⟨h.rooted, fun tid p hp => ?_, fun k p hk hp => ?_, fun k p hk hp => ?_, h.returns⟩
  · by_cases htid : tid = (s.tasks.thread c).tid
    · rw [htid] at hp ⊢
      obtain rfl := Option.some.inj (hself.symm.trans hp)
      exact h.known _ q hq
    · have hsame : (s.proceed c q point frame).pending tid = s.pending tid :=
        Function.update_of_ne htid ..
      rw [hsame] at hp
      exact h.known tid p hp
  · by_cases hkc : k = c
    · rw [hkc] at hp ⊢
      obtain rfl := Option.some.inj (hself.symm.trans hp)
      exact h.found c q hcur.2 hq
    · rw [hother k hk hkc] at hp
      exact h.found k p hk hp
  · by_cases hkc : k = c
    · rw [hkc] at hp ⊢
      obtain rfl := Option.some.inj (hself.symm.trans hp)
      have hframe : (s.proceed c q point frame).frames q.child = frame := Function.update_self ..
      rw [hframe]
      exact (h.right c q hcur.2 hq).next (hcur.getCurThreadTid htable) (htable.getThreadPtr_eq hcur.2)
        (h.found c q hcur.2 hq) hnext
    · rw [hother k hk hkc] at hp
      have hright := h.right k p hk hp
      by_cases hchild : p.child = q.child
      · have hframe : (s.proceed c q point frame).frames p.child = frame :=
          hchild ▸ Function.update_self ..
        rw [hframe]
        rw [hchild] at hright
        exact hright.frame hnext (hapart k p hk hkc hp hchild)
      · have hframe : (s.proceed c q point frame).frames p.child = s.frames p.child :=
          Function.update_of_ne hchild ..
        rw [hframe]
        exact hright

end Tracked

end Forks

namespace Forks

variable {s : Forks} {c : ℕ} {q : Pending} {tasks : Tasks}

def start (tasks : Tasks) (frames : ℤ → ForkFrame) : Forks := ⟨tasks, id, fun _ => none, frames, []⟩

def Quiet (s : Forks) (c : ℕ) : Prop := s.Steady c ∧ ∀ q, s.pendingOf c = some q → ∀ k q',
  s.tasks.Live k → k ≠ c → s.pendingOf k = some q' → q'.child = q.child → q'.point.loads = none

theorem Quiet.proceed {point : ForkPoint} {frame : ForkFrame} (h : s.Quiet c) (hc : s.tasks.Consistent)
    (hl : s.tasks.Live c) (hq : s.pendingOf c = some q) : (s.proceed c q point frame).Quiet c := by
  obtain ⟨⟨hhouse, hframe⟩, hother⟩ := h
  have hself : (s.proceed c q point frame).pendingOf c = some { q with point := point } :=
    Function.update_self ..
  refine ⟨⟨hhouse, fun p hp => ?_⟩, fun p hp k q' hk hkc hq' hchild => ?_⟩
  · obtain rfl := Option.some.inj (hself.symm.trans hp)
    by_cases htid : q.caller = (s.tasks.thread c).tid
    · exact ⟨_, htid ▸ hself, rfl⟩
    · obtain ⟨q', hq', hchild⟩ := hframe q hq
      exact ⟨q', (Function.update_of_ne htid ..).trans hq', hchild⟩
  · obtain rfl := Option.some.inj (hself.symm.trans hp)
    have hsame : (s.proceed c q point frame).pendingOf k = s.pendingOf k :=
      Function.update_of_ne (fun htid => hkc (hc.tid_inj hk hl htid)) ..
    exact hother q hq k q' hk hkc (hsame ▸ hq') hchild

theorem Quiet.meets (h : s.Quiet c) (hcur : s.Current c) : ForkOp.stmt.Meets s := by
  refine ⟨fun k hk => hcur.eq hk ▸ h.1, fun k q hk hq j q' hj hjk hq' hchild l _ hloads => ?_⟩
  obtain rfl := hcur.eq hk
  rw [h.2 q hq j q' hj hjk hq' hchild] at hloads
  cases hloads

theorem call_returns {v : ℤ} (hc : s.tasks.Consistent) (hcur : s.Current c) (hq : s.pendingOf c = some q)
    (hfind : findCtid (s.tasks.thread c) = v)
    (hright : q.point.Right (s.frames q.child) (s.tasks.threads c) (s.tasks.thread c).tid v) :
    ∃ n t, Run (fun u op t => ForkStep u op t ∧ (s.Quiet c → op.Meets u)) s
        (List.replicate n .stmt ++ [.leave]) t ∧ t.tasks = s.tasks ∧ t.root = s.root ∧
      t.pending = Function.update s.pending (s.tasks.thread c).tid none ∧
      t.returns = s.returns ++ [⟨(s.tasks.thread c).tid, q.child, v⟩] := by
  have htid := hcur.getCurThreadTid hc
  induction hleft : q.point.left using Nat.strong_induction_on generalizing s q with
  | _ m ih =>
    cases hnext : q.point.next s.tasks (s.frames q.child) with
    | none =>
      have hpoint := ForkPoint.next_eq_none htid hnext
      rw [hpoint] at hright
      obtain rfl : (s.frames q.child).retval = v := hright
      exact ⟨0, _, .single ⟨.leave hcur hq hpoint, fun hquiet => ⟨(hquiet.meets hcur).1, trivial⟩⟩,
        rfl, rfl, rfl, rfl⟩
    | some next =>
      obtain ⟨point, frame⟩ := next
      have hself : (s.proceed c q point frame).pendingOf c = some { q with point := point } :=
        Function.update_self ..
      have hframe : (s.proceed c q point frame).frames q.child = frame := Function.update_self ..
      have hright' := hright.next htid (hc.getThreadPtr_eq hcur.2) hfind hnext
      have hless := ForkPoint.left_next hnext
      obtain ⟨n, t, hrun, htasks, hroot, hpending, hreturns⟩ := ih point.left (hleft ▸ hless)
        (s := s.proceed c q point frame) (q := { q with point := point }) hc hcur hself hfind
        (hframe.symm ▸ hright') htid rfl
      refine ⟨n + 1, t, .cons ⟨.stmt hcur hq hnext, fun hquiet => hquiet.meets hcur⟩
        (hrun.mono fun hstep => ⟨hstep.1, fun hquiet => hstep.2 (hquiet.proceed hc hcur.2 hq)⟩),
        htasks, hroot, ?_, hreturns⟩
      rw [hpending]
      exact Function.update_idem ..

end Forks

section Example

def childless : Thread := { emptyThread with ctid := fun _ => -1 }

def loneTasks : Tasks := (Tasks.bootTasks.setObj (.at 16) childless).enter (.at 16) .runnable 0 (-1)

def forkedTasks : Tasks :=
  (((loneTasks.setObj (.at 32) childless).forkThread (.at 32) 0x20000 0).get (by decide))

def forkNext (s : Tasks) (n : ℕ) : Option Tasks :=
  (s.setObj (.at (32 + 16 * n)) childless).forkThread (.at (32 + 16 * n)) 0x20000 0

def broodTasks : ℕ → Tasks
  | 0 => loneTasks
  | n + 1 => { (forkNext (broodTasks n) n).getD (broodTasks n) with curThreadIndex := (0 : ℕ) }

theorem broodTasks_forkNext {n : ℕ} (hn : n < 11) : (forkNext (broodTasks n) n).isSome = true ∧
    (broodTasks n).curThreadIndex = 0 ∧ (broodTasks n).Live 0 ∧ ((broodTasks n).thread 0).tid = 0 ∧
    (broodTasks n).tidGlobal = n + 1 ∧ (broodTasks n).Fresh (.at (32 + 16 * n)) ∧
    ¬ (broodTasks n).Live 39 ∧ (n < 10 → findChildSlot ((broodTasks n).thread 0) (-1) ≠ none) := by
  have hcheck : ∀ n, n < 11 → (forkNext (broodTasks n) n).isSome = true ∧
      (broodTasks n).curThreadIndex = 0 ∧ ((broodTasks n).thread 0).state ≠ .dead ∧
      ((broodTasks n).thread 0).tid = 0 ∧ (broodTasks n).tidGlobal = n + 1 ∧
      (∀ i, i < threadNum → (broodTasks n).threads i ≠ .at (32 + 16 * n)) ∧
      ((broodTasks n).thread 39).state = .dead ∧
      (n < 10 → findChildSlot ((broodTasks n).thread 0) (-1) ≠ none) := by decide +kernel
  obtain ⟨hsome, hcur, hlive, htid, hglobal, hfresh, hfree, hslot⟩ := hcheck n hn
  exact ⟨hsome, hcur, ⟨by decide, hlive⟩, htid, hglobal,
    ⟨by simp, fun he => absurd (ThreadPtr.at.inj he) (by omega), hfresh⟩, fun hl => hl.2 hfree, hslot⟩

theorem broodTasks_child {n : ℕ} {tasks : Tasks} (hn : n < 11)
    (htasks : forkNext (broodTasks n) n = some tasks) : tasks.curThreadIndex = (n + 1 : ℕ) ∧
      tasks.Live (n + 1) ∧ (tasks.thread (n + 1)).tid = n + 1 ∧
      (∀ j, j < nthreadChild → (tasks.thread (n + 1)).ctid j = -1) ∧
      tasks.Live 0 ∧ (tasks.thread 0).tid = 0 ∧
      broodTasks (n + 1) = { tasks with curThreadIndex := (0 : ℕ) } := by
  have hcheck : ∀ n, n < 11 → ∀ tasks ∈ forkNext (broodTasks n) n,
      tasks.curThreadIndex = (n + 1 : ℕ) ∧ (tasks.thread (n + 1)).state ≠ .dead ∧
      (tasks.thread (n + 1)).tid = n + 1 ∧
      (∀ j, j < nthreadChild → (tasks.thread (n + 1)).ctid j = -1) ∧
      (tasks.thread 0).state ≠ .dead ∧ (tasks.thread 0).tid = 0 := by decide +kernel
  obtain ⟨hcur, hchild, htid, hctid, hlive, htid0⟩ := hcheck n hn tasks htasks
  refine ⟨hcur, ⟨by simp only [threadNum]; omega, hchild⟩, htid, hctid, ⟨by decide, hlive⟩, htid0, ?_⟩
  rw [broodTasks, htasks]
  rfl

def blankFrame : ForkFrame := ⟨0, .at 0, 0, 0⟩

def lone : Forks := .start loneTasks (fun _ => blankFrame)

namespace Forks

def stmts (c : ℕ) : ℕ → Forks → Option Forks
  | 0, s => some s
  | n + 1, s => do
    let q ← s.pendingOf c
    let (point, frame) ← q.point.next s.tasks (s.frames q.child)
    stmts c n (s.proceed c q point frame)

theorem stmts_run {s t : Forks} {c n : ℕ} (hcur : s.Current c) (h : stmts c n s = some t) :
    Run ForkStep s (List.replicate n .stmt) t ∧ t.Current c := by
  induction n generalizing s with
  | zero =>
    obtain rfl := Option.some.inj h
    exact ⟨.nil, hcur⟩
  | succ n ih =>
    simp only [stmts, Option.bind_eq_bind, Option.bind_eq_some_iff, Prod.exists] at h
    obtain ⟨q, hq, point, frame, hnext, h⟩ := h
    obtain ⟨hrun, ht⟩ := ih (s := s.proceed c q point frame) hcur h
    exact ⟨.cons (.stmt hcur hq hnext) hrun, ht⟩

structure Resting (s : Forks) (n : ℕ) : Prop where
  tasks : s.tasks = broodTasks n
  table : s.tasks.Consistent
  pending : s.pending = fun _ => none
  root : s.root 0 = 0

structure Forking (s : Forks) (n : ℕ) (own : Option Pending) : Prop where
  table : s.tasks.Consistent
  current : s.Current (n + 1)
  tid : (s.tasks.thread (n + 1)).tid = n + 1
  parent : s.tasks.Live 0
  parent_tid : (s.tasks.thread 0).tid = 0
  next : broodTasks (n + 1) = { s.tasks with curThreadIndex := (0 : ℕ) }
  childless : ∀ j, j < nthreadChild → (s.tasks.thread (n + 1)).ctid j = -1
  pending : s.pending =
    Function.update (Function.update (fun _ => none) (0 : ℤ) (some ⟨0, n + 1, .begun⟩)) (n + 1 : ℤ) own
  root : s.root (n + 1) = 0
  parent_root : s.root 0 = 0

theorem Resting.fork {s : Forks} {n : ℕ} (h : s.Resting n) (hn : n < 11) : ∃ op u,
    ForkStep s op u ∧ s.InPlace ∧ (n < 10 → op.Meets s) ∧ u.Forking n (some ⟨0, n + 1, .begun⟩) ∧
      u.returns = s.returns := by
  obtain ⟨hs, hc, hnone, hroot⟩ := h
  obtain ⟨hsome, hcur, hl, htid, hglobal, hfresh, hdead, hslot⟩ := broodTasks_forkNext hn
  obtain ⟨tasks, htasks⟩ := Option.isSome_iff_exists.mp hsome
  obtain ⟨hcurc, hlc, htidc, hempty, hl0, htid0, hnext⟩ := broodTasks_child hn htasks
  rw [← hs] at hcur hl htid hglobal hfresh hdead hslot htasks
  have hpending : ∀ k, s.pendingOf k = none := fun k => congrFun hnone _
  have hforked : ForkStep s (.fork (.at (32 + 16 * n)) childless 0x20000 0 blankFrame)
      (s.begin 0 tasks blankFrame) :=
    .fork ⟨hcur, hl⟩ (hpending 0) hfresh ⟨39, by decide, hdead⟩ htasks
  have hplace : s.InPlace := by
    intro c hc
    obtain rfl := hc.eq ⟨hcur, hl⟩
    exact ⟨⟨0, hl, by rw [htid, hroot]⟩, fun q hq => absurd hq (by simp [hpending])⟩
  have hmeets : n < 10 → (ForkOp.fork (.at (32 + 16 * n)) childless 0x20000 0 blankFrame).Meets s := by
    refine fun hn => ⟨hplace, by rw [hglobal]; omega, fun c hc => ?_⟩
    obtain rfl := hc.eq ⟨hcur, hl⟩
    exact hslot hn
  obtain ⟨i, hfork⟩ := Tasks.forkThread_forked hc hcur hl hfresh ⟨39, by decide, hdead⟩
    (by rw [hglobal]; omega) (by rw [hglobal]; omega) htasks
  refine ⟨_, _, hforked, hplace, hmeets, ⟨hfork.consistent, ⟨hcurc, hlc⟩, htidc, hl0, htid0, hnext, hempty,
    ?_, ?_, ?_⟩, rfl⟩
  · simp only [begin, hnone, htid, hglobal]
  · simp only [begin, hglobal, htid, hroot, Function.update_self]
  · simp only [begin, hglobal]
    rw [Function.update_of_ne (by omega), hroot]

theorem Forking.houses {u : Forks} {n : ℕ} {own : Option Pending} (h : u.Forking n own) :
    u.tasks.Houses u.root 0 (n + 1) := by
  refine ⟨h.parent, ?_⟩
  rw [h.tid, h.root]
  exact h.parent_tid

theorem Forking.quiet {u : Forks} {n : ℕ} (h : u.Forking n (some ⟨0, n + 1, .begun⟩)) : u.Quiet (n + 1) := by
  have hbegun : ∀ tid q, u.pending tid = some q → q = ⟨0, n + 1, .begun⟩ := by
    intro tid q hq
    rw [h.pending] at hq
    by_cases hchild : tid = n + 1
    · rw [hchild, Function.update_self] at hq
      exact (Option.some.inj hq).symm
    · rw [Function.update_of_ne hchild] at hq
      by_cases hparent : tid = 0
      · rw [hparent, Function.update_self] at hq
        exact (Option.some.inj hq).symm
      · rw [Function.update_of_ne hparent] at hq
        cases hq
  refine ⟨⟨⟨0, h.houses⟩, fun q hq => ?_⟩, fun q _ k q' _ _ hq' _ => ?_⟩
  · obtain rfl := hbegun _ q hq
    have hparent : (0 : ℤ) ≠ n + 1 := by omega
    exact ⟨⟨0, n + 1, .begun⟩, by rw [h.pending, Function.update_of_ne hparent, Function.update_self], rfl⟩
  · rw [hbegun _ q' hq']
    rfl

theorem Forking.child {u : Forks} {n : ℕ} (h : u.Forking n (some ⟨0, n + 1, .begun⟩)) : ∃ ops v,
    Run (fun u op t => ForkStep u op t ∧ op.Meets u) u ops v ∧ v.Forking n none ∧
      v.returns = u.returns ++ [⟨n + 1, n + 1, -1⟩] := by
  have hown : u.pendingOf (n + 1) = some ⟨0, n + 1, .begun⟩ := by
    rw [pendingOf, h.tid, h.pending, Function.update_self]
  obtain ⟨m, v, hrun, htasks, hroot, hpending, hreturns⟩ := call_returns h.table h.current hown
    (findCtid_of_empty h.childless) trivial
  refine ⟨_, v, hrun.mono fun hstep => ⟨hstep.1, hstep.2 h.quiet⟩, ?_, by rw [hreturns, h.tid]⟩
  refine ⟨htasks ▸ h.table, ?_, htasks ▸ h.tid, htasks ▸ h.parent, htasks ▸ h.parent_tid, htasks ▸ h.next,
    htasks ▸ h.childless, ?_, hroot ▸ h.root, hroot ▸ h.parent_root⟩
  · rw [Current, htasks]
    exact h.current
  · rw [hpending, h.tid, h.pending, Function.update_idem]

theorem Forking.schedule {v : Forks} {n : ℕ} (h : v.Forking n none) : (ForkOp.schedule 0).Meets v := by
  refine ⟨fun c hc => ?_, trivial⟩
  obtain rfl := h.current.eq hc
  refine ⟨⟨0, h.houses⟩, fun q hq => ?_⟩
  rw [pendingOf, h.tid, h.pending, Function.update_self] at hq
  cases hq

end Forks

def switched (s : Forks) (i : ℕ) : Forks := { s with tasks := { s.tasks with curThreadIndex := i } }

def childFound : Forks := (Forks.stmts 1 4 (lone.begin 0 forkedTasks blankFrame)).get (by decide +kernel)

def bothFound : Forks := (Forks.stmts 0 4 (switched childFound 0)).get (by decide +kernel)

def childMisled : Forks := (Forks.stmts 1 5 (switched bothFound 1)).get (by decide +kernel)

/-- A switch before the child looks at its array: it takes itself for its parent. -/
theorem fork_misleads_child : ∃ s, Run ForkStep lone ([.fork (.at 32) childless 0x20000 0 blankFrame] ++
      List.replicate 4 .stmt ++ [.schedule 0] ++ List.replicate 4 .stmt ++ [.schedule 1] ++
        List.replicate 5 .stmt ++ [.leave]) s ∧ s.returns = [⟨1, 1, 1⟩] := by
  have hfork : ForkStep lone (.fork (.at 32) childless 0x20000 0 blankFrame)
      (lone.begin 0 forkedTasks blankFrame) :=
    .fork ⟨rfl, by decide, by decide⟩ rfl ⟨by decide, by decide, by decide⟩
      ⟨1, by decide, fun hl => hl.2 rfl⟩ (Option.some_get _).symm
  obtain ⟨hchild, -⟩ := Forks.stmts_run (c := 1) (n := 4) (t := childFound)
    ⟨by decide, by decide, by decide⟩ (Option.some_get _).symm
  obtain ⟨hparent, -⟩ := Forks.stmts_run (s := switched childFound 0) (c := 0) (n := 4) (t := bothFound)
    ⟨by decide, by decide, by decide +kernel⟩ (Option.some_get _).symm
  obtain ⟨hmisled, hcur⟩ := Forks.stmts_run (s := switched bothFound 1) (c := 1) (n := 5)
    (t := childMisled) ⟨by decide, by decide, by decide +kernel⟩ (Option.some_get _).symm
  have hpending : childMisled.pendingOf 1 = some ⟨0, 1, .returning⟩ := by decide +kernel
  refine ⟨_, ((((((Run.single hfork).append hchild).append (.single (.schedule ?_))).append
    hparent).append (.single (.schedule ?_))).append hmisled).append
    (.single (.leave hcur hpending rfl)), by decide +kernel⟩
  · exact ⟨by decide, by decide +kernel⟩
  · exact ⟨by decide, by decide +kernel⟩

end Example

end MinOS
