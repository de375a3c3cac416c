import MinOS.InterruptFlag
import MinOS.PipeForks
import MinOS.Pipes

namespace MinOS

open Library.Interleavings Library.Programs Library.Runs

def Apart (n ptr buf : ℕ) : Prop := buf + n ≤ ptr ∨ (ptr : ℤ) + npipeQueue ≤ buf

instance (n ptr buf : ℕ) : Decidable (Apart n ptr buf) := inferInstanceAs (Decidable (_ ∨ _))

def beginsCall (n ps ptr : ℕ) (m : Core) : PipePoint → PipePoint → Bool
  | .idle, .getThread _ buf =>
    decide ((m.kernel.tasks.thread m.current).pstruct = ps ∧ Apart n ptr buf)
  | _, _ => false

def pipeThreads (n ps ptr : ℕ) : Threads Core ℕ PipePoint :=
  preemptive (PipePoint.next n) (beginsCall n ps ptr)

/-- The threads, the messages of the calls of `pwrite` that have made their last assignment, and what
the calls of `pread` have left in their buffers with theirs: then they return 1. -/
structure Sharing where
  config : Config Core ℕ PipePoint
  written : List (List (BitVec 8))
  delivered : List (List (BitVec 8))

def AsFound (m : Core) : PipePoint → Prop
  | .claim f _ t => (m.pipe t).pstate = f.expects
  | _ => True

def completed (n : ℕ) (f : PipeFun) (m : Core) : PipePoint → List (List (BitVec 8))
  | .release g buf _ => if g = f then [m.bytes buf n] else []
  | _ => []

namespace Sharing

def exec (n ps ptr : ℕ) (s : Sharing) (e : Event ℕ PipePoint) : Option Sharing :=
  ((pipeThreads n ps ptr).exec s.config e).map (fun d =>
    match e with
    | .stmt =>
      { config := d
        written := s.written ++ completed n .pwrite s.config.state ((pipeThreads n ps ptr).point s.config)
        delivered := s.delivered ++ completed n .pread s.config.state ((pipeThreads n ps ptr).point s.config) }
    | _ => { s with config := d })

/-- The pipe is still in the state that a thread has found when the thread sets it. -/
def Undisturbed (n ps ptr : ℕ) (s : Sharing) : Event ℕ PipePoint → Prop
  | .stmt => AsFound s.config.state ((pipeThreads n ps ptr).point s.config)
  | _ => True

def unread (pstate : PipeState) (content : List (BitVec 8)) : List (List (BitVec 8)) :=
  match pstate with
  | .empty | .sending => []
  | .exist | .receiving => [content]

end Sharing

def At (k : Kernel) (n ps ptr : ℕ) (owner : Option ℕ) (pstate : PipeState) (mem : ℕ → BitVec 8)
    (j : ℕ) : PipePoint → Prop
  | .idle | .ret _ _ _ => owner ≠ some j
  | .getThread _ buf => owner ≠ some j ∧ (k.tasks.thread j).pstruct = ps ∧ Apart n ptr buf
  | .test _ buf t | .claim _ buf t => owner ≠ some j ∧ (k.tasks.obj t).pstruct = ps ∧ Apart n ptr buf
  | .memcpy f buf t => owner = some j ∧ (k.tasks.obj t).pstruct = ps ∧ Apart n ptr buf ∧ pstate = f.during
  | .copy f buf t c₁ c₂ i => owner = some j ∧ (k.tasks.obj t).pstruct = ps ∧ Apart n ptr buf ∧
      pstate = f.during ∧ c₁ = f.dst ptr buf ∧ c₂ = f.src ptr buf ∧ i ≤ n ∧
      ∀ l, l < i → mem (c₁ + l) = mem (c₂ + l)
  | .release f buf t => owner = some j ∧ (k.tasks.obj t).pstruct = ps ∧ pstate = f.during ∧
      ∀ l, l < n → mem (f.dst ptr buf + l) = mem (f.src ptr buf + l)

theorem At.of_ne {k : Kernel} {n ps ptr j : ℕ} {owner owner' : Option ℕ} {pstate pstate' : PipeState}
    {mem mem' : ℕ → BitVec 8} {q : PipePoint} (h : At k n ps ptr owner pstate mem j q)
    (hne : owner ≠ some j) (hne' : owner' ≠ some j) : At k n ps ptr owner' pstate' mem' j q := by
  cases q with
  | idle | ret _ _ _ => exact hne'
  | getThread _ _ | test _ _ _ | claim _ _ _ => exact ⟨hne', h.2⟩
  | memcpy _ _ _ | copy _ _ _ _ _ _ | release _ _ _ => exact absurd h.1 hne

structure Frame (k : Kernel) (ps ptr : ℕ) (m : Core) : Prop where
  tasks : ∃ c, m.kernel.tasks = { k.tasks with curThreadIndex := c }
  running : ∃ c, m.kernel.tasks.Running c
  pipePtr : (m.kernel.pipes ps).pipePtr = ptr

structure Sharing.Exclusive (k : Kernel) (n ps ptr : ℕ) (owner : Option ℕ) (s : Sharing) : Prop where
  frame : Frame k ps ptr s.config.state
  free_iff : owner = none ↔ (s.config.state.kernel.pipes ps).pstate = .empty ∨
    (s.config.state.kernel.pipes ps).pstate = .exist
  messages : s.written = s.delivered ++
    Sharing.unread (s.config.state.kernel.pipes ps).pstate (s.config.state.bytes ptr n)
  points : ∀ j, At k n ps ptr owner (s.config.state.kernel.pipes ps).pstate s.config.state.mem j
    (s.config.points j)

section Steps

variable {k : Kernel} {n ps ptr c : ℕ} {owner : Option ℕ} {m : Core} {t : ThreadPtr}

theorem Tasks.Consistent.of_cur {s : Tasks} (hc : s.Consistent) {cur : ℤ} {t : Tasks}
    (ht : t = { s with curThreadIndex := cur }) : t.Consistent := by
  subst ht
  exact hc.schedule cur

theorem Core.curThreadPtr_eq (hc : m.kernel.tasks.Consistent) (hr : m.kernel.tasks.Running c) :
    m.curThreadPtr = some (m.kernel.tasks.threads c, { m with intr := true }) := by
  rw [Core.curThreadPtr, Program.run_bind, Code.getCurThreadTid_run, hr.getCurThreadTid hc,
    Option.map_some, Option.bind_some, Code.getThreadPtr_run]
  dsimp only
  rw [hc.getThreadPtr_eq hr.live, Bool.true_or]

namespace Frame

variable (h : Frame k ps ptr m)
include h

theorem obj : m.kernel.tasks.obj = k.tasks.obj := by
  obtain ⟨c, hc⟩ := h.tasks
  rw [hc]

theorem pstruct (ht : (k.tasks.obj t).pstruct = ps) : m.pstruct t = ps := by
  rw [Core.pstruct, h.obj, ht]

theorem pipe (ht : (k.tasks.obj t).pstruct = ps) : m.pipe t = m.kernel.pipes ps := by
  rw [Core.pipe, h.pstruct ht]

theorem curThreadPtr (hc : k.tasks.Consistent) (hr : m.kernel.tasks.Running c) :
    m.curThreadPtr = some (k.tasks.threads c, { m with intr := true }) := by
  obtain ⟨cur, hcur⟩ := h.tasks
  rw [Core.curThreadPtr_eq (hc.of_cur hcur) hr, hcur]

theorem setPstate (t : ThreadPtr) (pstate : PipeState) (ht : (k.tasks.obj t).pstruct = ps) :
    Frame k ps ptr (m.setPstate t pstate) ∧
      ((m.setPstate t pstate).kernel.pipes ps).pstate = pstate := by
  have hself : (m.setPstate t pstate).kernel.pipes ps = { m.pipe t with pstate := pstate } := by
    simp [Core.setPstate, Kernel.setPipe, h.pstruct ht]
  refine ⟨⟨h.tasks, h.running, ?_⟩, ?_⟩
  · rw [hself, h.pipe ht]
    exact h.pipePtr
  · rw [hself]

end Frame

theorem copy_step {f : PipeFun} {buf i : ℕ} {mem : ℕ → BitVec 8} (hn : n ≤ npipeQueue)
    (hapart : Apart n ptr buf) (hi : i < n)
    (hcopied : ∀ l, l < i → mem (f.dst ptr buf + l) = mem (f.src ptr buf + l)) :
    ∀ l, l < i + 1 → Function.update mem (f.dst ptr buf + i) (mem (f.src ptr buf + i)) (f.dst ptr buf + l) =
      Function.update mem (f.dst ptr buf + i) (mem (f.src ptr buf + i)) (f.src ptr buf + l) := by
  intro l hl
  have hsrc : f.src ptr buf + l ≠ f.dst ptr buf + i := by
    cases f <;> simp only [PipeFun.src, PipeFun.dst, Apart] at * <;> omega
  rw [Function.update_of_ne hsrc]
  by_cases hli : l = i
  · subst hli
    rw [Function.update_self]
  · rw [Function.update_of_ne (by omega)]
    exact hcopied l (by omega)

theorem bytes_congr {m m' : Core} {p q : ℕ} (h : ∀ l, l < n → m.mem (p + l) = m'.mem (q + l)) :
    m.bytes p n = m'.bytes q n := by
  apply List.map_congr_left
  intro l hl
  exact h l (List.mem_range.mp hl)

namespace Sharing

variable {s s' : Sharing} {q : PipePoint} {e : Event ℕ PipePoint}

theorem Exclusive.advance (h : s.Exclusive k n ps ptr owner) (hframe : Frame k ps ptr m)
    (hpipes : m.kernel.pipes = s.config.state.kernel.pipes) (hmem : m.mem = s.config.state.mem)
    (hq : At k n ps ptr owner (s.config.state.kernel.pipes ps).pstate s.config.state.mem
      s.config.state.current q) :
    Exclusive k n ps ptr owner { s with config := (pipeThreads n ps ptr).move s.config q m } := by
  constructor
  · exact hframe
  · simp only [Threads.move, hpipes]
    exact h.free_iff
  · simp only [Threads.move, hpipes, Core.bytes, hmem]
    exact h.messages
  · simp only [Threads.move, hpipes, hmem]
    exact forall_points h.points hq (fun j _ q hj => hj)

theorem Exclusive.hold {owner' : Option ℕ} {written delivered : List (List (BitVec 8))}
    (h : s.Exclusive k n ps ptr owner) (hframe : Frame k ps ptr m)
    (hbefore : owner = none ∨ owner = some s.config.state.current)
    (hafter : owner' = none ∨ owner' = some s.config.state.current)
    (hfree : owner' = none ↔ (m.kernel.pipes ps).pstate = .empty ∨ (m.kernel.pipes ps).pstate = .exist)
    (hmessages : written = delivered ++ unread (m.kernel.pipes ps).pstate (m.bytes ptr n))
    (hq : At k n ps ptr owner' (m.kernel.pipes ps).pstate m.mem s.config.state.current q) :
    Exclusive k n ps ptr owner' ⟨(pipeThreads n ps ptr).move s.config q m, written, delivered⟩ := by
  have hne : ∀ {o : Option ℕ} {j : ℕ}, o = none ∨ o = some s.config.state.current →
      j ≠ s.config.state.current → o ≠ some j := by
    rintro _ j (rfl | rfl) hj
    · simp
    · simpa using hj.symm
  constructor
  · exact hframe
  · exact hfree
  · exact hmessages
  · exact forall_points h.points hq (fun j hj q hold => hold.of_ne (hne hbefore hj) (hne hafter hj))

theorem expects_iff (pstate : PipeState) :
    (pstate = .empty ∨ pstate = .exist) ↔ ∃ f : PipeFun, pstate = f.expects := by
  constructor
  · rintro (rfl | rfl)
    · exact ⟨.pwrite, rfl⟩
    · exact ⟨.pread, rfl⟩
  · rintro ⟨f, rfl⟩
    cases f
    · exact .inr rfl
    · exact .inl rfl

theorem during_ne (f : PipeFun) : ¬ (f.during = .empty ∨ f.during = .exist) := by
  cases f <;> simp [PipeFun.during]

theorem leaves_free (f : PipeFun) : f.leaves = .empty ∨ f.leaves = .exist := by
  cases f
  · exact .inl rfl
  · exact .inr rfl

theorem unread_claim (f : PipeFun) (content : List (BitVec 8)) :
    unread f.during content = unread f.expects content := by
  cases f <;> rfl

theorem unread_copy {f : PipeFun} {buf i : ℕ} {pstate : PipeState} {b : BitVec 8}
    (hn : n ≤ npipeQueue) (hapart : Apart n ptr buf) (hstate : pstate = f.during) (hi : i < n) :
    unread pstate ((m.setByte (f.dst ptr buf + i) b).bytes ptr n) = unread pstate (m.bytes ptr n) := by
  subst hstate
  cases f with
  | pread =>
    have hbytes : (m.setByte (buf + i) b).bytes ptr n = m.bytes ptr n := by
      apply bytes_congr
      intro l hl
      apply Function.update_of_ne
      simp only [Apart] at hapart
      omega
    exact congrArg (unread _) hbytes
  | pwrite => rfl

theorem Exclusive.stmt (hc : k.tasks.Consistent) (hn : n ≤ npipeQueue)
    (h : s.Exclusive k n ps ptr owner) (hguard : s.Undisturbed n ps ptr .stmt)
    (hexec : s.exec n ps ptr .stmt = some s') : ∃ owner', s'.Exclusive k n ps ptr owner' := by
  obtain ⟨d, hd, rfl⟩ := Option.map_eq_some_iff.mp hexec
  obtain ⟨⟨q, m⟩, hnext, rfl⟩ := Option.map_eq_some_iff.mp hd
  have hpoint := h.points s.config.state.current
  change PipePoint.next n (s.config.points s.config.state.current) s.config.state = some (q, m) at hnext
  change AsFound s.config.state (s.config.points s.config.state.current) at hguard
  have hwhere : (pipeThreads n ps ptr).point s.config = s.config.points s.config.state.current := rfl
  dsimp only
  rw [hwhere]
  generalize s.config.points s.config.state.current = p at hpoint hnext hguard ⊢
  cases p with
  | idle => cases hnext
  | getThread f buf =>
    obtain ⟨c, hr⟩ := h.frame.running
    rw [PipePoint.next, h.frame.curThreadPtr hc hr, Option.map_some, Option.some.injEq] at hnext
    obtain ⟨rfl, rfl⟩ := Prod.mk.inj hnext
    obtain rfl := Core.current_eq hr
    simp only [completed, List.append_nil]
    exact ⟨owner, h.advance ⟨h.frame.tasks, h.frame.running, h.frame.pipePtr⟩ rfl rfl hpoint⟩
  | test f buf t =>
    rw [PipePoint.next] at hnext
    simp only [completed, List.append_nil]
    split_ifs at hnext with hstate
    · obtain ⟨rfl, rfl⟩ := Prod.mk.inj (Option.some.inj hnext)
      exact ⟨owner, h.advance h.frame rfl rfl hpoint⟩
    · obtain ⟨rfl, rfl⟩ := Prod.mk.inj (Option.some.inj hnext)
      exact ⟨owner, h.advance h.frame rfl rfl hpoint.1⟩
  | claim f buf t =>
    obtain ⟨rfl, rfl⟩ := Prod.mk.inj (Option.some.inj hnext)
    obtain ⟨-, ht, hapart⟩ := hpoint
    rw [AsFound, h.frame.pipe ht] at hguard
    obtain ⟨hframe, hset⟩ := h.frame.setPstate t f.during ht
    simp only [completed, List.append_nil]
    refine ⟨some s.config.state.current, h.hold hframe (.inl ?_) (.inr rfl) ?_ ?_ ?_⟩
    · rw [h.free_iff, expects_iff]
      exact ⟨f, hguard⟩
    · rw [hset]
      simp [during_ne]
    · rw [hset, unread_claim, ← hguard]
      exact h.messages
    · rw [hset]
      exact ⟨rfl, ht, hapart, rfl⟩
  | memcpy f buf t =>
    obtain ⟨rfl, rfl⟩ := Prod.mk.inj (Option.some.inj hnext)
    obtain ⟨howner, ht, hapart, hstate⟩ := hpoint
    simp only [completed, List.append_nil]
    refine ⟨owner, h.advance h.frame rfl rfl ⟨howner, ht, hapart, hstate, ?_, ?_, Nat.zero_le _, ?_⟩⟩
    · rw [h.frame.pipe ht, h.frame.pipePtr]
    · rw [h.frame.pipe ht, h.frame.pipePtr]
    · intro l hl
      omega
  | copy f buf t c₁ c₂ i =>
    obtain ⟨howner, ht, hapart, hstate, rfl, rfl, hi, hcopied⟩ := hpoint
    rw [PipePoint.next] at hnext
    simp only [completed, List.append_nil]
    split_ifs at hnext with hlt
    · obtain ⟨rfl, rfl⟩ := Prod.mk.inj (Option.some.inj hnext)
      refine ⟨owner, h.hold ⟨h.frame.tasks, h.frame.running, h.frame.pipePtr⟩ (.inr howner)
        (.inr howner) h.free_iff ?_ ⟨howner, ht, hapart, hstate, rfl, rfl, hlt, ?_⟩⟩
      · have hsame := unread_copy (m := s.config.state) (b := s.config.state.mem (f.src ptr buf + i))
          hn hapart hstate hlt
        exact h.messages.trans (congrArg (s.delivered ++ ·) hsame.symm)
      · exact copy_step hn hapart hlt hcopied
    · obtain ⟨rfl, rfl⟩ := Prod.mk.inj (Option.some.inj hnext)
      obtain rfl : i = n := by omega
      exact ⟨owner, h.advance h.frame rfl rfl ⟨howner, ht, hstate, hcopied⟩⟩
  | release f buf t =>
    obtain ⟨rfl, rfl⟩ := Prod.mk.inj (Option.some.inj hnext)
    obtain ⟨howner, ht, hstate, hcopied⟩ := hpoint
    obtain ⟨hframe, hset⟩ := h.frame.setPstate t f.leaves ht
    refine ⟨none, h.hold hframe (.inr howner) (.inl rfl) ?_ ?_ ?_⟩
    · rw [hset]
      simp [leaves_free]
    · have hold := h.messages
      have hnew : (s.config.state.setPstate t f.leaves).bytes ptr n = s.config.state.bytes ptr n := rfl
      rw [hset, hnew]
      rw [hstate] at hold
      cases f with
      | pread =>
        have hbytes : s.config.state.bytes buf n = s.config.state.bytes ptr n := bytes_congr hcopied
        simpa [completed, unread, PipeFun.during, PipeFun.leaves, hbytes] using hold
      | pwrite =>
        have hbytes : s.config.state.bytes ptr n = s.config.state.bytes buf n := bytes_congr hcopied
        simpa [completed, unread, PipeFun.during, PipeFun.leaves, hbytes] using hold
    · simp [At]
  | ret f buf r =>
    obtain ⟨rfl, rfl⟩ := Prod.mk.inj (Option.some.inj hnext)
    simp only [completed, List.append_nil]
    exact ⟨owner, h.advance h.frame rfl rfl hpoint⟩

theorem Exclusive.step (hc : k.tasks.Consistent) (hn : n ≤ npipeQueue)
    (h : s.Exclusive k n ps ptr owner) (hguard : s.Undisturbed n ps ptr e)
    (hexec : s.exec n ps ptr e = some s') : ∃ owner', s'.Exclusive k n ps ptr owner' := by
  obtain ⟨d, hd, hs'⟩ := Option.map_eq_some_iff.mp hexec
  rcases Threads.exec_cases hd with ⟨q, m, rfl, -, -⟩ | ⟨q, rfl, hbegin, rfl⟩ | ⟨i, m, rfl, htick, rfl⟩
  · exact h.stmt hc hn hguard hexec
  · subst hs'
    refine ⟨owner, h.advance h.frame rfl rfl ?_⟩
    have hpoint := h.points s.config.state.current
    change beginsCall n ps ptr s.config.state (s.config.points s.config.state.current) q = true at hbegin
    generalize s.config.points s.config.state.current = p at hpoint hbegin
    cases p with
    | idle =>
      cases q with
      | getThread f buf =>
        obtain ⟨hps, hapart⟩ := of_decide_eq_true hbegin
        obtain ⟨cur, hcur⟩ := h.frame.tasks
        rw [hcur] at hps
        exact ⟨hpoint, hps, hapart⟩
      | _ => cases hbegin
    | _ => cases hbegin
  · subst hs'
    obtain ⟨-, hr, rfl⟩ := Core.tick_cases htick
    obtain ⟨cur, hcur⟩ := h.frame.tasks
    refine ⟨owner, ⟨⟨i, ?_⟩, ⟨i, hr⟩, h.frame.pipePtr⟩, h.free_iff, h.messages, h.points⟩
    simp only [Core.setTasks, Kernel.setTasks, hcur]

end Sharing

end Steps

/-- The pipe hands over the messages one by one: in every run in which each call sets the pipe while it
is still as the call has found it, the calls of `pread` that return 1 have delivered the messages of
the calls of `pwrite` that return 1 in their order, all of them but at most one, and that one is
complete in the pipe. -/
theorem pipe_exchanges {m : Core} {n ps ptr c : ℕ} {ops : List (Event ℕ PipePoint)} {s : Sharing}
    (hc : m.kernel.tasks.Consistent) (hr : m.kernel.tasks.Running c)
    (hpipe : m.kernel.pipes ps = ⟨ptr, .empty⟩) (hn : n ≤ npipeQueue)
    (hrun : Run (fun s e t => s.exec n ps ptr e = some t ∧ s.Undisturbed n ps ptr e)
      ⟨⟨m, fun _ => .idle⟩, [], []⟩ ops s) :
    ∃ unread, s.written = s.delivered ++ unread ∧ unread.length ≤ 1 ∧
      ∀ msg ∈ unread, s.config.state.bytes ptr n = msg := by
  have h₀ : Sharing.Exclusive m.kernel n ps ptr none ⟨⟨m, fun _ => .idle⟩, [], []⟩ := by
    constructor
    · exact ⟨⟨_, rfl⟩, ⟨c, hr⟩, by rw [hpipe]⟩
    · simp [hpipe]
    · simp [hpipe, Sharing.unread]
    · intro j
      simp [At]
  have hinv : ∃ owner, s.Exclusive m.kernel n ps ptr owner := by
    apply hrun.invariant (I := fun s => ∃ owner, s.Exclusive m.kernel n ps ptr owner) ⟨none, h₀⟩
    rintro t e u ⟨owner, h⟩ hstep
    exact h.step hc hn hstep.2 hstep.1
  obtain ⟨owner, h⟩ := hinv
  refine ⟨_, h.messages, ?_, ?_⟩
  · cases (s.config.state.kernel.pipes ps).pstate <;> simp [Sharing.unread]
  · cases (s.config.state.kernel.pipes ps).pstate <;> simp [Sharing.unread]

instance (m : Core) (p : PipePoint) : Decidable (AsFound m p) :=
  match p with
  | .claim f _ t => inferInstanceAs (Decidable ((m.pipe t).pstate = f.expects))
  | .idle | .getThread _ _ | .test _ _ _ | .memcpy _ _ _ | .copy _ _ _ _ _ _ | .release _ _ _ | .ret _ _ _ =>
    .isTrue trivial

instance (n ps ptr : ℕ) (s : Sharing) (e : Event ℕ PipePoint) : Decidable (s.Undisturbed n ps ptr e) :=
  match e with
  | .stmt => inferInstanceAs (Decidable (AsFound _ _))
  | .call _ | .tick _ => .isTrue trivial

namespace Sharing

def start : Sharing := ⟨⟨⟨Kernel.pipeKernel, true, fun p => p⟩, fun _ => .idle⟩, [], []⟩

def writeOps : List (Event ℕ PipePoint) := .call (.pwrite 0x1000) :: List.replicate 9 .stmt

def readOps : List (Event ℕ PipePoint) := .tick 0 :: .call (.pread 0x2000) :: List.replicate 9 .stmt

def raceOps : List (Event ℕ PipePoint) :=
  .call (.pread 0x3000) :: .stmt :: .stmt :: readOps ++ .tick 1 :: List.replicate 7 .stmt

end Sharing

theorem pipe_exchanges_example : ∃ s, Run (fun s e t => s.exec 2 0x7fef30 0x7fdf20 e = some t ∧
      s.Undisturbed 2 0x7fef30 0x7fdf20 e) Sharing.start (Sharing.writeOps ++ Sharing.readOps) s ∧
    s.delivered = [[0, 1]] ∧ ∃ unread, s.written = s.delivered ++ unread ∧ unread.length ≤ 1 ∧
      ∀ msg ∈ unread, s.config.state.bytes 0x7fdf20 2 = msg := by
  have hvals : (execAll (fun (s : Sharing) e => if s.Undisturbed 2 0x7fef30 0x7fdf20 e then
      s.exec 2 0x7fef30 0x7fdf20 e else none) Sharing.start (Sharing.writeOps ++ Sharing.readOps)).map
        Sharing.delivered = some [[0, 1]] := by decide +kernel
  obtain ⟨s, hexec, hdelivered⟩ := Option.map_eq_some_iff.mp hvals
  have hrun : Run (fun s e t => s.exec 2 0x7fef30 0x7fdf20 e = some t ∧
      s.Undisturbed 2 0x7fef30 0x7fdf20 e) Sharing.start (Sharing.writeOps ++ Sharing.readOps) s :=
    (execAll_run hexec).mono (fun h => (Option.ite_none_right_eq_some.mp h).symm)
  have hpipe : Kernel.pipeKernel.pipes 0x7fef30 = ⟨0x7fdf20, .empty⟩ := by
    have hptr : (Kernel.pipeKernel.pipes 0x7fef30).pipePtr = 0x7fdf20 := by decide +kernel
    rw [← hptr, ← Kernel.pipeKernel_paired.empty]
  exact ⟨s, hrun, hdelivered, pipe_exchanges Kernel.pipeKernel_paired.table
    Kernel.pipeKernel_paired.running hpipe (by decide) hrun⟩

/-- The two threads read the same message. -/
theorem pipe_read_twice : ∃ s, Run (fun s e t => s.exec 2 0x7fef30 0x7fdf20 e = some t) Sharing.start
      (Sharing.writeOps ++ Sharing.raceOps) s ∧ s.written = [[0, 1]] ∧ s.delivered = [[0, 1], [0, 1]] ∧
    ¬ ∃ unread, s.written = s.delivered ++ unread ∧ unread.length ≤ 1 ∧
      ∀ msg ∈ unread, s.config.state.bytes 0x7fdf20 2 = msg := by
  have hvals : (execAll (Sharing.exec 2 0x7fef30 0x7fdf20) Sharing.start
      (Sharing.writeOps ++ Sharing.raceOps)).map (fun s => (s.written, s.delivered)) =
        some ([[0, 1]], [[0, 1], [0, 1]]) := by decide +kernel
  obtain ⟨s, hexec, hlogs⟩ := Option.map_eq_some_iff.mp hvals
  obtain ⟨hwritten, hdelivered⟩ := Prod.mk.inj hlogs
  refine ⟨s, execAll_run hexec, hwritten, hdelivered, ?_⟩
  rintro ⟨unread, hsplit, -⟩
  rw [hwritten, hdelivered] at hsplit
  have hlength := congrArg List.length hsplit
  simp at hlength

end MinOS
