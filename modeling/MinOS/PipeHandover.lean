import MinOS.PipeSharing

/-!
A parent that waits for a message of its child: `waitp` and `pread` against `pwrite` and `signalp`.
-/

namespace MinOS

open Library.Integers Library.Interleavings Library.Programs Library.Queues Library.Runs

structure Handover where
  parent : ℕ
  child : ℕ
  parentPtr : ThreadPtr
  childPtr : ThreadPtr
  ps : ℕ
  ptr : ℕ
  sem : ℤ
  n : ℕ
  buf : ℕ
  msg : ℕ

inductive HandoverPoint where
  | waitp
  | testEmpty (t : ThreadPtr)
  | testSending (t : ThreadPtr)
  | wait
  | waited (r : ℤ)
  | reading (p : PipePoint)
  | received (r : ℤ)
  | writing (p : PipePoint)
  | signalp
  | testExist (t : ThreadPtr)
  | signal
  | signalled (r : ℤ)
  | other
deriving DecidableEq

namespace HandoverPoint

/-- `wait` and `signal` are single statements; they end with interrupts on. -/
def next (x : Handover) : HandoverPoint → Core → Option (HandoverPoint × Core)
  | waitp, m => m.curThreadPtr.map (fun y => (testEmpty y.1, y.2))
  | testEmpty t, m => if (m.pipe t).pstate = .empty then some (wait, m) else some (testSending t, m)
  | testSending t, m => if (m.pipe t).pstate = .sending then some (wait, m) else some (waited 1, m)
  | wait, m => (m.kernel.wait x.sem).map (fun y => (waited y.1, { m with kernel := y.2, intr := true }))
  | waited r, m => if r = 1 then some (reading (.pread x.buf), m) else none
  | reading (.ret _ _ r), m => some (received r, m)
  | reading p, m => (p.next x.n m).map (fun y => (reading y.1, y.2))
  | received _, _ => none
  | writing (.ret _ _ _), m => some (signalp, m)
  | writing p, m => (p.next x.n m).map (fun y => (writing y.1, y.2))
  | signalp, m => m.curThreadPtr.map (fun y => (testExist y.1, y.2))
  | testExist t, m => if (m.pipe t).pstate = .exist then some (signal, m) else some (signalled 0, m)
  | signal, m =>
    (m.kernel.signal x.sem).map (fun y => (signalled y.1, { m with kernel := y.2, intr := true }))
  | signalled _, _ | other, _ => none

end HandoverPoint

namespace Handover

def threads (x : Handover) : Threads Core ℕ HandoverPoint :=
  preemptive (HandoverPoint.next x) (fun _ _ _ => false)

def start (x : Handover) (m : Core) : Config Core ℕ HandoverPoint :=
  ⟨m, fun i => if i = x.parent then .waitp
    else if i = x.child then .writing (.pwrite x.msg) else .other⟩

def InTime (x : Handover) (c : Config Core ℕ HandoverPoint) (e : Event ℕ HandoverPoint) : Prop :=
  e = .stmt → x.threads.point c = .signal → c.points x.parent ≠ .wait

end Handover

structure Handover.Linked (x : Handover) (pstate : PipeState) (waiting : Bool) (s : Kernel) : Prop where
  table : s.tasks.Consistent
  running : ∃ i, s.tasks.Running i
  ne : x.parent ≠ x.child
  live : s.tasks.Live x.parent
  parent : s.tasks.threads x.parent = x.parentPtr
  child : s.tasks.threads x.child = x.childPtr
  parent_state : (s.tasks.thread x.parent).state = if waiting then .wait else .runnable
  child_state : (s.tasks.thread x.child).state = .runnable
  child_lt : x.child < threadNum
  pstruct_parent : (s.tasks.thread x.parent).pstruct = x.ps
  pstruct_child : (s.tasks.thread x.child).pstruct = x.ps
  pipe : s.pipes x.ps = ⟨x.ptr, pstate⟩
  used : s.Used x.sem
  balanced : (s.semtable x.sem).Balanced
  count : (s.semtable x.sem).semcount = if waiting then -1 else 0
  tids : (s.semtable x.sem).semqueue.tids = if waiting then [(s.tasks.thread x.parent).tid] else []

namespace Handover.Linked

variable {x : Handover} {pstate : PipeState} {waiting : Bool} {s t : Kernel} {r : ℤ}

theorem of_tasks {u : Kernel} {state : ThreadState} {waiting' : Bool} (h : x.Linked pstate waiting s)
    (htasks : u.tasks = s.tasks.setState x.parent state) (hpipes : u.pipes = s.pipes)
    (hstate : state = if waiting' then .wait else .runnable) (hsched : u.threadScheduler = some t)
    (hcur : ∃ c : ℕ, s.tasks.curThreadIndex = c)
    (hused : u.Used x.sem) (hb : (u.semtable x.sem).Balanced)
    (hcount : (u.semtable x.sem).semcount = if waiting' then -1 else 0)
    (htids : (u.semtable x.sem).semqueue.tids =
      if waiting' then [(s.tasks.thread x.parent).tid] else []) : x.Linked pstate waiting' t := by
  obtain ⟨c, hcur⟩ := hcur
  obtain ⟨tasks, htasks', rfl⟩ := Kernel.threadScheduler_cases hsched
  obtain ⟨i, rfl, hi⟩ := Tasks.threadScheduler_running (c := c) (by rw [htasks]; exact hcur) htasks'
  have hparent : u.tasks.thread x.parent = { s.tasks.thread x.parent with state := state } := by
    rw [htasks, Tasks.thread_setState_self]
  have hchild : u.tasks.thread x.child = s.tasks.thread x.child := by
    rw [htasks]
    exact h.table.thread_setState_other h.live h.child_lt h.ne.symm state
  have hptr : u.tasks.threads = s.tasks.threads := by
    rw [htasks]
    rfl
  have hlive : (u.tasks.thread x.parent).state ≠ .dead := by
    rw [hparent]
    dsimp only
    rw [hstate]
    split_ifs <;> decide
  constructor
  · rw [Kernel.setTasks]
    dsimp only
    rw [htasks]
    exact (h.table.setObj_state h.live state).schedule i
  · exact ⟨i, hi⟩
  · exact h.ne
  · exact ⟨h.live.1, hlive⟩
  · exact (congrFun hptr _).trans h.parent
  · exact (congrFun hptr _).trans h.child
  · exact (congrArg Thread.state hparent).trans hstate
  · exact (congrArg Thread.state hchild).trans h.child_state
  · exact h.child_lt
  · exact (congrArg Thread.pstruct hparent).trans h.pstruct_parent
  · exact (congrArg Thread.pstruct hchild).trans h.pstruct_child
  · exact (congrFun hpipes _).trans h.pipe
  · exact hused
  · exact hb
  · exact hcount
  · have htid : (u.tasks.thread x.parent).tid = (s.tasks.thread x.parent).tid := by
      rw [hparent]
    rw [← htid] at htids
    exact htids

theorem wait (h : x.Linked pstate false s) (hcur : s.tasks.Running x.parent)
    (hwait : s.wait x.sem = some (r, t)) : r = 1 ∧ x.Linked pstate true t := by
  have hcount := h.count
  have hnum := h.balanced.num_eq
  have hdec := h.balanced.int32_dec
  rw [if_neg (by decide)] at hcount
  have hneg : int32 ((s.semtable x.sem).semcount - 1) < 0 := by omega
  rw [Kernel.wait_of_neg h.used hneg, hcur.getCurThreadTid h.table, Option.bind_some, hdec] at hwait
  obtain ⟨rfl, u, hu, -, hpipes, htasks, hsem⟩ := Kernel.block_cases
    (s := s.setSemcount x.sem ((s.semtable x.sem).semcount - 1)) h.table hcur
    (by rw [Kernel.setSemcount, Kernel.semtable_setEntry_self]; simp only [nsemQueue]; omega) hwait
  have hentry : u.semtable x.sem = ⟨(s.semtable x.sem).semstate, (s.semtable x.sem).semcount - 1,
      (s.semtable x.sem).semqueue.push (s.tasks.thread x.parent).tid⟩ := by
    rw [hsem]
    simp [Kernel.setSemqueue, Kernel.setSemcount]
  have hpush := QueueSem.tids_push h.balanced.head_nonneg (by omega)
    (show (s.semtable x.sem).semqueue.num < nsemQueue by simp only [nsemQueue]; omega)
    (s.tasks.thread x.parent).tid
  refine ⟨rfl, h.of_tasks htasks hpipes rfl hu ⟨_, hcur.1⟩ ?_ ?_ ?_ ?_⟩
  · exact ⟨h.used.1, by rw [hentry]; exact h.used.2⟩
  · rw [hentry]
    exact h.balanced.push (by omega) (by simp only [nsemQueue]; omega) _
  · rw [hentry]
    simp [hcount]
  · rw [hentry]
    simp [hpush, h.tids]

theorem signal (h : x.Linked pstate waiting s) (hsignal : s.signal x.sem = some (r, t)) :
    x.Linked pstate false t := by
  have hcount := h.count
  cases waiting with
  | false =>
    rw [if_neg (by decide)] at hcount
    rcases Kernel.signal_cases hsignal with ⟨rfl, -⟩ | ⟨-, hneg, -⟩
    · exact h
    · omega
  | true =>
    rw [if_pos rfl] at hcount
    have htids := h.tids
    rw [if_pos rfl] at htids
    obtain ⟨c, hcur⟩ := h.running
    obtain ⟨hpop, u, heq, -, hpipes, htasks, hsem⟩ :=
      Kernel.signal_eq h.table h.used h.balanced (by omega) h.live htids
    rw [heq] at hsignal
    obtain ⟨v, hv, hvt⟩ := Option.map_eq_some_iff.mp hsignal
    obtain ⟨-, rfl⟩ := Prod.mk.inj hvt
    have hentry := Kernel.semtable_setEntry_self s x.sem ⟨(s.semtable x.sem).semstate,
      (s.semtable x.sem).semcount + 1, (s.semtable x.sem).semqueue.pop⟩
    rw [← hsem] at hentry
    refine h.of_tasks htasks hpipes rfl hv ⟨_, hcur.1⟩ ?_ ?_ ?_ ?_
    · exact ⟨h.used.1, by rw [hentry]; exact h.used.2⟩
    · rw [hentry]
      exact h.balanced.pop (by omega)
    · rw [hentry]
      simp [hcount]
    · rw [hentry]
      simpa using hpop

end Handover.Linked

inductive Phase where
  | ready
  | sending
  | full
  | receiving
  | finished
deriving DecidableEq

namespace Phase

def pstate : Phase → PipeState
  | ready | finished => .empty
  | sending => .sending
  | full => .exist
  | receiving => .receiving

def loc (x : Handover) : Phase → ℕ
  | ready | sending => x.msg
  | full | receiving => x.ptr
  | finished => x.buf

def Written (ph : Phase) : Prop := ph = full ∨ ph = receiving ∨ ph = finished

def Unread (ph : Phase) : Prop := ph = ready ∨ ph = sending ∨ ph = full

end Phase

namespace PipeFun

def before : PipeFun → Phase
  | pread => .full
  | pwrite => .ready

def amid : PipeFun → Phase
  | pread => .receiving
  | pwrite => .sending

def after : PipeFun → Phase
  | pread => .finished
  | pwrite => .full

end PipeFun

namespace Handover

def bufOf (x : Handover) : PipeFun → ℕ
  | .pread => x.buf
  | .pwrite => x.msg

def ptrOf (x : Handover) : PipeFun → ThreadPtr
  | .pread => x.parentPtr
  | .pwrite => x.childPtr

def TransferAt (x : Handover) (f : PipeFun) (ph : Phase) (mem : ℕ → BitVec 8) : PipePoint → Prop
  | .idle => False
  | .getThread g buf => g = f ∧ buf = x.bufOf f ∧ ph = f.before
  | .test g buf t | .claim g buf t => g = f ∧ buf = x.bufOf f ∧ t = x.ptrOf f ∧ ph = f.before
  | .memcpy g buf t => g = f ∧ buf = x.bufOf f ∧ t = x.ptrOf f ∧ ph = f.amid
  | .copy g buf t c₁ c₂ i => g = f ∧ buf = x.bufOf f ∧ t = x.ptrOf f ∧ ph = f.amid ∧
      c₁ = f.dst x.ptr (x.bufOf f) ∧ c₂ = f.src x.ptr (x.bufOf f) ∧ i ≤ x.n ∧
      ∀ l, l < i → mem (c₁ + l) = mem (c₂ + l)
  | .release g buf t => g = f ∧ buf = x.bufOf f ∧ t = x.ptrOf f ∧ ph = f.amid ∧
      ∀ l, l < x.n → mem (f.dst x.ptr (x.bufOf f) + l) = mem (f.src x.ptr (x.bufOf f) + l)
  | .ret _ _ r => r = 1 ∧ (ph = f.after ∨ f = .pwrite ∧ ph.Written)

def ParentAt (x : Handover) (ph : Phase) (waiting : Bool) (finished : Prop) (mem : ℕ → BitVec 8) :
    HandoverPoint → Prop
  | .waitp => waiting = false ∧ ph.Unread
  | .testEmpty t => waiting = false ∧ ph.Unread ∧ t = x.parentPtr
  | .testSending t => waiting = false ∧ (ph = .sending ∨ ph = .full) ∧ t = x.parentPtr
  | .wait => waiting = false ∧ ph.Unread ∧ ¬ finished
  | .waited r => r = 1 ∧ ph.Unread ∧ (waiting = true ∨ ph = .full)
  | .reading p => waiting = false ∧ x.TransferAt .pread ph mem p
  | .received r => waiting = false ∧ r = 1 ∧ ph = .finished
  | _ => False

def ChildAt (x : Handover) (ph : Phase) (waiting : Bool) (mem : ℕ → BitVec 8) : HandoverPoint → Prop
  | .writing p => x.TransferAt .pwrite ph mem p
  | .signalp | .signal => ph.Written
  | .testExist t => ph.Written ∧ t = x.childPtr
  | .signalled _ => ph.Written ∧ waiting = false
  | _ => False

structure Agrees (x : Handover) (message : List (BitVec 8)) (ph : Phase) (waiting : Bool)
    (c : Config Core ℕ HandoverPoint) : Prop where
  linked : x.Linked ph.pstate waiting c.state.kernel
  message : c.state.bytes (ph.loc x) x.n = message
  parent : x.ParentAt ph waiting (∃ r, c.points x.child = .signalled r) c.state.mem (c.points x.parent)
  child : x.ChildAt ph waiting c.state.mem (c.points x.child)
  others : ∀ j, j ≠ x.parent → j ≠ x.child → c.points j = .other

variable {x : Handover} {f : PipeFun} {ph : Phase} {m m' : Core} {p q : PipePoint}

def Advances (f : PipeFun) (ph ph' : Phase) : Prop :=
  ph' = ph ∨ ph = f.before ∧ ph' = f.amid ∨ ph = f.amid ∧ ph' = f.after

theorem loc_src (x : Handover) (f : PipeFun) :
    f.before.loc x = f.src x.ptr (x.bufOf f) ∧ f.amid.loc x = f.src x.ptr (x.bufOf f) ∧
      f.after.loc x = f.dst x.ptr (x.bufOf f) := by
  cases f <;> exact ⟨rfl, rfl, rfl⟩

theorem before_pstate (f : PipeFun) : f.before.pstate = f.expects := by cases f <;> rfl

theorem amid_pstate (f : PipeFun) : f.amid.pstate = f.during := by cases f <;> rfl

theorem after_pstate (f : PipeFun) : f.after.pstate = f.leaves := by cases f <;> rfl

theorem TransferAt.step {message : List (BitVec 8)} (hn : x.n ≤ npipeQueue)
    (hapart : Apart x.n x.ptr (x.bufOf f)) (h : x.TransferAt f ph m.mem p)
    (hpipe : m.pipe (x.ptrOf f) = ⟨x.ptr, ph.pstate⟩)
    (hcur : m.curThreadPtr = some (x.ptrOf f, { m with intr := true }))
    (hmessage : m.bytes (ph.loc x) x.n = message) (hnext : p.next x.n m = some (q, m'))
    (hret : ∀ g buf r, p ≠ .ret g buf r) :
    ∃ ph', Advances f ph ph' ∧ (ph = f.before ∨ ph = f.amid) ∧ x.TransferAt f ph' m'.mem q ∧
      m'.bytes (ph'.loc x) x.n = message ∧
      (m'.kernel = m.kernel ∧ ph' = ph ∨ m'.kernel = (m.setPstate (x.ptrOf f) ph'.pstate).kernel) := by
  obtain ⟨hbefore, hamid, hafter⟩ := loc_src x f
  cases p with
  | idle => cases h
  | getThread g buf =>
    obtain ⟨rfl, rfl, hph⟩ := h
    rw [PipePoint.next, hcur, Option.map_some, Option.some.injEq] at hnext
    obtain ⟨rfl, rfl⟩ := Prod.mk.inj hnext
    exact ⟨ph, .inl rfl, .inl hph, ⟨rfl, rfl, rfl, hph⟩, hmessage, .inl ⟨rfl, rfl⟩⟩
  | test g buf t =>
    obtain ⟨rfl, rfl, rfl, hph⟩ := h
    rw [PipePoint.next, hpipe, hph, before_pstate, if_pos rfl] at hnext
    obtain ⟨rfl, rfl⟩ := Prod.mk.inj (Option.some.inj hnext)
    exact ⟨ph, .inl rfl, .inl hph, ⟨rfl, rfl, rfl, hph⟩, hmessage, .inl ⟨rfl, rfl⟩⟩
  | claim g buf t =>
    obtain ⟨rfl, rfl, rfl, hph⟩ := h
    obtain ⟨rfl, rfl⟩ := Prod.mk.inj (Option.some.inj hnext)
    refine ⟨g.amid, .inr (.inl ⟨hph, rfl⟩), .inl hph, ⟨rfl, rfl, rfl, rfl⟩, ?_, .inr ?_⟩
    · rw [hamid, ← hbefore, ← hph]
      exact hmessage
    · rw [amid_pstate]
  | memcpy g buf t =>
    obtain ⟨rfl, rfl, rfl, hph⟩ := h
    obtain ⟨rfl, rfl⟩ := Prod.mk.inj (Option.some.inj hnext)
    refine ⟨ph, .inl rfl, .inr hph, ⟨rfl, rfl, rfl, hph, ?_, ?_, Nat.zero_le _, ?_⟩, hmessage,
      .inl ⟨rfl, rfl⟩⟩
    · rw [hpipe]
    · rw [hpipe]
    · intro l hl
      omega
  | copy g buf t c₁ c₂ i =>
    obtain ⟨rfl, rfl, rfl, hph, rfl, rfl, hi, hcopied⟩ := h
    rw [PipePoint.next] at hnext
    split_ifs at hnext with hlt
    · obtain ⟨rfl, rfl⟩ := Prod.mk.inj (Option.some.inj hnext)
      refine ⟨ph, .inl rfl, .inr hph, ⟨rfl, rfl, rfl, hph, rfl, rfl, hlt, ?_⟩, ?_, .inl ⟨rfl, rfl⟩⟩
      · exact copy_step hn hapart hlt hcopied
      · rw [← hmessage, hph, hamid]
        apply bytes_congr
        intro l hl
        apply Function.update_of_ne
        cases g <;> simp only [PipeFun.src, PipeFun.dst, Apart] at * <;> omega
    · obtain ⟨rfl, rfl⟩ := Prod.mk.inj (Option.some.inj hnext)
      obtain rfl : i = x.n := by omega
      exact ⟨ph, .inl rfl, .inr hph, ⟨rfl, rfl, rfl, hph, hcopied⟩, hmessage, .inl ⟨rfl, rfl⟩⟩
  | release g buf t =>
    obtain ⟨rfl, rfl, rfl, hph, hcopied⟩ := h
    obtain ⟨rfl, rfl⟩ := Prod.mk.inj (Option.some.inj hnext)
    refine ⟨g.after, .inr (.inr ⟨hph, rfl⟩), .inr hph, ⟨rfl, .inl rfl⟩, ?_, .inr ?_⟩
    · rw [← hmessage, hph, hafter, hamid]
      exact bytes_congr hcopied
    · rw [after_pstate]
  | ret g buf r => exact absurd rfl (hret g buf r)

namespace Linked

variable {pstate : PipeState} {waiting : Bool}

theorem pstruct (h : x.Linked pstate waiting m.kernel) (f : PipeFun) : m.pstruct (x.ptrOf f) = x.ps := by
  cases f with
  | pread =>
    have hps := h.pstruct_parent
    rwa [Tasks.thread, h.parent] at hps
  | pwrite =>
    have hps := h.pstruct_child
    rwa [Tasks.thread, h.child] at hps

theorem pipe_eq (h : x.Linked pstate waiting m.kernel) (f : PipeFun) :
    m.pipe (x.ptrOf f) = ⟨x.ptr, pstate⟩ := by
  rw [Core.pipe, h.pstruct f, h.pipe]

theorem setPstate (h : x.Linked pstate waiting m.kernel) (f : PipeFun) (pstate' : PipeState) :
    x.Linked pstate' waiting (m.setPstate (x.ptrOf f) pstate').kernel := by
  have hpipe : (m.setPstate (x.ptrOf f) pstate').kernel.pipes x.ps = ⟨x.ptr, pstate'⟩ := by
    simp [Core.setPstate, Kernel.setPipe, h.pstruct f, h.pipe_eq f]
  exact { h with pipe := hpipe }

theorem tick {i : ℕ} (h : x.Linked pstate waiting m.kernel) (htick : m.tick i = some m') :
    x.Linked pstate waiting m'.kernel ∧ m'.mem = m.mem := by
  obtain ⟨-, hr, rfl⟩ := Core.tick_cases htick
  exact ⟨{ h with table := h.table.schedule i, running := ⟨i, hr⟩ }, rfl⟩

end Linked

theorem next_reading (hret : ∀ g buf r, p ≠ .ret g buf r) :
    (HandoverPoint.reading p).next x m = (p.next x.n m).map (fun y => (.reading y.1, y.2)) := by
  cases p with
  | ret g buf r => exact absurd rfl (hret g buf r)
  | _ => rfl

theorem next_writing (hret : ∀ g buf r, p ≠ .ret g buf r) :
    (HandoverPoint.writing p).next x m = (p.next x.n m).map (fun y => (.writing y.1, y.2)) := by
  cases p with
  | ret g buf r => exact absurd rfl (hret g buf r)
  | _ => rfl

theorem TransferAt.step_linked {message : List (BitVec 8)} {waiting : Bool} (hn : x.n ≤ npipeQueue)
    (hapart : Apart x.n x.ptr (x.bufOf f)) (h : x.TransferAt f ph m.mem p)
    (hl : x.Linked ph.pstate waiting m.kernel)
    (hcur : m.curThreadPtr = some (x.ptrOf f, { m with intr := true }))
    (hmessage : m.bytes (ph.loc x) x.n = message) (hnext : p.next x.n m = some (q, m'))
    (hret : ∀ g buf r, p ≠ .ret g buf r) :
    ∃ ph', Advances f ph ph' ∧ (ph = f.before ∨ ph = f.amid) ∧ x.TransferAt f ph' m'.mem q ∧
      m'.bytes (ph'.loc x) x.n = message ∧ x.Linked ph'.pstate waiting m'.kernel := by
  obtain ⟨ph', hadv, hph, hat, hmessage', hkernel⟩ :=
    h.step hn hapart (hl.pipe_eq f) hcur hmessage hnext hret
  refine ⟨ph', hadv, hph, hat, hmessage', ?_⟩
  rcases hkernel with ⟨hsame, rfl⟩ | hset
  · rw [hsame]
    exact hl
  · rw [hset]
    exact hl.setPstate f ph'.pstate

theorem ChildAt.of_written {ph ph' : Phase} {waiting waiting' : Bool} {mem mem' : ℕ → BitVec 8}
    {q : HandoverPoint} (h : x.ChildAt ph waiting mem q) (hph : ph.Written) (hph' : ph'.Written)
    (hw : (∃ r, q = .signalled r) → waiting' = false) : x.ChildAt ph' waiting' mem' q := by
  cases q with
  | writing p =>
    cases p with
    | ret _ _ _ => exact ⟨h.1, .inr ⟨rfl, hph'⟩⟩
    | idle => cases h
    | getThread _ _ | test _ _ _ | claim _ _ _ | memcpy _ _ _ | copy _ _ _ _ _ _ | release _ _ _ =>
      simp [ChildAt, TransferAt, PipeFun.before, PipeFun.amid] at h
      simp [h, Phase.Written] at hph
  | signalp | signal => exact hph'
  | testExist _ => exact ⟨hph', h.2⟩
  | signalled r => exact ⟨hph', hw ⟨r, rfl⟩⟩
  | _ => cases h

theorem ParentAt.of_writing {ph ph' : Phase} {waiting : Bool} {finished finished' : Prop}
    {mem mem' : ℕ → BitVec 8} {q : HandoverPoint} (h : x.ParentAt ph waiting finished mem q)
    (hph : ph = .ready ∨ ph = .sending) (hadv : Advances .pwrite ph ph') (hfin : ¬ finished') :
    x.ParentAt ph' waiting finished' mem' q := by
  have hunread : ph'.Unread ∧ (ph = .sending → ph' = .sending ∨ ph' = .full) := by
    rcases hadv with rfl | ⟨rfl, rfl⟩ | ⟨rfl, rfl⟩
    · rcases hph with rfl | rfl
      · exact ⟨.inl rfl, fun h => by cases h⟩
      · exact ⟨.inr (.inl rfl), fun _ => .inl rfl⟩
    · exact ⟨.inr (.inl rfl), fun _ => .inl rfl⟩
    · exact ⟨.inr (.inr rfl), fun _ => .inr rfl⟩
  have hnot : ph ≠ .full ∧ ph ≠ .receiving ∧ ph ≠ .finished := by
    rcases hph with rfl | rfl <;> decide
  cases q with
  | waitp => exact ⟨h.1, hunread.1⟩
  | testEmpty _ => exact ⟨h.1, hunread.1, h.2.2⟩
  | testSending _ => exact ⟨h.1, hunread.2 (h.2.1.resolve_right hnot.1), h.2.2⟩
  | wait => exact ⟨h.1, hunread.1, hfin⟩
  | waited r => exact ⟨h.1, hunread.1, .inl (h.2.2.resolve_right hnot.1)⟩
  | reading p =>
    cases p with
    | idle => exact h.2.elim
    | getThread _ _ => exact absurd h.2.2.2 hnot.1
    | test _ _ _ | claim _ _ _ => exact absurd h.2.2.2.2 hnot.1
    | memcpy _ _ _ => exact absurd h.2.2.2.2 hnot.2.1
    | copy _ _ _ _ _ _ | release _ _ _ => exact absurd h.2.2.2.2.1 hnot.2.1
    | ret _ _ _ => exact absurd (h.2.2.resolve_right (fun h => by cases h.1)) hnot.2.2
  | received _ => exact absurd h.2.2 hnot.2.2
  | _ => cases h

theorem ChildAt.of_waiting {waiting waiting' : Bool} {mem : ℕ → BitVec 8} {q : HandoverPoint}
    (h : x.ChildAt ph waiting mem q) (hw : (∃ r, q = .signalled r) → waiting' = false) :
    x.ChildAt ph waiting' mem q := by
  cases q with
  | signalled r => exact ⟨h.1, hw ⟨r, rfl⟩⟩
  | _ => exact h

theorem ParentAt.of_read {waiting : Bool} {finished : Prop} (finished' : Prop)
    {mem : ℕ → BitVec 8} {q : HandoverPoint} (h : x.ParentAt ph waiting finished mem q)
    (hph : ¬ ph.Unread) : waiting = false ∧ x.ParentAt ph waiting finished' mem q := by
  cases q with
  | wait => exact absurd h.2.1 hph
  | waited _ => exact absurd h.2.1 hph
  | waitp | testEmpty _ | testSending _ | reading _ | received _ => exact ⟨h.1, h⟩
  | _ => cases h

theorem ParentAt.of_signal {waiting : Bool} {finished finished' : Prop}
    {mem : ℕ → BitVec 8} {q : HandoverPoint} (h : x.ParentAt ph waiting finished mem q)
    (hph : ph.Written) (hq : q ≠ .wait) : x.ParentAt ph false finished' mem q := by
  cases q with
  | wait => exact absurd rfl hq
  | waited _ =>
    have hfull : ph = .full := by
      obtain ⟨-, rfl | rfl | rfl, -⟩ := h
      · rcases hph with h | h | h <;> cases h
      · rcases hph with h | h | h <;> cases h
      · rfl
    exact ⟨h.1, h.2.1, .inr hfull⟩
  | waitp | testEmpty _ | testSending _ | reading _ | received _ => exact ⟨rfl, h.2⟩
  | _ => cases h

namespace Agrees

variable {message : List (BitVec 8)} {ph' : Phase} {waiting waiting' : Bool}
  {c d : Config Core ℕ HandoverPoint} {q : HandoverPoint} {e : Event ℕ HandoverPoint}

theorem move_parent (h : x.Agrees message ph waiting c) (hcur : c.state.current = x.parent)
    (hl : x.Linked ph'.pstate waiting' m.kernel) (hmessage : m.bytes (ph'.loc x) x.n = message)
    (hp : x.ParentAt ph' waiting' (∃ r, c.points x.child = .signalled r) m.mem q)
    (hc : x.ChildAt ph' waiting' m.mem (c.points x.child)) :
    x.Agrees message ph' waiting' (x.threads.move c q m) := by
  have hpoints : (x.threads.move c q m).points = Function.update c.points x.parent q := by
    rw [← hcur]
    rfl
  have hchild : (x.threads.move c q m).points x.child = c.points x.child := by
    rw [hpoints, Function.update_of_ne h.linked.ne.symm]
  constructor
  · exact hl
  · exact hmessage
  · rw [hchild, hpoints, Function.update_self]
    exact hp
  · rw [hchild]
    exact hc
  · intro j hj hj'
    rw [hpoints, Function.update_of_ne hj]
    exact h.others j hj hj'

theorem move_child (h : x.Agrees message ph waiting c) (hcur : c.state.current = x.child)
    (hl : x.Linked ph'.pstate waiting' m.kernel) (hmessage : m.bytes (ph'.loc x) x.n = message)
    (hp : x.ParentAt ph' waiting' (∃ r, q = .signalled r) m.mem (c.points x.parent))
    (hc : x.ChildAt ph' waiting' m.mem q) :
    x.Agrees message ph' waiting' (x.threads.move c q m) := by
  have hpoints : (x.threads.move c q m).points = Function.update c.points x.child q := by
    rw [← hcur]
    rfl
  constructor
  · exact hl
  · exact hmessage
  · rw [hpoints, Function.update_self, Function.update_of_ne h.linked.ne]
    exact hp
  · rw [hpoints, Function.update_self]
    exact hc
  · intro j hj hj'
    rw [hpoints, Function.update_of_ne hj']
    exact h.others j hj hj'

theorem not_waiting (h : x.Agrees message ph waiting c) (hr : c.state.kernel.tasks.Running x.parent) :
    waiting = false := by
  have hstate := h.linked.parent_state
  rw [hr.2.2] at hstate
  cases waiting with
  | false => rfl
  | true => cases hstate

theorem step_parent (hn : x.n ≤ npipeQueue) (hapart : Apart x.n x.ptr (x.bufOf .pread))
    (h : x.Agrees message ph waiting c) (hr : c.state.kernel.tasks.Running x.parent)
    (hnext : (c.points x.parent).next x c.state = some (q, m)) :
    ∃ ph' waiting', x.Agrees message ph' waiting' (x.threads.move c q m) := by
  have hcur : c.state.current = x.parent := Core.current_eq hr
  have hptr : c.state.curThreadPtr = some (x.ptrOf .pread, { c.state with intr := true }) := by
    rw [Core.curThreadPtr_eq h.linked.table hr, h.linked.parent]
    rfl
  have hpipe : c.state.pipe x.parentPtr = ⟨x.ptr, ph.pstate⟩ := h.linked.pipe_eq .pread
  have hnot := h.not_waiting hr
  have hpoint := h.parent
  have hchild := h.child
  have hwritten : (∃ r, c.points x.child = .signalled r) → ph.Written := by
    rintro ⟨r, hsig⟩
    rw [hsig] at hchild
    exact hchild.1
  generalize c.points x.parent = p at hpoint hnext
  cases p with
  | waitp =>
    rw [HandoverPoint.next, hptr, Option.map_some, Option.some.injEq] at hnext
    obtain ⟨rfl, rfl⟩ := Prod.mk.inj hnext
    exact ⟨ph, waiting, h.move_parent hcur h.linked h.message ⟨hpoint.1, hpoint.2, rfl⟩ hchild⟩
  | testEmpty t =>
    obtain ⟨-, hunread, rfl⟩ := hpoint
    rw [HandoverPoint.next, hpipe] at hnext
    split_ifs at hnext with hempty
    · obtain ⟨rfl, rfl⟩ := Prod.mk.inj (Option.some.inj hnext)
      refine ⟨ph, waiting, h.move_parent hcur h.linked h.message ⟨hnot, hunread, fun hfin => ?_⟩ hchild⟩
      rcases hunread with rfl | rfl | rfl
      · rcases hwritten hfin with h | h | h <;> cases h
      · cases hempty
      · cases hempty
    · obtain ⟨rfl, rfl⟩ := Prod.mk.inj (Option.some.inj hnext)
      refine ⟨ph, waiting, h.move_parent hcur h.linked h.message ⟨hnot, ?_, rfl⟩ hchild⟩
      exact hunread.resolve_left (fun he => hempty (by rw [he]; rfl))
  | testSending t =>
    obtain ⟨-, hph, rfl⟩ := hpoint
    rw [HandoverPoint.next, hpipe] at hnext
    split_ifs at hnext with hsending
    · obtain ⟨rfl, rfl⟩ := Prod.mk.inj (Option.some.inj hnext)
      refine ⟨ph, waiting, h.move_parent hcur h.linked h.message ⟨hnot, .inr hph, fun hfin => ?_⟩ hchild⟩
      rcases hph with rfl | rfl
      · rcases hwritten hfin with h | h | h <;> cases h
      · cases hsending
    · obtain ⟨rfl, rfl⟩ := Prod.mk.inj (Option.some.inj hnext)
      have hfull : ph = .full := hph.resolve_left (fun he => hsending (by rw [he]; rfl))
      exact ⟨ph, waiting, h.move_parent hcur h.linked h.message ⟨rfl, .inr (.inr hfull), .inr hfull⟩ hchild⟩
  | wait =>
    obtain ⟨-, hunread, hfin⟩ := hpoint
    obtain ⟨⟨r, k⟩, hwait, hq⟩ := Option.map_eq_some_iff.mp hnext
    obtain ⟨rfl, rfl⟩ := Prod.mk.inj hq
    have hl := h.linked
    rw [hnot] at hl
    obtain ⟨rfl, hl'⟩ := hl.wait hr hwait
    exact ⟨ph, true, h.move_parent hcur hl' h.message ⟨rfl, hunread, .inl rfl⟩
      (hchild.of_waiting (fun hsig => absurd hsig hfin))⟩
  | waited r =>
    obtain ⟨rfl, hunread, hfull⟩ := hpoint
    rw [HandoverPoint.next, if_pos rfl] at hnext
    obtain ⟨rfl, rfl⟩ := Prod.mk.inj (Option.some.inj hnext)
    have hfull' : ph = .full := hfull.resolve_left (by rw [hnot]; decide)
    exact ⟨ph, waiting, h.move_parent hcur h.linked h.message ⟨hnot, rfl, rfl, hfull'⟩ hchild⟩
  | reading p =>
    by_cases hret : ∃ g b r, p = .ret g b r
    · obtain ⟨g, b, r, rfl⟩ := hret
      obtain ⟨rfl, hover⟩ := hpoint.2
      obtain ⟨rfl, rfl⟩ := Prod.mk.inj (Option.some.inj hnext)
      have hover' : ph = .finished := hover.resolve_right (fun h => by cases h.1)
      exact ⟨ph, waiting, h.move_parent hcur h.linked h.message ⟨hnot, rfl, hover'⟩ hchild⟩
    · simp only [not_exists] at hret
      rw [next_reading hret] at hnext
      obtain ⟨⟨q', m'⟩, hstep, hq⟩ := Option.map_eq_some_iff.mp hnext
      obtain ⟨rfl, rfl⟩ := Prod.mk.inj hq
      obtain ⟨ph', hadv, hph, hat, hmessage, hl⟩ := hpoint.2.step_linked hn hapart h.linked hptr h.message hstep hret
      have hphases : ph.Written ∧ ph'.Written := by
        rcases hadv with rfl | ⟨rfl, rfl⟩ | ⟨rfl, rfl⟩
        · rcases hph with rfl | rfl <;> simp [Phase.Written, PipeFun.before, PipeFun.amid]
        · simp [Phase.Written, PipeFun.before, PipeFun.amid]
        · simp [Phase.Written, PipeFun.after, PipeFun.amid]
      refine ⟨ph', waiting, h.move_parent hcur hl hmessage ⟨hnot, hat⟩ ?_⟩
      exact hchild.of_written hphases.1 hphases.2 (fun _ => hnot)
  | received _ => cases hnext
  | _ => cases hpoint

theorem step_child (hn : x.n ≤ npipeQueue) (hapart : Apart x.n x.ptr (x.bufOf .pwrite))
    (h : x.Agrees message ph waiting c) (hr : c.state.kernel.tasks.Running x.child)
    (hin : c.points x.child = .signal → c.points x.parent ≠ .wait)
    (hnext : (c.points x.child).next x c.state = some (q, m)) :
    ∃ ph' waiting', x.Agrees message ph' waiting' (x.threads.move c q m) := by
  have hcur : c.state.current = x.child := Core.current_eq hr
  have hptr : c.state.curThreadPtr = some (x.ptrOf .pwrite, { c.state with intr := true }) := by
    rw [Core.curThreadPtr_eq h.linked.table hr, h.linked.child]
    rfl
  have hpipe : c.state.pipe x.childPtr = ⟨x.ptr, ph.pstate⟩ := h.linked.pipe_eq .pwrite
  have hpoint := h.child
  have hparent := h.parent
  have hfin : ∀ p : HandoverPoint, (∀ r, p ≠ .signalled r) → ¬ ∃ r, p = .signalled r :=
    fun p hp ⟨r, hpr⟩ => hp r hpr
  generalize c.points x.child = p at hpoint hnext hin hparent
  cases p with
  | writing p =>
    by_cases hret : ∃ g b r, p = .ret g b r
    · obtain ⟨g, b, r, rfl⟩ := hret
      obtain ⟨-, hwritten⟩ := hpoint
      obtain ⟨rfl, rfl⟩ := Prod.mk.inj (Option.some.inj hnext)
      have hph : ph.Written := by
        rcases hwritten with rfl | ⟨-, hph⟩
        · exact .inl rfl
        · exact hph
      refine ⟨ph, waiting, h.move_child hcur h.linked h.message ?_ hph⟩
      simpa using hparent
    · simp only [not_exists] at hret
      rw [next_writing hret] at hnext
      obtain ⟨⟨q', m'⟩, hstep, hq⟩ := Option.map_eq_some_iff.mp hnext
      obtain ⟨rfl, rfl⟩ := Prod.mk.inj hq
      obtain ⟨ph', hadv, hph, hat, hmessage, hl⟩ :=
        TransferAt.step_linked hn hapart hpoint h.linked hptr h.message hstep hret
      refine ⟨ph', waiting, h.move_child hcur hl hmessage ?_ hat⟩
      exact hparent.of_writing hph hadv (by simp)
  | signalp =>
    rw [HandoverPoint.next, hptr, Option.map_some, Option.some.injEq] at hnext
    obtain ⟨rfl, rfl⟩ := Prod.mk.inj hnext
    refine ⟨ph, waiting, h.move_child hcur h.linked h.message ?_ ⟨hpoint, rfl⟩⟩
    simpa using hparent
  | testExist t =>
    obtain ⟨hwritten, rfl⟩ := hpoint
    rw [HandoverPoint.next, hpipe] at hnext
    split_ifs at hnext with hexist
    · obtain ⟨rfl, rfl⟩ := Prod.mk.inj (Option.some.inj hnext)
      refine ⟨ph, waiting, h.move_child hcur h.linked h.message ?_ hwritten⟩
      simpa using hparent
    · obtain ⟨rfl, rfl⟩ := Prod.mk.inj (Option.some.inj hnext)
      have hread : ¬ ph.Unread := by
        rcases hwritten with rfl | rfl | rfl
        · exact absurd rfl hexist
        · simp [Phase.Unread]
        · simp [Phase.Unread]
      obtain ⟨hw, hparent'⟩ := hparent.of_read (∃ r, HandoverPoint.signalled 0 = .signalled r) hread
      exact ⟨ph, waiting, h.move_child hcur h.linked h.message hparent' ⟨hwritten, hw⟩⟩
  | signal =>
    obtain ⟨⟨r, k⟩, hsignal, hq⟩ := Option.map_eq_some_iff.mp hnext
    obtain ⟨rfl, rfl⟩ := Prod.mk.inj hq
    exact ⟨ph, false, h.move_child hcur (h.linked.signal hsignal) h.message
      (hparent.of_signal hpoint (hin rfl)) ⟨hpoint, rfl⟩⟩
  | signalled _ => cases hnext
  | _ => cases hpoint

theorem step (hn : x.n ≤ npipeQueue) (hbuf : Apart x.n x.ptr x.buf) (hmsg : Apart x.n x.ptr x.msg)
    (h : x.Agrees message ph waiting c) (hin : x.InTime c e) (hexec : x.threads.exec c e = some d) :
    ∃ ph' waiting', x.Agrees message ph' waiting' d := by
  rcases Threads.exec_cases hexec with ⟨q, m, rfl, hnext, rfl⟩ | ⟨q, -, hbegin, -⟩ | ⟨i, m, -, htick, rfl⟩
  · obtain ⟨i, hr⟩ := h.linked.running
    have hcur : c.state.current = i := Core.current_eq hr
    change (c.points c.state.current).next x c.state = some (q, m) at hnext
    have hin' : c.points c.state.current = .signal → c.points x.parent ≠ .wait := hin rfl
    rw [hcur] at hnext hin'
    by_cases hip : i = x.parent
    · subst hip
      exact h.step_parent hn hbuf hr hnext
    · by_cases hic : i = x.child
      · subst hic
        exact h.step_child hn hmsg hr hin' hnext
      · rw [h.others i hip hic] at hnext
        cases hnext
  · cases hbegin
  · obtain ⟨hl, hmem⟩ := h.linked.tick htick
    refine ⟨ph, waiting, hl, ?_, ?_, ?_, h.others⟩
    · rw [← h.message]
      exact bytes_congr (fun l _ => by rw [hmem])
    · rw [hmem]
      exact h.parent
    · rw [hmem]
      exact h.child

end Agrees

end Handover

def Kernel.handover (k : Kernel) (parent child ps sem n buf msg : ℕ) : Handover where
  parent := parent
  child := child
  parentPtr := k.tasks.threads parent
  childPtr := k.tasks.threads child
  ps := ps
  ptr := (k.pipes ps).pipePtr
  sem := sem
  n := n
  buf := buf
  msg := msg

theorem Kernel.Paired.agrees {k : Kernel} {parent child ps sem : ℕ} (h : k.Paired parent child ps sem)
    (n buf msg : ℕ) (mem : ℕ → BitVec 8) :
    (k.handover parent child ps sem n buf msg).Agrees (Core.bytes ⟨k, true, mem⟩ msg n) .ready false
      ((k.handover parent child ps sem n buf msg).start ⟨k, true, mem⟩) := by
  obtain ⟨que, hlt, hentry⟩ := h.entry
  have hlive : k.tasks.Live parent := ⟨h.lt, by rw [h.runnable]; decide⟩
  constructor
  · constructor
    · exact h.table
    · exact ⟨_, h.running⟩
    · exact h.ne
    · exact hlive
    · rfl
    · rfl
    · exact h.runnable
    · exact h.running.2.2
    · exact h.running.2.1
    · exact h.pstruct_parent
    · exact h.pstruct_child
    · have hempty := h.empty
      change k.pipes ps = ⟨(k.pipes ps).pipePtr, .empty⟩
      rw [← hempty]
    · exact ⟨not_isbadsem hlt, congrArg SemtableEntry.semstate hentry⟩
    · change (k.semtable sem).Balanced
      rw [hentry]
      exact .init (le_refl _) (by decide) que
    · exact congrArg SemtableEntry.semcount hentry
    · change (k.semtable sem).semqueue.tids = []
      rw [hentry]
      rfl
  · rfl
  · have hpoint : ((k.handover parent child ps sem n buf msg).start ⟨k, true, mem⟩).points parent = .waitp :=
      if_pos rfl
    exact hpoint ▸ ⟨rfl, .inl rfl⟩
  · have hpoint : ((k.handover parent child ps sem n buf msg).start ⟨k, true, mem⟩).points child =
        .writing (.pwrite msg) := (if_neg h.ne.symm).trans (if_pos rfl)
    exact hpoint ▸ ⟨rfl, rfl, rfl⟩
  · intro j hj hj'
    exact (if_neg hj).trans (if_neg hj')

/-- While the child does not signal between the parent's test and its `wait`, the parent does not wait
once the child is through, and it receives the message. -/
theorem pipe_handover {k : Kernel} {parent child ps sem n buf msg : ℕ} {mem : ℕ → BitVec 8}
    {ops : List (Event ℕ HandoverPoint)} {c : Config Core ℕ HandoverPoint}
    (hpair : k.Paired parent child ps sem) (hn : n ≤ npipeQueue)
    (hbuf : Apart n (k.pipes ps).pipePtr buf) (hmsg : Apart n (k.pipes ps).pipePtr msg)
    (hrun : Run (fun c e d => (k.handover parent child ps sem n buf msg).threads.exec c e = some d ∧
        (k.handover parent child ps sem n buf msg).InTime c e)
      ((k.handover parent child ps sem n buf msg).start ⟨k, true, mem⟩) ops c) :
    (∀ r, c.points child = .signalled r → (c.state.kernel.tasks.thread parent).state ≠ .wait) ∧
      ∀ r, c.points parent = .received r →
        r = 1 ∧ c.state.bytes buf n = Core.bytes ⟨k, true, mem⟩ msg n := by
  generalize hx : k.handover parent child ps sem n buf msg = x at hrun
  have hinv : ∃ ph waiting, x.Agrees (Core.bytes ⟨k, true, mem⟩ msg n) ph waiting c := by
    refine hrun.invariant
      (I := fun c => ∃ ph waiting, x.Agrees (Core.bytes ⟨k, true, mem⟩ msg n) ph waiting c) ?_ ?_
    · exact ⟨.ready, false, hx ▸ hpair.agrees n buf msg mem⟩
    · rintro c e d ⟨ph, waiting, h⟩ ⟨hexec, hin⟩
      subst hx
      exact h.step hn hbuf hmsg hin hexec
  obtain ⟨ph, waiting, h⟩ := hinv
  subst hx
  constructor
  · intro r hr
    have hchild := h.child
    change Handover.ChildAt _ ph waiting _ (c.points child) at hchild
    rw [hr] at hchild
    have hstate := h.linked.parent_state
    rw [hchild.2, if_neg (by decide)] at hstate
    change (c.state.kernel.tasks.thread parent).state = _ at hstate
    rw [hstate]
    decide
  · intro r hr
    have hparent := h.parent
    change Handover.ParentAt _ ph waiting _ _ (c.points parent) at hparent
    rw [hr] at hparent
    obtain ⟨-, rfl, rfl⟩ := hparent
    exact ⟨rfl, h.message⟩

instance (x : Handover) (c : Config Core ℕ HandoverPoint) (e : Event ℕ HandoverPoint) :
    Decidable (x.InTime c e) :=
  match e with
  | .stmt => decidable_of_iff (x.threads.point c = .signal → c.points x.parent ≠ .wait) (by simp [Handover.InTime])
  | .call _ | .tick _ => .isTrue (fun h => by cases h)

namespace Handover

def two : Handover := Kernel.pipeKernel.handover 0 1 0x7fef30 0 2 0x2000 0x1000

def twoCore : Core := ⟨Kernel.pipeKernel, true, fun p => p⟩

def parentFirst : List (Event ℕ HandoverPoint) := .tick 0 :: List.replicate 25 .stmt

def childBetween : List (Event ℕ HandoverPoint) :=
  .tick 0 :: .stmt :: .stmt :: .tick 1 :: List.replicate 12 .stmt ++ [.tick 0, .stmt]

end Handover

theorem pipe_handover_example : ∃ c, Run (fun c e d => Handover.two.threads.exec c e = some d ∧
      Handover.two.InTime c e) (Handover.two.start Handover.twoCore) Handover.parentFirst c ∧
    c.points 1 = .signalled 1 ∧ (c.state.kernel.tasks.thread 0).state ≠ .wait ∧
    c.points 0 = .received 1 ∧ c.state.bytes 0x2000 2 = [0, 1] := by
  have hvals : (execAll (fun c e => if Handover.two.InTime c e then Handover.two.threads.exec c e else none)
      (Handover.two.start Handover.twoCore) Handover.parentFirst).map (fun c => (c.points 1, c.points 0)) =
        some (.signalled 1, .received 1) := by decide +kernel
  obtain ⟨c, hexec, hpoints⟩ := Option.map_eq_some_iff.mp hvals
  obtain ⟨hchild, hparent⟩ := Prod.mk.inj hpoints
  have hrun : Run (fun c e d => Handover.two.threads.exec c e = some d ∧ Handover.two.InTime c e)
      (Handover.two.start Handover.twoCore) Handover.parentFirst c :=
    (execAll_run hexec).mono (fun h => (Option.ite_none_right_eq_some.mp h).symm)
  have hptr : (Kernel.pipeKernel.pipes 0x7fef30).pipePtr = 0x7fdf20 := by decide +kernel
  obtain ⟨hwait, hreceive⟩ := pipe_handover Kernel.pipeKernel_paired (by decide)
    (by rw [hptr]; decide) (by rw [hptr]; decide) hrun
  refine ⟨c, hrun, hchild, hwait 1 hchild, hparent, (hreceive 1 hparent).2.trans ?_⟩
  decide

/-- The child's signal is lost, and the parent waits for ever. -/
theorem pipe_signal_lost : ∃ c, Run (fun c e d => Handover.two.threads.exec c e = some d)
      (Handover.two.start Handover.twoCore) Handover.childBetween c ∧
    c.points 1 = .signalled 1 ∧ (c.state.kernel.tasks.thread 0).state = .wait := by
  have hvals : (execAll Handover.two.threads.exec (Handover.two.start Handover.twoCore)
      Handover.childBetween).map (fun c => (c.points 1, (c.state.kernel.tasks.thread 0).state)) =
        some (.signalled 1, .wait) := by decide +kernel
  obtain ⟨c, hexec, hpoints⟩ := Option.map_eq_some_iff.mp hvals
  obtain ⟨hchild, hstate⟩ := Prod.mk.inj hpoints
  exact ⟨c, execAll_run hexec, hchild, hstate⟩

end MinOS
