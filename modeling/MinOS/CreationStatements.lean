import MinOS.Preemption
import MinOS.ThreadCreation

namespace MinOS

open Library.Integers Library.Interleavings Library.Programs

/-- The statement that a thread executes next, with the local variables `t` of `create_thread` and `i`
of `thread_run`. The three statements that print the thread are numbered. -/
inductive CreatePoint where
  | idle
  | ioCli (func : ThreadFunc)
  | alloc (func : ThreadFunc)
  | gen (func : ThreadFunc) (t : ℕ)
  | test (t i : ℕ)
  | runCli (t i : ℕ)
  | setThread (t i : ℕ)
  | setState (t i : ℕ)
  | setIndex (t i : ℕ)
  | setPtid (t i : ℕ)
  | setTid (t i : ℕ)
  | setDict (t i : ℕ)
  | incGlobal (t i : ℕ)
  | runSti (t i : ℕ)
  | put (t i n : ℕ)
  | ioSti (t : ℕ)
  | ret (t : ℕ)

namespace Core

def thread (m : Core) (i : ℕ) : Thread := m.kernel.tasks.thread i

def setThread (m : Core) (i : ℕ) (x : Thread) : Core :=
  m.setTasks (m.kernel.tasks.setObj (m.kernel.tasks.threads i) x)

def setIntr (m : Core) (intr : Bool) : Core := { m with intr := intr }

end Core

/-- One statement. `thread_gen2` and `putsn_serial` end with messages on the serial port, and so with
interrupts on. -/
def CreatePoint.next : CreatePoint → Core → Option (CreatePoint × Core)
  | idle, _ => none
  | ioCli func, m => some (alloc func, m.setIntr false)
  | alloc func, m => (kmallocAlignas m.kernel.heap sizeofThread 16).map
      (fun x => (gen func x.1, { m with kernel := m.kernel.setHeap x.2 }))
  | gen func t, m => (m.kernel.threadGen2 t func).map
      (fun k => (test t 0, { m with kernel := k, intr := true }))
  | test t i, m =>
    if i < threadNum then
      if (m.thread i).state = .dead then some (runCli t i, m) else some (test t (i + 1), m)
    else some (ioSti t, m)
  | runCli t i, m => some (setThread t i, m.setIntr false)
  | setThread t i, m => some (setState t i, m.setTasks { m.kernel.tasks with
      threads := Function.update m.kernel.tasks.threads i (.at t) })
  | setState t i, m => some (setIndex t i, m.setThread i { m.thread i with state := .runnable })
  | setIndex t i, m => some (setPtid t i, m.setThread i { m.thread i with index := i })
  | setPtid t i, m => (Code.getCurThreadTid.run m).map
      (fun x => (setTid t i, x.2.setThread i { x.2.thread i with ptid := x.1 }))
  | setTid t i, m =>
    some (setDict t i, m.setThread i { m.thread i with tid := m.kernel.tasks.tidGlobal })
  | setDict t i, m => some (incGlobal t i, m.setTasks { m.kernel.tasks with
      tidIndexDict := Function.update m.kernel.tasks.tidIndexDict i (m.thread i).tid })
  | incGlobal t i, m => some (runSti t i, m.setTasks { m.kernel.tasks with
      tidGlobal := int32 (m.kernel.tasks.tidGlobal + 1) })
  | runSti t i, m => some (put t i 0, m.setIntr true)
  | put t i n, m => some (if n < 2 then put t i (n + 1) else ioSti t, m.setIntr true)
  | ioSti t, m => some (ret t, m.setIntr true)
  | ret _, m => some (idle, m)

namespace CreatePoint

def beginsCall (_ : Core) : CreatePoint → CreatePoint → Bool
  | idle, ioCli _ => true
  | _, _ => false

def addr : CreatePoint → Option ℕ
  | gen _ t | test t _ | runCli t _ | setThread t _ | setState t _ | setIndex t _ | setPtid t _
  | setTid t _ | setDict t _ | incGlobal t _ | runSti t _ | put t _ _ | ioSti t | ret t => some t
  | _ => none

def ReadsTid : CreatePoint → Prop
  | setDict _ _ | incGlobal _ _ => True
  | _ => False

/-- What a thread relies on for its next statement: a block of the heap for the structure, the entry
as it was tested, and `tid_global` to itself. -/
def Undisputed (c : Config Core ℕ CreatePoint) : CreatePoint → Prop
  | alloc _ => Answered c.state.kernel.heap [sizeofThread]
  | setThread _ i => (c.state.thread i).state = .dead
  | setTid _ _ => ∀ j, j < threadNum → ¬ (c.points j).ReadsTid
  | _ => True

end CreatePoint

def createThreads : Threads Core ℕ CreatePoint :=
  preemptive CreatePoint.next CreatePoint.beginsCall

structure CreateReturn where
  thread : ℕ
  tid : ℤ

structure Creation where
  config : Config Core ℕ CreatePoint
  returns : List CreateReturn

def CreatePoint.returned (m : Core) : CreatePoint → List CreateReturn
  | ret t => [⟨t, (m.kernel.tasks.obj (.at t)).tid⟩]
  | _ => []

namespace Creation

def exec (s : Creation) (e : Event ℕ CreatePoint) : Option Creation :=
  (createThreads.exec s.config e).map (fun d =>
    match e with
    | .stmt => ⟨d, s.returns ++ (createThreads.point s.config).returned s.config.state⟩
    | _ => ⟨d, s.returns⟩)

def Undisputed (s : Creation) : Event ℕ CreatePoint → Prop
  | .stmt => (createThreads.point s.config).Undisputed s.config
  | _ => True

def isCall : Event ℕ CreatePoint → Bool
  | .call _ => true
  | _ => false

structure Registered (s : Creation) : Prop where
  tids : (s.returns.map CreateReturn.tid).Nodup
  entries : (s.returns.map (fun r => (s.config.state.kernel.tasks.obj (.at r.thread)).index)).Nodup
  entered : ∀ r ∈ s.returns, ∃ i, i < threadNum ∧ s.config.state.kernel.tasks.threads i = .at r.thread ∧
    (s.config.state.thread i).index = i ∧ (s.config.state.thread i).tid = r.tid ∧
    s.config.state.kernel.tasks.tidIndexDict i = r.tid

end Creation

end MinOS
