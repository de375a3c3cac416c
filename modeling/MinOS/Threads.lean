import MinOS.Semaphore
import MinOS.ThreadSwitches

/-!
Creating, forking and ending threads: the functions of `task.c` and `pipe.c` that work on the
thread table, the heap and the semaphores together.
-/

namespace MinOS

def sizeofThread : ℤ := 128

def sizeofSid : ℤ := 4

def sizeofPipeStruct : ℤ := 16

def npipeQueue : ℤ := 0x1000

namespace Tasks

def threadGenForFork (s : Tasks) (newt curt : ThreadPtr) (stack threadExec : ℕ) : Tasks :=
  s.setObj newt { s.obj newt with
    stack := stack
    stackBtm := stack + stackLength
    rsp := stack + stackLength
    rip := threadExec
    funcInfo := (s.obj curt).funcInfo
    sidPtr := (s.obj curt).sidPtr
    pstruct := (s.obj curt).pstruct
    ctid := fun _ => -1 }

/-- `fork_thread` up to `switch_fork`, with `newt` and `stack` from the heap. -/
def forkThread (s : Tasks) (newt : ThreadPtr) (stack threadExec : ℕ) : Option Tasks := do
  let tid ← s.getCurThreadTid
  let curt := s.getThreadPtr tid
  let s := s.threadGenForFork newt curt stack threadExec
  let (tIndex, s) ← s.threadRegister newt
  let s := s.setObj curt (setCtid (s.obj curt) (s.obj newt).tid).2
  let s := s.setObj newt { s.obj newt with state := .runnable }
  some { s with curThreadIndex := tIndex }

end Tasks

namespace Kernel

def setHeap (s : Kernel) (h : Heap) : Kernel := { s with heap := h }

def setPipe (s : Kernel) (p : ℕ) (v : PipeStruct) : Kernel :=
  { s with pipes := Function.update s.pipes p v }

/-- The structure `thread` as `thread_gen2` fills it in; `init_stack` leaves sixteen words on the
new stack. -/
def genThread (s : Kernel) (thread stack sidPtr pstruct : ℕ) (func : ThreadFunc) : Thread :=
  { s.tasks.obj (.at thread) with
    stack := stack
    stackBtm := stack + stackLength
    rsp := stack + stackLength - 128
    rip := s.threadExec
    funcInfo := func
    sidPtr := sidPtr
    pstruct := pstruct
    ctid := fun _ => -1 }

def threadGen2 (s : Kernel) (thread : ℕ) (func : ThreadFunc) : Option Kernel := do
  let (stack, h) ← kmallocAlignas s.heap stackLength 16
  let (sidPtr, h) ← kmalloc h sizeofSid
  let (pstruct, h) ← kmalloc h sizeofPipeStruct
  let t := s.genThread thread stack sidPtr pstruct func
  let s := (s.setHeap h).setTasks (s.tasks.setObj (.at thread) t)
  some (s.setPipe pstruct { s.pipes pstruct with pstate := .empty })

def createThread (s : Kernel) (func : ThreadFunc) : Option (ℤ × Kernel) := do
  let (t, h) ← kmallocAlignas s.heap sizeofThread 16
  let s ← (s.setHeap h).threadGen2 t func
  let tasks ← s.tasks.threadRun (.at t)
  some ((tasks.obj (.at t)).tid, s.setTasks tasks)

def forkThread (s : Kernel) : Option Kernel := do
  let (newstack, h) ← kmallocAlignas s.heap stackLength 16
  let (newThread, h) ← kmallocAlignas h sizeofThread 16
  let tasks ← s.tasks.forkThread (.at newThread) newstack s.threadExec
  some ((s.setHeap h).setTasks tasks)

def genPipe (s : Kernel) (t : ThreadPtr) : Option (ℤ × Kernel) := do
  let pstruct := (s.tasks.obj t).pstruct
  let (pipePtr, h) ← kmalloc s.heap npipeQueue
  let s := (s.setHeap h).setPipe pstruct { s.pipes pstruct with pipePtr := pipePtr }
  if pipePtr = 0 then some (0, s)
  else
    let s := s.setPipe pstruct { s.pipes pstruct with pstate := .empty }
    let (sid, s) := s.createSem 0
    some (1, s.setSid (s.tasks.obj t).sidPtr sid)

def free (s : Kernel) (p : ℕ) : Option Kernel := (kfree s.heap p).map s.setHeap

def threadEnd (s : Kernel) (t : ℕ) : Option Kernel := do
  let sidPtr := (s.tasks.obj (.at t)).sidPtr
  let pstruct := (s.tasks.obj (.at t)).pstruct
  let tasks ← s.tasks.unregister (.at t)
  let s := s.setTasks tasks
  let s ← if s.getSemcount (s.sids sidPtr) = 0 then do
      let s := (s.deleteSem (s.sids sidPtr)).2
      let s ← s.free (s.pipes pstruct).pipePtr
      s.free pstruct
    else some s
  let s ← s.free sidPtr
  s.free t

/-- `thread_exec` once the function of the thread has returned, up to the call of the scheduler. -/
def threadExit (s : Kernel) (t : ℕ) : Option Kernel := do
  let s ← s.free (s.tasks.obj (.at t)).stack
  s.threadEnd t

end Kernel

end MinOS
