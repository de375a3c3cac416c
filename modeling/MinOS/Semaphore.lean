import MinOS.Heap
import MinOS.Library.Queues
import MinOS.ThreadTable

/-!
The semaphores of `semaphore.c`, in a kernel state that also has the thread table and the heap.
Every call is one step: interrupts are off while it runs.
-/

namespace MinOS

open Library.Integers Library.Queues

def nsem : ℕ := 100

def nsemQueue : ℕ := 30

def sFree : ℤ := 0

def sUsed : ℤ := 1

structure QueueSem where
  head : ℤ
  num : ℤ
  que : ℤ → ℤ

namespace QueueSem

def push (que : QueueSem) (tid : ℤ) : QueueSem :=
  ⟨que.head, que.num + 1, Function.update que.que ((que.head + que.num).tmod nsemQueue) tid⟩

def pop (que : QueueSem) : QueueSem := ⟨(que.head + 1).tmod nsemQueue, que.num - 1, que.que⟩

def tids (que : QueueSem) : List ℤ := contents nsemQueue que.que que.head que.num.toNat

end QueueSem

structure SemtableEntry where
  semstate : ℤ
  semcount : ℤ
  semqueue : QueueSem

inductive PipeState where
  | empty
  | exist
  | sending
  | receiving
deriving DecidableEq

structure PipeStruct where
  pipePtr : ℕ
  pstate : PipeState

/-- `semtable` also has what stands in memory around the table, `sids` are the integers behind
the pointers `sid_ptr`, `pipes` the structures behind the pointers `pstruct`. `threadExec` is the
address of `thread_exec`. -/
structure Kernel where
  tasks : Tasks
  heap : Heap
  semtable : ℤ → SemtableEntry
  sids : ℕ → ℤ
  pipes : ℕ → PipeStruct
  threadExec : ℕ

def isbadsem (sem : ℤ) : Prop := sem < 0 ∨ nsem ≤ sem

instance (sem : ℤ) : Decidable (isbadsem sem) := inferInstanceAs (Decidable (_ ∨ _))

namespace Kernel

def setEntry (s : Kernel) (sem : ℤ) (e : SemtableEntry) : Kernel :=
  { s with semtable := Function.update s.semtable sem e }

def setTasks (s : Kernel) (tasks : Tasks) : Kernel := { s with tasks := tasks }

def setSid (s : Kernel) (p : ℕ) (sem : ℤ) : Kernel :=
  { s with sids := Function.update s.sids p sem }

def setSemcount (s : Kernel) (sem count : ℤ) : Kernel :=
  s.setEntry sem { s.semtable sem with semcount := count }

def setSemqueue (s : Kernel) (sem : ℤ) (que : QueueSem) : Kernel :=
  s.setEntry sem { s.semtable sem with semqueue := que }

def enqueueSem (s : Kernel) (tid sem : ℤ) : Option Kernel :=
  let que := (s.semtable sem).semqueue
  if que.num < nsemQueue then some (s.setSemqueue sem (que.push tid)) else none

def dequeueSem (s : Kernel) (sem : ℤ) : Option (ℤ × Kernel) :=
  let que := (s.semtable sem).semqueue
  if 0 < que.num then some (que.que que.head, s.setSemqueue sem que.pop) else none

def getSemcount (s : Kernel) (sem : ℤ) : ℤ := (s.semtable sem).semcount

def newsem (s : Kernel) : ℤ × Kernel :=
  match (List.range nsem).find? (fun i : ℕ => decide ((s.semtable i).semstate = sFree)) with
  | some i => (i, s.setEntry i { s.semtable i with semstate := sUsed })
  | none => (-1, s)

def createSem (s : Kernel) (initCount : ℤ) : ℤ × Kernel :=
  if initCount < 0 then (-1, s)
  else
    let (sid, s) := s.newsem
    if sid < 0 then (-1, s)
    else (sid, s.setEntry sid ⟨(s.semtable sid).semstate, initCount, ⟨0, 0, fun _ => -1⟩⟩)

def threadScheduler (s : Kernel) : Option Kernel := s.tasks.threadScheduler.map s.setTasks

def block (s : Kernel) (sem tid : ℤ) : Option (ℤ × Kernel) :=
  let (found, tasks) := s.tasks.changeState tid .wait
  let s := s.setTasks tasks
  if found = 0 then some (0, s)
  else
    let s := s.setSid (s.tasks.obj (s.tasks.getThreadPtr tid)).sidPtr sem
    match s.enqueueSem tid sem with
    | none => some (0, s)
    | some s => s.threadScheduler.map (fun s => (1, s))

def wait (s : Kernel) (sem : ℤ) : Option (ℤ × Kernel) :=
  if isbadsem sem then some (0, s)
  else if (s.semtable sem).semstate ≠ sUsed then some (0, s)
  else
    let s := s.setSemcount sem (int32 ((s.semtable sem).semcount - 1))
    if (s.semtable sem).semcount < 0 then s.tasks.getCurThreadTid.bind (s.block sem)
    else some (1, s)

def signal (s : Kernel) (sem : ℤ) : Option (ℤ × Kernel) :=
  if isbadsem sem then some (0, s)
  else if (s.semtable sem).semstate ≠ sUsed then some (0, s)
  else if (s.semtable sem).semcount < 0 then
    let s := s.setSemcount sem (int32 ((s.semtable sem).semcount + 1))
    match s.dequeueSem sem with
    | none => some (0, s)
    | some (tid, s) =>
      let (found, tasks) := s.tasks.changeState tid .runnable
      let s := s.setTasks tasks
      if found = 0 then some (0, s) else s.threadScheduler.map (fun s => (1, s))
  else some (1, s)

def releaseWaiters (sem : ℤ) : ℕ → Kernel → ℤ × Kernel
  | 0, s => (1, s)
  | n + 1, s =>
    match s.dequeueSem sem with
    | none => (0, s)
    | some (tid, s) =>
      let (found, tasks) := s.tasks.changeState tid .runnable
      let s := s.setTasks tasks
      if found = 0 then (0, s) else releaseWaiters sem n s

/-- The checks let only bad numbers pass, and entries that are free. -/
def deleteSem (s : Kernel) (sem : ℤ) : ℤ × Kernel :=
  if ¬ isbadsem sem then (0, s)
  else if (s.semtable sem).semstate ≠ sFree then (0, s)
  else
    let s := s.setEntry sem { s.semtable sem with semstate := sFree }
    releaseWaiters sem (s.semtable sem).semqueue.num.toNat s

def Used (s : Kernel) (sem : ℤ) : Prop := ¬ isbadsem sem ∧ (s.semtable sem).semstate = sUsed

instance (s : Kernel) (sem : ℤ) : Decidable (s.Used sem) := inferInstanceAs (Decidable (_ ∧ _))

end Kernel

end MinOS
