import MinOS.Library.Programs
import MinOS.Semaphore

/-!
`wait` and `signal` statement by statement, with the interrupt flag that `io_cli` and `io_sti` set
in them and in the functions they call.
-/

namespace MinOS

open Library.Integers Library.Programs Library.Programs.Program

/-- The kernel between two statements: `intr` is the interrupt flag, `mem` the bytes in the buffers
of the threads. -/
structure Core where
  kernel : Kernel
  intr : Bool
  mem : ℕ → BitVec 8

abbrev Code := Program Core

inductive Exit where
  | stiRet (r : ℤ)
  | threadScheduler

namespace Code

def fetch {α : Type} (f : Kernel → α) : Code α := single (fun m => some (f m.kernel, m))

def assign (f : Kernel → Kernel) : Code Unit :=
  single (fun m => some ((), { m with kernel := f m.kernel }))

def ioCli : Code Unit := single (fun m => some ((), { m with intr := false }))

def ioSti : Code Unit := single (fun m => some ((), { m with intr := true }))

def writeSerial (_ : Char) : Code Unit := assign id

def writeAll : List Char → Code Unit
  | [] => pure ()
  | c :: cs => do
    writeSerial c
    writeAll cs

def putsSerial (s : String) : Code Unit := do
  ioCli
  writeAll s.toList
  ioSti

def hexDigits (n : ℕ) : String :=
  String.ofList ('0' :: 'x' :: (List.range 16).map (fun i => Nat.digitChar (n / 16 ^ (15 - i) % 16)))

def putnSerial (n : ℕ) : Code Unit := putsSerial (hexDigits n)

def putsnSerial (s : String) (n : ℤ) : Code Unit := do
  putsSerial s
  putnSerial (n % 2 ^ 64).toNat
  putsSerial "\r\n"

def getCurThreadTid : Code ℤ := do
  ioCli
  let tid ← single (fun m => m.kernel.tasks.getCurThreadTid.map (fun tid => (tid, m)))
  ioSti
  return tid

def searchFrom (tid : ℤ) : List ℕ → Code ℤ
  | [] => return -1
  | i :: is => do
    if (← fetch (fun s => s.tasks.tidIndexDict i)) = tid then return i
    else searchFrom tid is

def searchIndexFromTid (tid : ℤ) : Code ℤ := do
  let ret ← searchFrom tid (List.range threadNum)
  if ret = -1 then
    putsSerial "no such tid thread!!\n"
    return ret
  else return ret

def getThreadPtr (tid : ℤ) : Code ThreadPtr := do
  let tIndex ← searchIndexFromTid tid
  fetch (fun s => if tIndex = -1 then s.tasks.before else s.tasks.threads tIndex.toNat)

def changeState (tid : ℤ) (state : ThreadState) : Code ℤ := do
  let t ← getThreadPtr tid
  if t = .at 0 then return 0
  else
    assign (fun s => s.setTasks (s.tasks.setObj t { s.tasks.obj t with state := state }))
    return 1

def enqueueSem (tid sem : ℤ) : Code ℤ := do
  let num ← fetch (fun s => (s.semtable sem).semqueue.num)
  if num < nsemQueue then
    assign (fun s => s.setSemqueue sem { (s.semtable sem).semqueue with
      que := Function.update (s.semtable sem).semqueue.que
        (((s.semtable sem).semqueue.head + (s.semtable sem).semqueue.num).tmod nsemQueue) tid })
    assign (fun s => s.setSemqueue sem { (s.semtable sem).semqueue with
      num := (s.semtable sem).semqueue.num + 1 })
    return 1
  else return 0

def dequeueSem (sem : ℤ) : Code (ℤ × ℤ) := do
  let num ← fetch (fun s => (s.semtable sem).semqueue.num)
  if 0 < num then
    let tid ← fetch (fun s => (s.semtable sem).semqueue.que (s.semtable sem).semqueue.head)
    assign (fun s => s.setSemqueue sem { (s.semtable sem).semqueue with
      head := ((s.semtable sem).semqueue.head + 1).tmod nsemQueue })
    assign (fun s => s.setSemqueue sem { (s.semtable sem).semqueue with
      num := (s.semtable sem).semqueue.num - 1 })
    return (1, tid)
  else return (0, 0)

def block (sem tid : ℤ) : Code Exit := do
  if (← changeState tid .wait) = 0 then return .stiRet 0
  else
    let t ← getThreadPtr tid
    assign (fun s => s.setSid (s.tasks.obj t).sidPtr sem)
    if (← enqueueSem tid sem) = 0 then return .stiRet 0
    else
      putsnSerial "enqueue tid: " tid
      return .threadScheduler

def wait (sem : ℤ) : Code Exit := do
  ioCli
  if isbadsem sem then return .stiRet 0
  else if (← fetch (fun s => (s.semtable sem).semstate)) ≠ sUsed then return .stiRet 0
  else
    assign (fun s => s.setSemcount sem (int32 ((s.semtable sem).semcount - 1)))
    if (← fetch (fun s => (s.semtable sem).semcount)) < 0 then
      let tid ← getCurThreadTid
      block sem tid
    else return .stiRet 1

def wake (sem : ℤ) : Code Exit := do
  let (found, tid) ← dequeueSem sem
  if found = 0 then return .stiRet 0
  else
    putsnSerial "dequeue tid: " tid
    if (← changeState tid .runnable) = 0 then return .stiRet 0
    else return .threadScheduler

def signal (sem : ℤ) : Code Exit := do
  ioCli
  if isbadsem sem then return .stiRet 0
  else if (← fetch (fun s => (s.semtable sem).semstate)) ≠ sUsed then return .stiRet 0
  else if (← fetch (fun s => (s.semtable sem).semcount)) < 0 then
    assign (fun s => s.setSemcount sem (int32 ((s.semtable sem).semcount + 1)))
    wake sem
  else return .stiRet 1

end Code

end MinOS
