import Mathlib.Data.List.Basic
import Mathlib.Logic.Function.Basic
import MinOS.Library.Integers

/-!
The thread table of `task.c`: the array `threads`, the parallel `tid_index_dict` and the
thread structures the entries point to.
-/

namespace MinOS

open Library.Integers

def threadNum : ℕ := 40

def nthreadChild : ℕ := 10

inductive ThreadState where
  | runnable
  | wait
  | sleep
  | dead
deriving DecidableEq

inductive ThreadPtr where
  | emptyThread
  | at (addr : ℕ)
deriving DecidableEq

structure ThreadFunc where
  func : ℕ
  argc : ℤ
  argv : ℕ

structure Thread where
  stack : ℕ
  stackBtm : ℕ
  rsp : ℕ
  rip : ℕ
  funcInfo : ThreadFunc
  state : ThreadState
  tid : ℤ
  ptid : ℤ
  ctid : ℕ → ℤ
  index : ℤ
  sidPtr : ℕ
  pstruct : ℕ

/-- The initial value of `empty_thread`; the array `ctid` has no initialiser. -/
def emptyThread : Thread where
  stack := 0
  stackBtm := 0
  rsp := 0
  rip := 0
  funcInfo := ⟨0, 0, 0⟩
  state := .dead
  tid := -1
  ptid := -1
  ctid _ := 0
  index := -1
  sidPtr := 0
  pstruct := 0

/-- `obj` is the memory of the thread structures. `before` is the word in front of `threads`,
which `threads[-1]` reads. -/
structure Tasks where
  threads : ℕ → ThreadPtr
  before : ThreadPtr
  obj : ThreadPtr → Thread
  tidIndexDict : ℕ → ℤ
  tidGlobal : ℤ
  curThreadIndex : ℤ

def findChildSlot (t : Thread) (v : ℤ) : Option ℕ :=
  (List.range nthreadChild).find? (fun i => decide (t.ctid i = v))

def setCtid (t : Thread) (ctid : ℤ) : ℤ × Thread :=
  if ctid < 0 then (-1, t)
  else match findChildSlot t (-1) with
    | some i => (ctid, { t with ctid := Function.update t.ctid i ctid })
    | none => (-1, t)

def clearCtid (t : Thread) (ctid : ℤ) : ℤ × Thread :=
  if ctid < 0 then (-1, t)
  else match findChildSlot t ctid with
    | some i => (ctid, { t with ctid := Function.update t.ctid i (-1) })
    | none => (-1, t)

def findCtid (t : Thread) : ℤ :=
  match (List.range nthreadChild).reverse.find? (fun i => decide (t.ctid i ≠ -1)) with
  | some i => t.ctid i
  | none => -1

namespace Tasks

def thread (s : Tasks) (i : ℕ) : Thread := s.obj (s.threads i)

def setObj (s : Tasks) (p : ThreadPtr) (t : Thread) : Tasks :=
  { s with obj := Function.update s.obj p t }

def getCurThreadTid (s : Tasks) : Option ℤ :=
  if 0 ≤ s.curThreadIndex ∧ s.curThreadIndex < threadNum then
    some (s.tidIndexDict s.curThreadIndex.toNat)
  else none

def searchIndexFromTid (s : Tasks) (tid : ℤ) : ℤ :=
  match (List.range threadNum).find? (fun i => decide (s.tidIndexDict i = tid)) with
  | some i => i
  | none => -1

def getThreadPtr (s : Tasks) (tid : ℤ) : ThreadPtr :=
  if s.searchIndexFromTid tid = -1 then s.before else s.threads (s.searchIndexFromTid tid).toNat

def changeState (s : Tasks) (tid : ℤ) (state : ThreadState) : ℤ × Tasks :=
  let p := s.getThreadPtr tid
  if p = .at 0 then (0, s) else (1, s.setObj p { s.obj p with state := state })

def threadsInit (s : Tasks) : Tasks :=
  { s with threads := fun i => if i < threadNum then .emptyThread else s.threads i }

def findDead (s : Tasks) : Option ℕ :=
  (List.range threadNum).find? (fun i => decide ((s.thread i).state = .dead))

def enter (s : Tasks) (p : ThreadPtr) (state : ThreadState) (i : ℕ) (ptid : ℤ) : Tasks where
  threads := Function.update s.threads i p
  before := s.before
  obj := Function.update s.obj p
    { s.obj p with state := state, index := i, ptid := ptid, tid := s.tidGlobal }
  tidIndexDict := Function.update s.tidIndexDict i s.tidGlobal
  tidGlobal := int32 (s.tidGlobal + 1)
  curThreadIndex := s.curThreadIndex

def register (state : ThreadState) (s : Tasks) (p : ThreadPtr) : Option (ℤ × Tasks) :=
  match s.findDead with
  | none => some (-1, s)
  | some i => s.getCurThreadTid.map (fun ptid => (i, s.enter p state i ptid))

def threadRun (s : Tasks) (p : ThreadPtr) : Option Tasks :=
  (register .runnable s p).map Prod.snd

def threadRegister (s : Tasks) (p : ThreadPtr) : Option (ℤ × Tasks) := register .sleep s p

def unregister (s : Tasks) (p : ThreadPtr) : Option Tasks :=
  let t := s.obj p
  if 0 ≤ t.index ∧ t.index < threadNum then
    let s := { s with threads := Function.update s.threads t.index.toNat .emptyThread }
    let parent := s.getThreadPtr t.ptid
    let s := s.setObj parent (clearCtid (s.obj parent) t.tid).2
    some { s with tidIndexDict := Function.update s.tidIndexDict t.index.toNat (-1) }
  else none

/-- The search of `thread_scheduler` comes back to the current thread in the end; the result is
`none` when it never ends. -/
def nextThread (s : Tasks) : Option ℕ :=
  ((List.range' 1 threadNum).map (fun i : ℕ => ((s.curThreadIndex + i).tmod threadNum).toNat)).find?
    (fun i => decide ((s.thread i).state = .runnable))

def threadScheduler (s : Tasks) : Option Tasks :=
  s.nextThread.map (fun i : ℕ => { s with curThreadIndex := i })

end Tasks

end MinOS
