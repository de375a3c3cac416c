import MinOS.Preemption
import MinOS.Threads

namespace MinOS

open Library.Interleavings Library.Programs

inductive PipeFun where
  | pread
  | pwrite
deriving DecidableEq

namespace PipeFun

def expects : PipeFun → PipeState
  | pread => .exist
  | pwrite => .empty

def during : PipeFun → PipeState
  | pread => .receiving
  | pwrite => .sending

def leaves : PipeFun → PipeState
  | pread => .empty
  | pwrite => .exist

def dst (f : PipeFun) (pipePtr buf : ℕ) : ℕ :=
  match f with
  | pread => buf
  | pwrite => pipePtr

def src (f : PipeFun) (pipePtr buf : ℕ) : ℕ :=
  match f with
  | pread => pipePtr
  | pwrite => buf

end PipeFun

inductive PipePoint where
  | idle
  | getThread (f : PipeFun) (buf : ℕ)
  | test (f : PipeFun) (buf : ℕ) (t : ThreadPtr)
  | claim (f : PipeFun) (buf : ℕ) (t : ThreadPtr)
  | memcpy (f : PipeFun) (buf : ℕ) (t : ThreadPtr)
  | copy (f : PipeFun) (buf : ℕ) (t : ThreadPtr) (c₁ c₂ i : ℕ)
  | release (f : PipeFun) (buf : ℕ) (t : ThreadPtr)
  | ret (f : PipeFun) (buf : ℕ) (r : ℤ)
deriving DecidableEq

namespace PipePoint

def pread (buf : ℕ) : PipePoint := .getThread .pread buf

def pwrite (buf : ℕ) : PipePoint := .getThread .pwrite buf

end PipePoint

namespace Core

def pstruct (m : Core) (t : ThreadPtr) : ℕ := (m.kernel.tasks.obj t).pstruct

def pipe (m : Core) (t : ThreadPtr) : PipeStruct := m.kernel.pipes (m.pstruct t)

def setPstate (m : Core) (t : ThreadPtr) (pstate : PipeState) : Core :=
  { m with kernel := m.kernel.setPipe (m.pstruct t) { m.pipe t with pstate := pstate } }

def setByte (m : Core) (p : ℕ) (b : BitVec 8) : Core := { m with mem := Function.update m.mem p b }

def curThreadPtr (m : Core) : Option (ThreadPtr × Core) :=
  (Code.getCurThreadTid >>= Code.getThreadPtr).run m

def bytes (m : Core) (p n : ℕ) : List (BitVec 8) := (List.range n).map (fun i => m.mem (p + i))

end Core

def PipePoint.next (n : ℕ) : PipePoint → Core → Option (PipePoint × Core)
  | idle, _ => none
  | getThread f buf, m => m.curThreadPtr.map (fun x => (test f buf x.1, x.2))
  | test f buf t, m =>
    if (m.pipe t).pstate = f.expects then some (claim f buf t, m) else some (ret f buf 0, m)
  | claim f buf t, m => some (memcpy f buf t, m.setPstate t f.during)
  | memcpy f buf t, m =>
    some (copy f buf t (f.dst (m.pipe t).pipePtr buf) (f.src (m.pipe t).pipePtr buf) 0, m)
  | copy f buf t c₁ c₂ i, m =>
    if i < n then some (copy f buf t c₁ c₂ (i + 1), m.setByte (c₁ + i) (m.mem (c₂ + i)))
    else some (release f buf t, m)
  | release f buf t, m => some (ret f buf 1, m.setPstate t f.leaves)
  | ret _ _ _, m => some (idle, m)

end MinOS
