import MinOS.CommandDecoding
import MinOS.Ext2
import MinOS.Library.Environments

/-!
`ahci_read` and `ahci_write` register by register, and the controller that executes commands beside
the driver.
-/

namespace MinOS

open Library.Words Library.Arrays Library.Tilings Library.Programs Library.Programs.Program

structure Transfer where
  slot : ℕ
  request : Request
  done : ℕ
  rest : List Span

structure AhciMachine where
  driver : DriverState
  pi : BitVec 32
  port : HbaPort
  pxis : BitVec 32
  is : BitVec 32
  disk : Disk
  transfer : Option Transfer

namespace AhciMachine

def mem (s : AhciMachine) : Memory := s.driver.ram.mem

def setMem (s : AhciMachine) (m : Memory) : AhciMachine :=
  { s with driver := { s.driver with ram := { s.driver.ram with mem := m } } }

def started (s : AhciMachine) : Bool := s.port.cmd.getLsbD 0

def running (s : AhciMachine) : Bool := s.port.cmd.getLsbD 15

/-- The bits `CR` and `FR` cannot be written. The commands are dropped when `ST` is cleared. -/
def writeCmd (v : BitVec 32) (s : AhciMachine) : AhciMachine :=
  let port := { s.port with cmd := (v &&& 0xffff3fff) ||| (s.port.cmd &&& 0xc000) }
  if s.started ∧ v.getLsbD 0 = false then { s with port := { port with ci := 0, sact := 0 } }
  else { s with port := port }

/-- Only ones have an effect, and only on a port that is started. -/
def writeCi (v : BitVec 32) (s : AhciMachine) : AhciMachine :=
  if s.started then { s with port := { s.port with ci := s.port.ci ||| v } } else s

def writePxis (v : BitVec 32) (s : AhciMachine) : AhciMachine := { s with pxis := s.pxis &&& ~~~v }

def writeIs (v : BitVec 32) (s : AhciMachine) : AhciMachine := { s with is := s.is &&& ~~~v }

end AhciMachine

namespace Request

/-- A number of sectors of 0 stands for 65536. -/
def bytes (r : Request) : ℕ := 512 * if r.count = 0 then 65536 else r.count

def Known (r : Request) : Prop := r.fisType = 0x27 ∧ r.isCommand = 1 ∧ (r.command = 0x25 ∨ r.command = 0x35)

def move (r : Request) (done : ℕ) (span : Span) (x : Memory × Disk) : Memory × Disk :=
  let n := min span.length (r.bytes - done)
  let a := BitVec.ofNat 64 span.start
  if r.command = 0x25 then (storeBytes x.1 a (fun i => x.2 (512 * r.lba + done + i)) n, x.2)
  else (x.1, fun k => if 512 * r.lba + done ≤ k ∧ k < 512 * r.lba + done + n then
    x.1 (offset a (k - (512 * r.lba + done))) else x.2 k)

end Request

def Reported (port : HbaPort) (slot : ℕ) (x : Word) : Prop :=
  InRegion (port.fb.setWidth 64) 0x100 x ∨
    InRegion (offset (port.clb.setWidth 64) (HbaCmdHeader.size * slot + 4)) 4 x

/-- What the controller does on its own. Bits of the interrupt registers may be set at any time. -/
inductive DeviceStep (s : AhciMachine) : AhciMachine → Prop
  | start : s.started = true → DeviceStep s { s with port := { s.port with cmd := s.port.cmd ||| 0x8000 } }
  | stop : s.started = false →
      DeviceStep s { s with
        port := { s.port with cmd := s.port.cmd &&& 0xffff7fff }
        transfer := none }
  | receive (on : Bool) :
      DeviceStep s { s with port := { s.port with
        cmd := (s.port.cmd &&& 0xffffbfff) ||| if on then 0x4000 else 0 } }
  | fetch (slot : ℕ) : s.started = true → s.running = true → s.transfer = none →
      s.port.ci.getLsbD slot = true → (readRequest s.mem s.port.clb slot).Known →
      DeviceStep s { s with
        transfer := some ⟨slot, readRequest s.mem s.port.clb slot, 0,
          (readRequest s.mem s.port.clb slot).ranges⟩ }
  | move (t : Transfer) (span : Span) (rest : List Span) : s.transfer = some t → t.rest = span :: rest →
      DeviceStep s { s.setMem (t.request.move t.done span (s.mem, s.disk)).1 with
        disk := (t.request.move t.done span (s.mem, s.disk)).2
        transfer := some ⟨t.slot, t.request, t.done + span.length, rest⟩ }
  | complete (t : Transfer) (m : Memory) : s.transfer = some t → t.rest = [] →
      (∀ x, ¬ Reported s.port t.slot x → m x = s.mem x) →
      DeviceStep s { s.setMem m with
        port := { s.port with ci := s.port.ci &&& ~~~(1#32 <<< t.slot) }
        transfer := none }
  | raise (v w : BitVec 32) : DeviceStep s { s with pxis := s.pxis ||| v, is := s.is ||| w }

namespace AhciCode

def fetch {α : Type} (f : AhciMachine → α) : Program AhciMachine α := single (fun s => some (f s, s))

def assign (f : AhciMachine → AhciMachine) : Program AhciMachine Unit := single (fun s => some ((), f s))

def startCmd (fuel : ℕ) : Program AhciMachine Unit := do
  let cmd ← fetch (fun s => s.port.cmd)
  assign (AhciMachine.writeCmd (cmd &&& 0xfffffffe))
  spin (fun s => decide (s.port.cmd &&& 0x8000 ≠ 0)) fuel
  let cmd ← fetch (fun s => s.port.cmd)
  assign (AhciMachine.writeCmd (cmd ||| 0x10))
  let cmd ← fetch (fun s => s.port.cmd)
  assign (AhciMachine.writeCmd (cmd ||| 0x01))

/-- The command table and the header of the slot are one statement, since the controller reads them
only for a slot whose bit in `PxCI` is set. There is no result when the driver halts. -/
def buildTables (cmdTblBase : Word) (slot : ℤ) (params : CmdParams) : Program AhciMachine Unit :=
  single (fun s =>
    match (buildCmdTable params cmdTblBase s.driver).bind (buildCmdheader cmdTblBase s.port slot params) with
    | .ok d => some ((), { s with driver := d })
    | .error _ => none)

def buildCommand (cmdTblBase : Word) (params : CmdParams) : Program AhciMachine Unit := do
  let ci ← fetch (fun s => s.port.ci)
  let sact ← fetch (fun s => s.port.sact)
  let slot ← single (fun s =>
    let x := findFreeCmdslot { s.port with ci := ci, sact := sact } s.driver
    some (x.1, { s with driver := x.2 }))
  buildTables cmdTblBase slot params
  let port ← fetch (fun s => s.port)
  assign (AhciMachine.writeCi (notifyCmdIsActive port slot).ci)

def waitInterrupt (fuel : ℕ) : Program AhciMachine Unit := spin (fun s => decide (s.pxis = 0)) fuel

def clearPxis (fuel : ℕ) : Program AhciMachine Unit := do
  let v ← fetch (fun s => s.pxis)
  let w ← fetch (fun s => s.pxis)
  assign (AhciMachine.writePxis (v ||| w))
  spin (fun s => decide (s.pxis ≠ 0)) fuel

def clearGhcIs (fuel portno : ℕ) : Program AhciMachine Unit := do
  let v ← fetch (fun s => s.is)
  assign (AhciMachine.writeIs (v ||| 1#32 <<< (portno % 32)))
  spin (fun s => decide (s.is ≠ 0)) fuel

def waitPxciClear (fuel : ℕ) : Program AhciMachine Unit := spin (fun s => decide (s.port.ci ≠ 0)) fuel

def transfer (cmdTblBase : Word) (fuel portno : ℕ) (params : CmdParams) : Program AhciMachine ℤ := do
  startCmd fuel
  buildCommand cmdTblBase params
  waitInterrupt fuel
  clearPxis fuel
  clearGhcIs fuel portno
  waitPxciClear fuel
  return 1

def ahciRead (cmdTblBase : Word) (fuel portno : ℕ) (startLba : BitVec 64) (count : BitVec 16) (buf : Word) :
    Program AhciMachine ℤ :=
  transfer cmdTblBase fuel portno (readParams startLba count buf)

def ahciWrite (cmdTblBase : Word) (fuel portno : ℕ) (startLba : BitVec 64) (count : BitVec 16) (buf : Word) :
    Program AhciMachine ℤ :=
  transfer cmdTblBase fuel portno (writeParams startLba count buf)

def implPortLoop (pi : BitVec 32) (i : ℕ) : ℕ → Option ℕ
  | 0 => none
  | n + 1 => if pi &&& 1 = 1 then some i else implPortLoop (pi >>> 1) (i + 1) n

def probeImplPort : Program AhciMachine ℕ := do
  let pi ← fetch (fun s => s.pi)
  single (fun s => (implPortLoop pi 0 32).map (fun k => (k, s)))

def copyPool (pool buf : Word) (offset : ℕ) : ℕ → Program AhciMachine Unit
  | 0 => pure ()
  | n + 1 => do
    copyPool pool buf offset n
    let c ← fetch (fun s => s.mem (Library.Arrays.offset pool (n + offset)))
    assign (fun s => s.setMem (Function.update s.mem (Library.Arrays.offset buf n) c))

def ahciReadByte (cmdTblBase pool : Word) (fuel : ℕ) (startSector : BitVec 64) (count : BitVec 16)
    (buf : Word) (byte offset : ℕ) : Program AhciMachine Unit := do
  let portno ← probeImplPort
  let _ ← ahciRead cmdTblBase fuel portno startSector count pool
  copyPool pool buf offset byte

end AhciCode

end MinOS
