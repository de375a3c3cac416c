import MinOS.Heap
import MinOS.Library.Fields

namespace MinOS

open Library.Integers Library.Words Library.Arrays Library.Fields

def cmdListSize : ℕ := 0x8000
def rcvdFisSize : ℕ := 0x2000
def prdtEntryMax : ℕ := 65536
def prdtEntrySize : ℕ := 4 * 4
def cmdTblSize : ℕ := 0x80 + prdtEntrySize * prdtEntryMax

/-- `sizeof(RCVD_FIS)`. A 64-bit field of `FIS_DMA_SETUP` is padded, and so is the whole. -/
def rcvdFisLength : ℕ := 264

namespace FisRegH2d

def fisType : Field := .bytes 0 1
def c : Field := ⟨1, 1, 7, 1, by decide⟩
def command : Field := .bytes 2 1
def lba0 : Field := .bytes 4 1
def lba1 : Field := .bytes 5 1
def lba2 : Field := .bytes 6 1
def device : Field := .bytes 7 1
def lba3 : Field := .bytes 8 1
def lba4 : Field := .bytes 9 1
def lba5 : Field := .bytes 10 1
def countl : Field := .bytes 12 1
def counth : Field := .bytes 13 1

end FisRegH2d

namespace HbaCmdHeader

def size : ℕ := 32

def cfl : Field := ⟨0, 1, 0, 5, by decide⟩
def w : Field := ⟨0, 1, 6, 1, by decide⟩
def prdtl : Field := .bytes 2 2
def ctba : Field := .bytes 8 4
def ctbau : Field := .bytes 12 4

end HbaCmdHeader

namespace HbaPrdtEntry

def dba : Field := .bytes 0 4
def dbau : Field := .bytes 4 4
def dbc : Field := ⟨12, 4, 0, 22, by decide⟩
def i : Field := ⟨12, 4, 31, 1, by decide⟩

end HbaPrdtEntry

def prdtEntry (table : Word) (i : ℕ) : Word := offset table (0x80 + prdtEntrySize * i)

structure CmdParams where
  fisType : BitVec 8
  cmdType : BitVec 8
  cfisLen : BitVec 8
  lba : BitVec 64
  count : BitVec 16
  dba : Word
  w : BitVec 8

structure HbaPort where
  clb : BitVec 32
  fb : BitVec 32
  cmd : BitVec 32
  sact : BitVec 32
  ci : BitVec 32

structure DriverState where
  ram : Traced
  serial : List String

def DriverState.putsSerial (s : DriverState) (text : String) : DriverState :=
  { s with serial := s.serial ++ [text] }

def isAligned (addr : Word) (align : ℤ) : Bool :=
  decide (addr % BitVec.ofInt 64 align = 0 ∧ addr ≠ 0)

def alignAs (addr : Word) (align : ℤ) : Word :=
  addr + (BitVec.ofInt 64 align - addr % BitVec.ofInt 64 align)

section Init

def forPorts (pi : BitVec 32) (f : ℕ → HbaPort → HbaPort) (ports : ℕ → HbaPort) : ℕ → ℕ → HbaPort
  | 0 => ports
  | n + 1 =>
    let ports := forPorts pi f ports n
    if pi >>> n ≠ 0 then Function.update ports n (f n (ports n)) else ports

def giveAddresses (cmdList rcvdFis : Word) (i : ℕ) (port : HbaPort) : HbaPort :=
  { port with
    clb := cmdList.setWidth 32 + BitVec.ofNat 32 (HbaCmdHeader.size * 32 * i)
    fb := rcvdFis.setWidth 32 + BitVec.ofNat 32 (rcvdFisLength * i)
    cmd := port.cmd ||| 0x10 }

def allocMemForPorts (h : Heap) (ports : ℕ → HbaPort) (piList : BitVec 32) :
    Option (Heap × (ℕ → HbaPort)) :=
  (kmalloc h (cmdListSize + 128)).bind (fun (cmdList, h) =>
    let cmdList := alignAs (BitVec.ofNat 64 cmdList) 128
    (kmallocAlignas h rcvdFisSize 0x1000).map (fun (rcvdFis, h) =>
      (h, forPorts piList (giveAddresses cmdList (BitVec.ofNat 64 rcvdFis)) ports 32)))

structure AhciMemory where
  heap : Heap
  cmdTblBase : Word
  ports : ℕ → HbaPort

/-- `ahci_init` without its handshakes with the device. -/
def ahciInit (h : Heap) (ports : ℕ → HbaPort) (pi : BitVec 32) : Option AhciMemory :=
  (kmalloc h (cmdTblSize + 128)).bind (fun (base, h) =>
    let cmdTblBase := alignAs (BitVec.ofNat 64 base) 128
    (allocMemForPorts h ports pi).map (fun (h, ports) => ⟨h, cmdTblBase, ports⟩))

end Init

def freeSlotLoop (slots : BitVec 32) (i : ℕ) : ℕ → Option ℕ
  | 0 => none
  | n + 1 => if slots &&& 1 = 0 then some i else freeSlotLoop (slots >>> 1) (i + 1) n

def findFreeCmdslot (port : HbaPort) (s : DriverState) : ℤ × DriverState :=
  match freeSlotLoop (port.ci ||| port.sact) 0 32 with
  | some i => (i, s)
  | none => (-1, s.putsSerial "Cannot find free command list entry\r\n")

section Table

/-- `((params->count - 1) >> 4) + 1`, computed with `int`: the shift is a division that rounds down. -/
def prdtLength (params : CmdParams) : ℤ := ((params.count.toNat : ℤ) - 1) / 2 ^ 4 + 1

def cfisFields (params : CmdParams) : List (Field × ℕ) :=
  [(FisRegH2d.fisType, 0x27),
    (FisRegH2d.c, 1),
    (FisRegH2d.command, params.cmdType.toNat),
    (FisRegH2d.device, 1 <<< 6),
    (FisRegH2d.lba0, ((params.lba >>> 0) &&& 0xff).toNat),
    (FisRegH2d.lba1, ((params.lba >>> 8) &&& 0xff).toNat),
    (FisRegH2d.lba2, ((params.lba >>> 16) &&& 0xff).toNat),
    (FisRegH2d.lba3, ((params.lba >>> 24) &&& 0xff).toNat),
    (FisRegH2d.lba4, ((params.lba >>> 32) &&& 0xff).toNat),
    (FisRegH2d.lba5, ((params.lba >>> 40) &&& 0xff).toNat),
    (FisRegH2d.countl, ((params.count >>> 0) &&& 0xff).toNat),
    (FisRegH2d.counth, ((params.count >>> 8) &&& 0xff).toNat)]

structure PrdtCursor where
  i : ℕ
  buf : Word
  count : BitVec 16

def PrdtCursor.next (c : PrdtCursor) : PrdtCursor :=
  ⟨c.i + 1, c.buf + 2 * (4 * 1024), c.count - 16⟩

def PrdtCursor.fields (c : PrdtCursor) : List (Field × ℕ) :=
  [(HbaPrdtEntry.dba, c.buf.toNat),
    (HbaPrdtEntry.dbau, 0),
    (HbaPrdtEntry.dbc, 8 * 1024 - 1),
    (HbaPrdtEntry.i, 1)]

/-- The last entry: its `dbau` stays as `memset` left it, and its length is `(count << 9) - 1`. -/
def PrdtCursor.lastFields (c : PrdtCursor) : List (Field × ℕ) :=
  [(HbaPrdtEntry.dba, c.buf.toNat),
    (HbaPrdtEntry.dbc, uint64 ((c.count.toNat : ℤ) * 2 ^ 9 - 1)),
    (HbaPrdtEntry.i, 1)]

def fillEntries (table : Word) (c : PrdtCursor) (t : Traced) : ℕ → PrdtCursor × Traced
  | 0 => (c, t)
  | n + 1 => fillEntries table c.next (t.putAll (prdtEntry table c.i) c.fields) n

def buildPrdt (params : CmdParams) (table : Word) (t : Traced) : Traced :=
  let x := fillEntries table ⟨0, params.dba, params.count⟩ t (prdtLength params - 1).toNat
  x.2.putAll (prdtEntry table x.1.i) x.1.lastFields

def buildCmdTable (params : CmdParams) (table : Word) (s : DriverState) :
    Except DriverState DriverState :=
  let t := s.ram.fill table (fun _ => 0) (uint64 (0x80 + 16 * prdtLength params))
  if params.fisType = 0x27 then
    let t := t.putAll table (cfisFields params)
    if isAligned params.dba 2 then .ok ⟨buildPrdt params table t, s.serial⟩
    else .error (DriverState.putsSerial ⟨t, s.serial⟩ "cmd_tbl_base is not aligned\n")
  else .ok (DriverState.putsSerial ⟨t, s.serial⟩ "fis type error\r\n")

end Table

def headerFields (cmdTblBase : Word) (params : CmdParams) : List (Field × ℕ) :=
  [(HbaCmdHeader.ctba, cmdTblBase.toNat),
    (HbaCmdHeader.ctbau, 0),
    (HbaCmdHeader.prdtl, uint64 (prdtLength params)),
    (HbaCmdHeader.cfl, params.cfisLen.toNat),
    (HbaCmdHeader.w, params.w.toNat)]

def buildCmdheader (cmdTblBase : Word) (port : HbaPort) (slot : ℤ) (params : CmdParams)
    (s : DriverState) : Except DriverState DriverState :=
  let cmdList := port.clb.setWidth 64 + BitVec.ofInt 64 (HbaCmdHeader.size * slot)
  let t := s.ram.fill cmdList (fun _ => 0) 0x400
  if isAligned cmdTblBase 128 then .ok ⟨t.putAll cmdList (headerFields cmdTblBase params), s.serial⟩
  else .error (DriverState.putsSerial ⟨t, s.serial⟩ "cmd_tbl_base is not aligned\n")

/-- As on x86, the distance of the shift is taken modulo 32. -/
def notifyCmdIsActive (port : HbaPort) (slot : ℤ) : HbaPort :=
  { port with ci := port.ci ||| 1#32 <<< (slot % 32).toNat }

def buildCommand (cmdTblBase : Word) (port : HbaPort) (params : CmdParams) (s : DriverState) :
    Except DriverState (HbaPort × DriverState) :=
  let (slot, s) := findFreeCmdslot port s
  (buildCmdTable params cmdTblBase s).bind (fun s =>
    (buildCmdheader cmdTblBase port slot params s).map (fun s => (notifyCmdIsActive port slot, s)))

def readParams (startLba : BitVec 64) (count : BitVec 16) (buf : Word) : CmdParams :=
  ⟨0x27, 0x25, 5, startLba, count, buf, 0⟩

def writeParams (startLba : BitVec 64) (count : BitVec 16) (buf : Word) : CmdParams :=
  ⟨0x27, 0x35, 5, startLba, count, buf, 1⟩

end MinOS
