import Mathlib.Data.List.ProdSigma
import Mathlib.Tactic.IntervalCases
import MinOS.NumberTexts

/-!
The PCI configuration space behind its two ports, and the search of `check_all_buses` for the AHCI
controller.
-/

namespace MinOS

open Library.Words

/-- The bytes of each function of each device of each bus. Where there is no function they are `0xff`. -/
abbrev PciSpace := ℕ → ℕ → ℕ → ℕ → BitVec 8

structure PciMachine where
  space : PciSpace
  address : BitVec 32
  abar : Word
  out : List Char

def pciDword (bytes : ℕ → BitVec 8) (offset : ℕ) : BitVec 32 :=
  bytes (offset + 3) ++ bytes (offset + 2) ++ bytes (offset + 1) ++ bytes offset

def pciData (space : PciSpace) (address : BitVec 32) : BitVec 32 :=
  if address.getLsbD 31 then
    pciDword (space (address.extractLsb' 16 8).toNat (address.extractLsb' 11 5).toNat
      (address.extractLsb' 8 3).toNat) (4 * (address.extractLsb' 2 6).toNat)
  else 0xffffffff

def pciAddress (bus device func offset : BitVec 8) : BitVec 32 :=
  (bus.setWidth 32 <<< 16) ||| (device.setWidth 32 <<< 11) ||| (func.setWidth 32 <<< 8) |||
    (offset.setWidth 32 &&& 0xfc) ||| 0x80000000

namespace PciMachine

def pciConfigReadByte (bus device func offset : BitVec 8) (s : PciMachine) : BitVec 16 × PciMachine :=
  let s := { s with address := pciAddress bus device func offset }
  ((((pciData s.space s.address >>> (offset.toNat % 4 * 8)) &&& 0xffff).setWidth 8).setWidth 16, s)

def pciConfigReadWord (bus device func offset : BitVec 8) (s : PciMachine) : BitVec 16 × PciMachine :=
  let s := { s with address := pciAddress bus device func offset }
  (((pciData s.space s.address >>> ((offset &&& 2).toNat * 8)) &&& 0xffff).setWidth 16, s)

def pciConfigReadDword (bus device func offset : BitVec 8) (s : PciMachine) : BitVec 32 × PciMachine :=
  let s := { s with address := pciAddress bus device func offset }
  (pciData s.space s.address, s)

end PciMachine

structure PciConfigSpace where
  vendor : BitVec 16
  device : BitVec 16
  command : BitVec 16
  status : BitVec 16
  revisionId : BitVec 8
  progIf : BitVec 8
  subclass : BitVec 8
  classCode : BitVec 8
  cacheLineSize : BitVec 8
  latencyTimer : BitVec 8
  headerType : BitVec 8
  bist : BitVec 8
  capabilitiesPointer : BitVec 8
  interruptLine : BitVec 8
  interruptPin : BitVec 8
deriving DecidableEq

namespace PciMachine

def pciCheckParameters (bus slot func : BitVec 8) (init : PciConfigSpace) (s : PciMachine) :
    PciConfigSpace × PciMachine :=
  let (vendor, s) := s.pciConfigReadWord bus slot func 0x00
  if vendor ≠ 0xffff then
    let (device, s) := s.pciConfigReadWord bus slot func 0x02
    let (command, s) := s.pciConfigReadWord bus slot func 0x04
    let (status, s) := s.pciConfigReadWord bus slot func 0x06
    let (revisionId, s) := s.pciConfigReadByte bus slot func 0x08
    let (progIf, s) := s.pciConfigReadByte bus slot func 0x09
    let (subclass, s) := s.pciConfigReadByte bus slot func 0x0a
    let (classCode, s) := s.pciConfigReadByte bus slot func 0x0b
    let (cacheLineSize, s) := s.pciConfigReadByte bus slot func 0x0c
    let (latencyTimer, s) := s.pciConfigReadByte bus slot func 0x0d
    let (headerType, s) := s.pciConfigReadByte bus slot func 0x0e
    let (bist, s) := s.pciConfigReadByte bus slot func 0x0f
    let (capabilitiesPointer, s) := s.pciConfigReadByte bus slot func 0x34
    let (interruptLine, s) := s.pciConfigReadByte bus slot func 0x3c
    let (interruptPin, s) := s.pciConfigReadByte bus slot func 0x3d
    (⟨vendor, device, command, status, revisionId.setWidth 8, progIf.setWidth 8, subclass.setWidth 8,
      classCode.setWidth 8, cacheLineSize.setWidth 8, latencyTimer.setWidth 8, headerType.setWidth 8,
      bist.setWidth 8, capabilitiesPointer.setWidth 8, interruptLine.setWidth 8, interruptPin.setWidth 8⟩, s)
  else ({ init with vendor := vendor }, s)

def putsSerial (text : String) (s : PciMachine) : PciMachine := { s with out := s.out ++ text.toList }

def putsnSerial (text : String) (n : Word) (s : PciMachine) : PciMachine :=
  ({ s with out := s.out ++ text.toList ++ putnSerial n } : PciMachine).putsSerial "\r\n"

def deviceNumbers (bus device func : ℕ) (config : PciConfigSpace) : List (String × Word) :=
  [("bus: ", .ofNat 64 bus), ("device: ", .ofNat 64 device), ("function: ", .ofNat 64 func),
    ("vendor: ", config.vendor.setWidth 64), ("device: ", config.device.setWidth 64),
    ("command: ", config.command.setWidth 64), ("status: ", config.status.setWidth 64),
    ("revision_id: ", config.revisionId.setWidth 64), ("prog_if: ", config.progIf.setWidth 64),
    ("subclass: ", config.subclass.setWidth 64), ("class_code: ", config.classCode.setWidth 64),
    ("cache_line_size: ", config.cacheLineSize.setWidth 64),
    ("latency_timer: ", config.latencyTimer.setWidth 64), ("header_type: ", config.headerType.setWidth 64),
    ("bist: ", config.bist.setWidth 64), ("capabilities_pointer: ", config.capabilitiesPointer.setWidth 64),
    ("interrupt_line: ", config.interruptLine.setWidth 64),
    ("interrupt_pin: ", config.interruptPin.setWidth 64)]

def printDeviceInfo (bus device func : ℕ) (config : PciConfigSpace) (s : PciMachine) : PciMachine :=
  ((deviceNumbers bus device func config).foldl (fun s line => s.putsnSerial line.1 line.2) s).putsSerial "\n"

def getAhciBaseAddress (bus device func : ℕ) (s : PciMachine) : Word × PciMachine :=
  let (bar, s) := s.pciConfigReadDword (.ofNat 8 bus) (.ofNat 8 device) (.ofNat 8 func) 0x24
  (bar.setWidth 64, s)

def checkFunction (init : ℕ × ℕ × ℕ → PciConfigSpace) (s : PciMachine) (p : ℕ × ℕ × ℕ) : PciMachine :=
  let (bus, device, func) := p
  let (config, s) := s.pciCheckParameters (.ofNat 8 bus) (.ofNat 8 device) (.ofNat 8 func) (init p)
  if config.vendor ≠ 0xffff then
    let s := s.printDeviceInfo bus device func config
    if config.classCode = 0x01 ∧ config.subclass = 0x06 then
      let (abar, s) := s.getAhciBaseAddress bus device func
      let s := { s with abar := abar }
      ((s.putsSerial "AHCI device found!!!\r\n").putsnSerial "ABAR: " s.abar).putsSerial "\r\n"
    else s
  else s

def checkAllBuses (init : ℕ × ℕ × ℕ → PciConfigSpace) (s : PciMachine) : PciMachine :=
  (List.range 256).foldl (fun s bus => (List.range 32).foldl (fun s device =>
    (List.range 8).foldl (fun s func => s.checkFunction init (bus, device, func)) s) s) s

end PciMachine

section Reads

variable {f : ℕ → BitVec 8} {o k i : ℕ}

theorem pciAddress_fields {bus offset : BitVec 8} (device : BitVec 5) (func : BitVec 3) :
    let address := pciAddress bus (device.setWidth 8) (func.setWidth 8) offset
    address.getLsbD 31 = true ∧ address.extractLsb' 16 8 = bus ∧ address.extractLsb' 11 5 = device ∧
      address.extractLsb' 8 3 = func ∧ address.extractLsb' 2 6 = offset.extractLsb' 2 6 := by
  intro address
  refine ⟨by simp [address, pciAddress], ?_, ?_, ?_, ?_⟩
  all_goals
    apply BitVec.eq_of_getLsbD_eq
    intro i hi
    interval_cases i <;> simp [address, pciAddress]

theorem getLsbD_pciDword (hi : i < 32) : (pciDword f o).getLsbD i = (f (o + i / 8)).getLsbD (i % 8) := by
  change (f (o + 3) ++ f (o + 2) ++ f (o + 1) ++ f o).getLsbD i = _
  simp only [BitVec.getLsbD_append]
  interval_cases i <;> simp

theorem getElem_pciDword (hi : i < 32) : (pciDword f o)[i] = (f (o + i / 8)).getLsbD (i % 8) := by
  rw [← BitVec.getLsbD_eq_getElem, getLsbD_pciDword hi]

theorem pciDword_byte (hk : k < 4) :
    ((pciDword f o >>> (k * 8)) &&& 0xffff).setWidth 8 = f (o + k) := by
  apply BitVec.eq_of_getLsbD_eq
  intro i hi
  interval_cases k <;> interval_cases i <;> simp [getElem_pciDword]

theorem pciDword_word (hk : k = 0 ∨ k = 2) :
    ((pciDword f o >>> (k * 8)) &&& 0xffff).setWidth 16 = f (o + k + 1) ++ f (o + k) := by
  apply BitVec.eq_of_getLsbD_eq
  intro i hi
  rw [BitVec.getLsbD_append]
  rcases hk with rfl | rfl <;> interval_cases i <;> simp [getElem_pciDword]

end Reads

namespace PciMachine

variable {s : PciMachine} {bus device func : ℕ} {offset : BitVec 8}

theorem pciData_address (hbus : bus < 256) (hdevice : device < 32) (hfunc : func < 8) (space : PciSpace) :
    pciData space (pciAddress (.ofNat 8 bus) (.ofNat 8 device) (.ofNat 8 func) offset) =
      pciDword (space bus device func) (4 * (offset.toNat / 4)) := by
  have hdev : BitVec.ofNat 8 device = (BitVec.ofNat 5 device).setWidth 8 := by bv_omega
  have hfun : BitVec.ofNat 8 func = (BitVec.ofNat 3 func).setWidth 8 := by bv_omega
  obtain ⟨henable, hbusField, hdeviceField, hfuncField, hoffset⟩ :=
    @pciAddress_fields (.ofNat 8 bus) offset (.ofNat 5 device) (.ofNat 3 func)
  rw [hdev, hfun, pciData, if_pos henable, hbusField, hdeviceField, hfuncField, hoffset]
  have hquot : (offset.extractLsb' 2 6).toNat = offset.toNat / 4 := by
    rw [BitVec.extractLsb'_toNat, Nat.shiftRight_eq_div_pow]
    have := offset.isLt
    omega
  rw [hquot, BitVec.toNat_ofNat, BitVec.toNat_ofNat, BitVec.toNat_ofNat, Nat.mod_eq_of_lt hbus,
    Nat.mod_eq_of_lt hdevice, Nat.mod_eq_of_lt hfunc]

theorem readByte (hbus : bus < 256) (hdevice : device < 32) (hfunc : func < 8) (offset : BitVec 8)
    (s : PciMachine) : s.pciConfigReadByte (.ofNat 8 bus) (.ofNat 8 device) (.ofNat 8 func) offset =
      ((s.space bus device func offset.toNat).setWidth 16,
        { s with address := pciAddress (.ofNat 8 bus) (.ofNat 8 device) (.ofNat 8 func) offset }) := by
  have hsplit : 4 * (offset.toNat / 4) + offset.toNat % 4 = offset.toNat := Nat.div_add_mod _ 4
  rw [pciConfigReadByte, pciData_address hbus hdevice hfunc, pciDword_byte (Nat.mod_lt _ (by decide)), hsplit]

theorem readWord (hbus : bus < 256) (hdevice : device < 32) (hfunc : func < 8)
    (hoffset : offset.toNat % 2 = 0) (s : PciMachine) :
    s.pciConfigReadWord (.ofNat 8 bus) (.ofNat 8 device) (.ofNat 8 func) offset =
      (s.space bus device func (offset.toNat + 1) ++ s.space bus device func offset.toNat,
        { s with address := pciAddress (.ofNat 8 bus) (.ofNat 8 device) (.ofNat 8 func) offset }) := by
  have hall : ∀ v : BitVec 8, v.toNat % 2 = 0 → (v &&& 2).toNat = v.toNat % 4 := by decide
  have hsplit : 4 * (offset.toNat / 4) + offset.toNat % 4 = offset.toNat := Nat.div_add_mod _ 4
  rw [pciConfigReadWord, pciData_address hbus hdevice hfunc, hall offset hoffset, pciDword_word (by omega),
    hsplit]

theorem readDword (hbus : bus < 256) (hdevice : device < 32) (hfunc : func < 8)
    (hoffset : offset.toNat % 4 = 0) (s : PciMachine) :
    s.pciConfigReadDword (.ofNat 8 bus) (.ofNat 8 device) (.ofNat 8 func) offset =
      (pciDword (s.space bus device func) offset.toNat,
        { s with address := pciAddress (.ofNat 8 bus) (.ofNat 8 device) (.ofNat 8 func) offset }) := by
  have hsplit : 4 * (offset.toNat / 4) = offset.toNat := by omega
  rw [pciConfigReadDword, pciData_address hbus hdevice hfunc, hsplit]

end PciMachine

def configOf (bytes : ℕ → BitVec 8) : PciConfigSpace where
  vendor := bytes 0x01 ++ bytes 0x00
  device := bytes 0x03 ++ bytes 0x02
  command := bytes 0x05 ++ bytes 0x04
  status := bytes 0x07 ++ bytes 0x06
  revisionId := bytes 0x08
  progIf := bytes 0x09
  subclass := bytes 0x0a
  classCode := bytes 0x0b
  cacheLineSize := bytes 0x0c
  latencyTimer := bytes 0x0d
  headerType := bytes 0x0e
  bist := bytes 0x0f
  capabilitiesPointer := bytes 0x34
  interruptLine := bytes 0x3c
  interruptPin := bytes 0x3d

namespace PciMachine

theorem pciCheckParameters_eq (hbus : bus < 256) (hdevice : device < 32) (hfunc : func < 8)
    (init : PciConfigSpace) (s : PciMachine) : ∃ config a,
      s.pciCheckParameters (.ofNat 8 bus) (.ofNat 8 device) (.ofNat 8 func) init =
        (config, { s with address := a }) ∧ config.vendor = (configOf (s.space bus device func)).vendor ∧
      (config.vendor ≠ 0xffff → config = configOf (s.space bus device func)) := by
  have hbyte : ∀ v : BitVec 8, (v.setWidth 16).setWidth 8 = v := fun v => by
    rw [BitVec.setWidth_setWidth_of_le _ (by decide), BitVec.setWidth_eq]
  by_cases hnone : (configOf (s.space bus device func)).vendor = 0xffff
  · refine ⟨{ init with vendor := (configOf (s.space bus device func)).vendor },
      pciAddress (.ofNat 8 bus) (.ofNat 8 device) (.ofNat 8 func) 0x00, ?_, rfl, fun h => (h hnone).elim⟩
    simp (disch := decide) only [pciCheckParameters, readWord hbus hdevice hfunc]
    exact if_neg (not_not.mpr hnone)
  · refine ⟨_, pciAddress (.ofNat 8 bus) (.ofNat 8 device) (.ofNat 8 func) 0x3d, ?_, rfl, fun _ => rfl⟩
    simp (disch := decide) only [pciCheckParameters, readWord hbus hdevice hfunc, readByte hbus hdevice hfunc,
      hbyte]
    exact if_pos hnone

end PciMachine

def pciFunctions : List (ℕ × ℕ × ℕ) := List.range 256 ×ˢ (List.range 32 ×ˢ List.range 8)

theorem mem_pciFunctions {bus device func : ℕ} :
    (bus, device, func) ∈ pciFunctions ↔ bus < 256 ∧ device < 32 ∧ func < 8 := by
  rw [pciFunctions, List.mem_product, List.mem_product, List.mem_range, List.mem_range, List.mem_range]

namespace PciSpace

variable (space : PciSpace)

def config (p : ℕ × ℕ × ℕ) : PciConfigSpace := configOf (space p.1 p.2.1 p.2.2)

def Present (p : ℕ × ℕ × ℕ) : Prop := (space.config p).vendor ≠ 0xffff

def IsAhci (p : ℕ × ℕ × ℕ) : Prop :=
  space.Present p ∧ (space.config p).classCode = 0x01 ∧ (space.config p).subclass = 0x06

instance (p : ℕ × ℕ × ℕ) : Decidable (space.Present p) := inferInstanceAs (Decidable (_ ≠ _))

instance (p : ℕ × ℕ × ℕ) : Decidable (space.IsAhci p) := inferInstanceAs (Decidable (_ ∧ _))

def bar5 (p : ℕ × ℕ × ℕ) : Word := (pciDword (space p.1 p.2.1 p.2.2) 0x24).setWidth 64

end PciSpace

def deviceText (p : ℕ × ℕ × ℕ) (config : PciConfigSpace) : List Char :=
  (PciMachine.deviceNumbers p.1 p.2.1 p.2.2 config).flatMap (fun line =>
    line.1.toList ++ putnSerial line.2 ++ "\r\n".toList) ++ "\n".toList

def ahciText (abar : Word) : List Char :=
  "AHCI device found!!!\r\n".toList ++ ("ABAR: ".toList ++ putnSerial abar ++ "\r\n".toList) ++ "\r\n".toList

def functionText (space : PciSpace) (p : ℕ × ℕ × ℕ) : List Char :=
  if space.Present p then
    deviceText p (space.config p) ++ if space.IsAhci p then ahciText (space.bar5 p) else []
  else []

namespace PciMachine

theorem printDeviceInfo_eq (bus device func : ℕ) (config : PciConfigSpace) (s : PciMachine) :
    s.printDeviceInfo bus device func config =
      { s with out := s.out ++ deviceText (bus, device, func) config } := by
  have hlines : ∀ (lines : List (String × Word)) (s : PciMachine),
      lines.foldl (fun s line => s.putsnSerial line.1 line.2) s = { s with
        out := s.out ++ lines.flatMap (fun line => line.1.toList ++ putnSerial line.2 ++ "\r\n".toList) } := by
    intro lines
    induction lines with
    | nil => intro s; simp
    | cons line lines ih =>
      intro s
      rw [List.foldl_cons, ih]
      simp [putsnSerial, putsSerial]
  rw [printDeviceInfo, hlines, deviceText, putsSerial]
  simp

theorem prints_eq (text label last : String) (n : Word) (s : PciMachine) :
    ((s.putsSerial text).putsnSerial label n).putsSerial last = { s with
      out := s.out ++ (text.toList ++ (label.toList ++ putnSerial n ++ "\r\n".toList) ++ last.toList) } := by
  simp only [putsSerial, putsnSerial, List.append_assoc]

theorem ahciPrints_eq (abar : Word) (s : PciMachine) :
    ((s.putsSerial "AHCI device found!!!\r\n").putsnSerial "ABAR: " abar).putsSerial "\r\n" =
      { s with out := s.out ++ ahciText abar } :=
  prints_eq _ _ _ abar s

theorem getAhciBaseAddress_eq (hbus : bus < 256) (hdevice : device < 32) (hfunc : func < 8) (s : PciMachine) :
    s.getAhciBaseAddress bus device func = (s.space.bar5 (bus, device, func),
      { s with address := pciAddress (.ofNat 8 bus) (.ofNat 8 device) (.ofNat 8 func) 0x24 }) := by
  have haligned : (0x24 : BitVec 8).toNat % 4 = 0 := by decide
  rw [getAhciBaseAddress, readDword hbus hdevice hfunc haligned]
  rfl

theorem checkFunction_eq {init : ℕ × ℕ × ℕ → PciConfigSpace} {p : ℕ × ℕ × ℕ} (hp : p ∈ pciFunctions)
    (s : PciMachine) : ∃ a, s.checkFunction init p = { s with
      address := a
      abar := if s.space.IsAhci p then s.space.bar5 p else s.abar
      out := s.out ++ functionText s.space p } := by
  obtain ⟨bus, device, func⟩ := p
  obtain ⟨hbus, hdevice, hfunc⟩ := mem_pciFunctions.mp hp
  obtain ⟨config, a, hcheck, hvendor, hconfig⟩ :=
    pciCheckParameters_eq hbus hdevice hfunc (init (bus, device, func)) s
  rw [checkFunction, hcheck]
  dsimp only
  by_cases hpresent : s.space.Present (bus, device, func)
  · have hfound : config.vendor ≠ 0xffff := hvendor ▸ hpresent
    obtain rfl : config = s.space.config (bus, device, func) := hconfig hfound
    rw [if_pos hfound, functionText, if_pos hpresent]
    by_cases hahci : s.space.IsAhci (bus, device, func)
    · refine ⟨pciAddress (.ofNat 8 bus) (.ofNat 8 device) (.ofNat 8 func) 0x24, ?_⟩
      rw [if_pos hahci.2, if_pos hahci, if_pos hahci, printDeviceInfo_eq,
        getAhciBaseAddress_eq hbus hdevice hfunc]
      exact (ahciPrints_eq _ _).trans (congrArg (PciMachine.mk _ _ _) (List.append_assoc _ _ _))
    · have hother : ¬ ((s.space.config (bus, device, func)).classCode = 0x01 ∧
          (s.space.config (bus, device, func)).subclass = 0x06) := fun h => hahci ⟨hpresent, h⟩
      refine ⟨a, ?_⟩
      rw [if_neg hother, if_neg hahci, if_neg hahci, printDeviceInfo_eq, List.append_nil]
  · have hmissing : ¬ config.vendor ≠ 0xffff := hvendor ▸ hpresent
    refine ⟨a, ?_⟩
    rw [if_neg hmissing, if_neg (fun h => hpresent h.1), functionText, if_neg hpresent, List.append_nil]

/-- `check_all_buses` takes the base address from the last AHCI controller, and lists every function
that there is. -/
theorem checkAllBuses_eq (init : ℕ × ℕ × ℕ → PciConfigSpace) (s : PciMachine) :
    ∃ a, s.checkAllBuses init = { s with
      address := a
      abar := ((pciFunctions.filter (fun p => s.space.IsAhci p)).getLast?.map s.space.bar5).getD s.abar
      out := s.out ++ pciFunctions.flatMap (functionText s.space) } := by
  have hloops : s.checkAllBuses init = pciFunctions.foldl (fun s p => s.checkFunction init p) s := by
    change _ = ((List.range 256).flatMap (fun bus => ((List.range 32).flatMap (fun device =>
      (List.range 8).map (fun func => (device, func)))).map (fun p => (bus, p)))).foldl _ s
    rw [List.foldl_flatMap, checkAllBuses]
    simp only [List.foldl_map, List.foldl_flatMap]
  rw [hloops]
  have hrun : ∀ (l : List (ℕ × ℕ × ℕ)) (s : PciMachine), (∀ p ∈ l, p ∈ pciFunctions) →
      ∃ a, l.foldl (fun s p => s.checkFunction init p) s = { s with
        address := a
        abar := ((l.filter (fun p => s.space.IsAhci p)).getLast?.map s.space.bar5).getD s.abar
        out := s.out ++ l.flatMap (functionText s.space) } := by
    intro l
    induction l with
    | nil =>
      intro s _
      exact ⟨s.address, by simp⟩
    | cons p l ih =>
      intro s hl
      obtain ⟨hp, hrest⟩ := List.forall_mem_cons.mp hl
      obtain ⟨a, hstep⟩ := @checkFunction_eq init p hp s
      obtain ⟨a', hloop⟩ := ih (s.checkFunction init p) hrest
      refine ⟨a', ?_⟩
      rw [List.foldl_cons, hloop, hstep]
      have hlast : (((p :: l).filter (fun p => s.space.IsAhci p)).getLast?.map s.space.bar5).getD s.abar =
          ((l.filter (fun p => s.space.IsAhci p)).getLast?.map s.space.bar5).getD
            (if s.space.IsAhci p then s.space.bar5 p else s.abar) := by
        by_cases hahci : s.space.IsAhci p
        · rw [List.filter_cons_of_pos (by simpa using hahci), List.getLast?_cons, if_pos hahci]
          cases (l.filter (fun p => s.space.IsAhci p)).getLast? <;> rfl
        · rw [List.filter_cons_of_neg (by simpa using hahci), if_neg hahci]
      simp only [List.flatMap_cons, List.append_assoc, hlast]
  exact hrun _ s (fun _ => id)

end PciMachine

end MinOS
