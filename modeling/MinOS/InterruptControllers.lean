import Mathlib.Data.BitVec
import MinOS.InterruptTables

namespace MinOS

inductive PicPhase where
  | icw2
  | icw3
  | icw4
  | ready
deriving DecidableEq

structure Pic where
  irr : BitVec 8
  isr : BitVec 8
  imr : BitVec 8
  icw1 : BitVec 8
  icw2 : BitVec 8
  icw3 : BitVec 8
  icw4 : BitVec 8
  phase : PicPhase
deriving DecidableEq

namespace Pic

def first (v : BitVec 8) : Option ℕ := (List.range 8).find? (fun i => v.getLsbD i)

def clear (v : BitVec 8) (i : ℕ) : BitVec 8 := v &&& ~~~(1#8 <<< i)

def writeEven (val : BitVec 8) (p : Pic) : Pic :=
  if val.getLsbD 4 then { p with irr := 0, imr := 0, icw1 := val, icw4 := 0, phase := .icw2 }
  else if val &&& 0xf8 = 0x20 then
    match first p.isr with
    | some i => { p with isr := clear p.isr i }
    | none => p
  else if val &&& 0xf8 = 0x60 then { p with isr := clear p.isr (val.toNat % 8) }
  else p

def writeOdd (val : BitVec 8) (p : Pic) : Pic :=
  let last := if p.icw1.getLsbD 0 then PicPhase.icw4 else .ready
  match p.phase with
  | .icw2 => { p with icw2 := val, phase := if p.icw1.getLsbD 1 then last else .icw3 }
  | .icw3 => { p with icw3 := val, phase := last }
  | .icw4 => { p with icw4 := val, phase := .ready }
  | .ready => { p with imr := val }

def select (p : Pic) : Option ℕ :=
  match first (p.irr &&& ~~~p.imr), first p.isr with
  | some i, some j => if p.phase = .ready ∧ i < j then some i else none
  | some i, none => if p.phase = .ready then some i else none
  | none, _ => none

def accept (i : ℕ) (p : Pic) : Pic :=
  { p with irr := clear p.irr i, isr := if p.icw4.getLsbD 1 then p.isr else p.isr ||| 1#8 <<< i }

def vector (p : Pic) (i : ℕ) : ℕ := p.icw2.toNat / 8 * 8 + i

def raise (i : ℕ) (p : Pic) : Pic := { p with irr := p.irr ||| 1#8 <<< i }

def setup (p : Pic) : Pic := { p with irr := 0 }

end Pic

structure Pics where
  master : Pic
  slave : Pic
deriving DecidableEq

namespace Pics

def lines (p : Pics) : Pic :=
  { p.master with irr := if p.slave.select.isSome then p.master.irr ||| 4 else p.master.irr &&& ~~~4 }

def raise (irq : ℕ) (p : Pics) : Pics :=
  if irq < 8 then { p with master := p.master.raise irq } else { p with slave := p.slave.raise (irq - 8) }

def out8 (port : BitVec 16) (val : BitVec 8) (p : Pics) : Pics :=
  if port = 0x20 then { p with master := p.master.writeEven val }
  else if port = 0x21 then { p with master := p.master.writeOdd val }
  else if port = 0xa0 then { p with slave := p.slave.writeEven val }
  else if port = 0xa1 then { p with slave := p.slave.writeOdd val }
  else p

/-- The vector that the processor reads. A level of the master with a slave takes the vector from the
slave with that identity. -/
def acknowledge (p : Pics) : Option (ℕ × Pics) :=
  match p.lines.select with
  | none => none
  | some i =>
    if p.master.icw3.getLsbD i then
      match p.slave.select with
      | some j =>
        if p.slave.icw3.toNat % 8 = i then
          some (p.slave.vector j, ⟨p.lines.accept i, p.slave.accept j⟩)
        else none
      | none => none
    else some (p.master.vector i, ⟨p.lines.accept i, p.slave⟩)

end Pics

/-- What `init_pic` writes between its `io_cli` and its `io_sti`. -/
def initPicWrites : List (BitVec 16 × BitVec 8) :=
  [(0x20, 0x11), (0x21, 32), (0x21, 4), (0x21, 0x01), (0x21, 0xff), (0xa0, 0x11), (0xa1, 40), (0xa1, 2),
    (0xa1, 0x01), (0xa1, 0xff), (0x21, 0xe6), (0xa1, 0xff)]

def writePics (p : Pics) (writes : List (BitVec 16 × BitVec 8)) : Pics :=
  writes.foldl (fun p w => p.out8 w.1 w.2) p

structure Configured (p : Pics) : Prop where
  masterReady : p.master.phase = .ready
  masterMask : p.master.imr = 0xe6
  masterVector : p.master.icw2 = 32
  masterSlaves : p.master.icw3 = 4
  masterMode : p.master.icw4 = 1
  slaveMask : p.slave.imr = 0xff

namespace Pic

variable {p q : Pic} {i j : ℕ} {val v : BitVec 8}

theorem exists_irr (h : p.setup = q.setup) : ∃ irr, p = { q with irr := irr } := by
  obtain ⟨irr, isr, imr, icw1, icw2, icw3, icw4, phase⟩ := p
  simp only [setup, mk.injEq, true_and] at h
  obtain ⟨rfl, rfl, rfl, rfl, rfl, rfl, rfl⟩ := h
  exact ⟨irr, rfl⟩

theorem setup_writeEven (h : p.setup = q.setup) : (p.writeEven val).setup = (q.writeEven val).setup := by
  obtain ⟨irr, rfl⟩ := exists_irr h
  unfold writeEven
  split_ifs
  · rfl
  · cases hfirst : first q.isr <;> rfl
  · rfl
  · rfl

theorem setup_writeOdd (h : p.setup = q.setup) : (p.writeOdd val).setup = (q.writeOdd val).setup := by
  obtain ⟨irr, rfl⟩ := exists_irr h
  unfold writeOdd
  cases hphase : q.phase <;> rfl

theorem isr_writeOdd : (p.writeOdd val).isr = p.isr := by
  unfold writeOdd
  cases hphase : p.phase <;> rfl

theorem isr_writeEven (h : p.isr = 0) : (p.writeEven val).isr = 0 := by
  have hfirst : first p.isr = none := by
    rw [h]
    decide
  unfold writeEven
  split_ifs
  · exact h
  · rw [hfirst]
    exact h
  · change clear p.isr _ = 0
    rw [h, clear]
    exact BitVec.zero_and
  · exact h

theorem first_some (h : first v = some i) : i < 8 ∧ v.getLsbD i = true :=
  ⟨List.mem_range.mp (List.mem_of_find?_eq_some h), List.find?_some (p := fun i => v.getLsbD i) h⟩

theorem first_le (hj : v.getLsbD j = true) : ∃ i, first v = some i ∧ i ≤ j := by
  have hlt : j < 8 := BitVec.lt_of_getLsbD hj
  cases hfirst : first v with
  | none =>
    have hnone := List.find?_eq_none.mp hfirst j (List.mem_range.mpr hlt)
    exact absurd hj hnone
  | some i =>
    refine ⟨i, rfl, ?_⟩
    obtain ⟨-, k, hk, hki, hbefore⟩ := List.find?_eq_some_iff_getElem.mp hfirst
    rw [List.getElem_range] at hki
    subst hki
    by_contra hlt'
    have hno := hbefore j (by omega)
    rw [List.getElem_range] at hno
    simp [hj] at hno

theorem eoi_single (hi : i < 8) (h : p.isr = 1#8 <<< i) : (p.writeEven 0x20).isr = 0 := by
  have hall : ∀ i : Fin 8, first (1#8 <<< i.val) = some i.val ∧ clear (1#8 <<< i.val) i.val = 0 := by
    decide
  obtain ⟨hfirst, hclear⟩ := hall ⟨i, hi⟩
  have hword : p.writeEven 0x20 = { p with isr := 0 } := by
    rw [writeEven, if_neg (by decide), if_pos (by decide), h, hfirst]
    exact congrArg (fun isr => { p with isr := isr }) hclear
  rw [hword]

end Pic

namespace Pics

variable {p q : Pics} {irq i v : ℕ} {port : BitVec 16} {val : BitVec 8} {writes : List (BitVec 16 × BitVec 8)}

theorem writePics_initPic (p : Pics) : writePics p initPicWrites =
    ⟨⟨0, p.master.isr, 0xe6, 0x11, 32, 4, 1, .ready⟩, ⟨0, p.slave.isr, 0xff, 0x11, 40, 2, 1, .ready⟩⟩ := by
  simp [writePics, initPicWrites, out8, Pic.writeEven, Pic.writeOdd]

theorem configured_initPic (p : Pics) : Configured (writePics p initPicWrites) := by
  rw [writePics_initPic]
  exact ⟨rfl, rfl, rfl, rfl, rfl, rfl⟩

def Alike (p q : Pics) : Prop := p.master.setup = q.master.setup ∧ p.slave.setup = q.slave.setup

theorem alike_raise (irq : ℕ) (p : Pics) : Alike (p.raise irq) p := by
  unfold raise
  split <;> exact ⟨rfl, rfl⟩

theorem Alike.out8 (h : Alike p q) (port : BitVec 16) (val : BitVec 8) :
    Alike (p.out8 port val) (q.out8 port val) := by
  unfold Pics.out8
  split_ifs
  · exact ⟨Pic.setup_writeEven h.1, h.2⟩
  · exact ⟨Pic.setup_writeOdd h.1, h.2⟩
  · exact ⟨h.1, Pic.setup_writeEven h.2⟩
  · exact ⟨h.1, Pic.setup_writeOdd h.2⟩
  · exact h

theorem Alike.writePics (h : Alike p q) : Alike (writePics p writes) (MinOS.writePics q writes) := by
  induction writes generalizing p q with
  | nil => exact h
  | cons w writes ih => exact ih (h.out8 w.1 w.2)

theorem Alike.configured (h : Alike p q) (hq : Configured q) : Configured p where
  masterReady := (congrArg Pic.phase h.1).trans hq.masterReady
  masterMask := (congrArg Pic.imr h.1).trans hq.masterMask
  masterVector := (congrArg Pic.icw2 h.1).trans hq.masterVector
  masterSlaves := (congrArg Pic.icw3 h.1).trans hq.masterSlaves
  masterMode := (congrArg Pic.icw4 h.1).trans hq.masterMode
  slaveMask := (congrArg Pic.imr h.2).trans hq.slaveMask

theorem isr_raise (irq : ℕ) (p : Pics) :
    (p.raise irq).master.isr = p.master.isr ∧ (p.raise irq).slave.isr = p.slave.isr := by
  unfold raise
  split <;> exact ⟨rfl, rfl⟩

theorem isr_out8 (hmaster : p.master.isr = 0) (hslave : p.slave.isr = 0) (port : BitVec 16) (val : BitVec 8) :
    (p.out8 port val).master.isr = 0 ∧ (p.out8 port val).slave.isr = 0 := by
  unfold out8
  split_ifs
  · exact ⟨Pic.isr_writeEven hmaster, hslave⟩
  · exact ⟨Pic.isr_writeOdd.trans hmaster, hslave⟩
  · exact ⟨hmaster, Pic.isr_writeEven hslave⟩
  · exact ⟨hmaster, Pic.isr_writeOdd.trans hslave⟩
  · exact ⟨hmaster, hslave⟩

theorem eoi_master (hi : i < 8) (h : p.master.isr = 1#8 <<< i) : (p.out8 0x20 0x20).master.isr = 0 :=
  Pic.eoi_single hi h

theorem eoi_alike (h : p.slave.isr = 0) : (p.out8 0xa0 0x20) = p := by
  have hfirst : Pic.first p.slave.isr = none := by
    rw [h]
    decide
  have hword : p.slave.writeEven 0x20 = p.slave := by
    rw [Pic.writeEven, if_neg (by decide), if_pos (by decide), hfirst]
  change { p with slave := p.slave.writeEven 0x20 } = p
  rw [hword]

end Pics

namespace Configured

variable {p : Pics} {i irq : ℕ}

theorem out8_eoi (h : Configured p) : Configured (p.out8 0x20 0x20) := by
  have hword : (p.master.writeEven 0x20).setup =
      { p.master with irr := 0, isr := (p.master.writeEven 0x20).isr } := by
    rw [Pic.writeEven, if_neg (by decide), if_pos (by decide)]
    cases hfirst : Pic.first p.master.isr <;> rfl
  exact ⟨(congrArg Pic.phase hword).trans h.masterReady, (congrArg Pic.imr hword).trans h.masterMask,
    (congrArg Pic.icw2 hword).trans h.masterVector, (congrArg Pic.icw3 hword).trans h.masterSlaves,
    (congrArg Pic.icw4 hword).trans h.masterMode, h.slaveMask⟩

theorem slave_select (h : Configured p) : p.slave.select = none := by
  have hnone : Pic.first (p.slave.irr &&& ~~~p.slave.imr) = none := by
    have hzero : p.slave.irr &&& ~~~p.slave.imr = 0 := by
      rw [h.slaveMask]
      exact BitVec.and_zero
    rw [hzero]
    decide
  rw [Pic.select, hnone]

theorem select (h : Configured p) (hisr : p.master.isr = 0) :
    p.lines.select = Pic.first (p.master.irr &&& 0x19) := by
  have hlines : p.lines = { p.master with irr := p.master.irr &&& ~~~4 } := by
    rw [Pics.lines, h.slave_select]
    rfl
  have hmask : p.master.irr &&& ~~~4 &&& ~~~p.master.imr = p.master.irr &&& 0x19 := by
    rw [h.masterMask, BitVec.and_assoc]
    rfl
  have hnone : Pic.first p.master.isr = none := by
    rw [hisr]
    decide
  rw [hlines, Pic.select]
  dsimp only
  rw [hmask, hnone, h.masterReady]
  cases Pic.first (p.master.irr &&& 0x19) <;> rfl

theorem acknowledge_eq (h : Configured p) (hisr : p.master.isr = 0)
    (hfirst : Pic.first (p.master.irr &&& 0x19) = some i) : (i = 0 ∨ i = 3 ∨ i = 4) ∧
      p.acknowledge = some (32 + i, ⟨p.lines.accept i, p.slave⟩) := by
  obtain ⟨hlt, hbit⟩ := Pic.first_some hfirst
  have hlevel : ∀ k : Fin 8, (0x19 : BitVec 8).getLsbD k = true →
      (k.val = 0 ∨ k.val = 3 ∨ k.val = 4) ∧ (4 : BitVec 8).getLsbD k = false := by
    decide
  rw [BitVec.getLsbD_and, Bool.and_eq_true] at hbit
  obtain ⟨hi, hcascade⟩ := hlevel ⟨i, hlt⟩ hbit.2
  have hvector : p.master.vector i = 32 + i := by
    rw [Pic.vector, h.masterVector]
    rfl
  refine ⟨hi, ?_⟩
  rw [Pics.acknowledge, h.select hisr, hfirst, h.masterSlaves]
  dsimp only at hcascade ⊢
  rw [hcascade, if_neg Bool.false_ne_true, hvector]

theorem acknowledge (h : Configured p) (hisr : p.master.isr = 0) {x : ℕ × Pics}
    (hx : p.acknowledge = some x) : ∃ i, (i = 0 ∨ i = 3 ∨ i = 4) ∧ x.1 = 32 + i ∧ Configured x.2 ∧
      x.2.master.isr = 1#8 <<< i ∧ x.2.slave = p.slave := by
  cases hfirst : Pic.first (p.master.irr &&& 0x19) with
  | none =>
    rw [Pics.acknowledge, h.select hisr, hfirst] at hx
    cases hx
  | some i =>
    obtain ⟨hi, heq⟩ := h.acknowledge_eq hisr hfirst
    rw [heq, Option.some.injEq] at hx
    subst hx
    refine ⟨i, hi, rfl, ⟨h.masterReady, h.masterMask, h.masterVector, h.masterSlaves, h.masterMode,
      h.slaveMask⟩, ?_, rfl⟩
    change (if p.master.icw4.getLsbD 1 then p.master.isr else p.master.isr ||| 1#8 <<< i) = _
    rw [h.masterMode, if_neg (by decide), hisr]
    exact BitVec.zero_or

theorem exists_acknowledge (h : Configured p) (hisr : p.master.isr = 0) (hirq : irq = 0 ∨ irq = 3 ∨ irq = 4)
    (hirr : p.master.irr.getLsbD irq = true) :
    ∃ k q, (k = 0 ∨ k = 3 ∨ k = 4) ∧ k ≤ irq ∧ p.acknowledge = some (32 + k, q) := by
  have hpassed : (p.master.irr &&& 0x19).getLsbD irq = true := by
    rw [BitVec.getLsbD_and, hirr]
    rcases hirq with rfl | rfl | rfl <;> rfl
  obtain ⟨k, hfirst, hle⟩ := Pic.first_le hpassed
  obtain ⟨hk, heq⟩ := h.acknowledge_eq hisr hfirst
  exact ⟨k, _, hk, hle, heq⟩

end Configured

end MinOS
