import Mathlib.Tactic.IntervalCases
import MinOS.Library.Tables

namespace MinOS

open Library.Arrays Library.Fields Library.Tables Library.Words

inductive Handler where
  | deHandler
  | dbHandler
  | nmiHandler
  | bpHandler
  | ofHandler
  | brHandler
  | udHandler
  | nmHandler
  | dfHandler
  | tsHandler
  | npHandler
  | ssHandler
  | gpHandler
  | pfHandler
  | mfHandler
  | acHandler
  | mcHandler
  | xmHandler
  | timerHandler
  | comHandler
deriving DecidableEq

structure GateDesc where
  low : BitVec 32
  mid : BitVec 32
  high : BitVec 64

namespace GateDesc

def lowField : Field := .bytes 0 4
def midField : Field := .bytes 4 4
def highField : Field := .bytes 8 8

def fields (g : GateDesc) : List (Field × ℕ) :=
  [(lowField, g.low.toNat), (midField, g.mid.toNat), (highField, g.high.toNat)]

end GateDesc

def createGateDesc (handler : Word) : GateDesc where
  high := (handler &&& 0xffffffff00000000) >>> 32
  mid := ((handler &&& 0xffff0000) ||| 0x8e00).setWidth 32
  low := (0x80000 ||| (handler &&& 0xffff)).setWidth 32

def makeSegmDesc (type dpl : Word) : Word := 0 ||| type <<< 41 ||| dpl <<< 45 ||| 0x00a0900000000000

def gdt : Word := 0x80
def idt : Word := 0x10000

def segmField : Field := .bytes 0 8

structure TableRegister where
  base : Word
  limit : ℕ

def gdtLimit : ℕ := 24

def gdtWrites : List (ℕ × List (Field × ℕ)) :=
  [(0, [(segmField, 0)]), (1, [(segmField, (makeSegmDesc 5 0).toNat)]),
    (2, [(segmField, (makeSegmDesc 1 0).toNat)])]

def initGdt (s : Traced) : Traced × TableRegister := (putRecords gdt 8 s gdtWrites, ⟨gdt, gdtLimit⟩)

def gates : List (ℕ × Handler) :=
  [(0, .deHandler), (1, .dbHandler), (2, .nmiHandler), (3, .bpHandler), (4, .ofHandler), (5, .brHandler),
    (6, .udHandler), (7, .nmHandler), (8, .dfHandler), (10, .tsHandler), (11, .npHandler), (12, .ssHandler),
    (13, .gpHandler), (14, .pfHandler), (16, .mfHandler), (17, .acHandler), (18, .mcHandler),
    (19, .xmHandler), (32, .timerHandler), (33, .comHandler), (34, .comHandler), (35, .comHandler),
    (36, .comHandler), (37, .comHandler), (38, .comHandler)]

def idtWrites (addr : Handler → Word) : List (ℕ × List (Field × ℕ)) :=
  (List.range 256).map (fun i => (i, (⟨0, 0, 0⟩ : GateDesc).fields)) ++
    gates.map (fun p => (p.1, (createGateDesc (addr p.2)).fields))

def initIdt (addr : Handler → Word) (s : Traced) : Traced × TableRegister :=
  (putRecords idt 16 s (idtWrites addr), ⟨idt, 16 * 256 - 1⟩)

section Processor

inductive Fault where
  | gp
  | np
deriving DecidableEq

structure HandlerEntry where
  rip : Word
  cs : ℕ
  ist : ℕ
  intr : Bool
deriving DecidableEq

def Segment.type : Field := ⟨0, 8, 40, 4, by decide⟩
def Segment.s : Field := ⟨0, 8, 44, 1, by decide⟩
def Segment.dpl : Field := ⟨0, 8, 45, 2, by decide⟩
def Segment.p : Field := ⟨0, 8, 47, 1, by decide⟩
def Segment.l : Field := ⟨0, 8, 53, 1, by decide⟩
def Segment.d : Field := ⟨0, 8, 54, 1, by decide⟩

def Gate.offsetLow : Field := ⟨0, 4, 0, 16, by decide⟩
def Gate.selector : Field := ⟨0, 4, 16, 16, by decide⟩
def Gate.ist : Field := ⟨4, 4, 0, 3, by decide⟩
def Gate.type : Field := ⟨4, 4, 8, 5, by decide⟩
def Gate.p : Field := ⟨4, 4, 15, 1, by decide⟩
def Gate.offsetMid : Field := ⟨4, 4, 16, 16, by decide⟩
def Gate.offsetHigh : Field := ⟨8, 8, 0, 32, by decide⟩

def enterSegment (gdtr : TableRegister) (m : Memory) (selector : ℕ) : Except Fault Unit :=
  let a := offset gdtr.base (8 * (selector / 8))
  if selector / 4 = 0 ∨ selector / 4 % 2 = 1 ∨ gdtr.limit < 8 * (selector / 8) + 7 then .error .gp
  else if Segment.s.get m a = 0 ∨ Segment.type.get m a < 8 ∨ Segment.dpl.get m a ≠ 0 ∨
      Segment.l.get m a = 0 ∨ Segment.d.get m a = 1 then .error .gp
  else if Segment.p.get m a = 0 then .error .np
  else .ok ()

def IsCanonical (rip : Word) : Prop := rip.toNat < 2 ^ 47 ∨ 2 ^ 64 - 2 ^ 47 ≤ rip.toNat

instance (rip : Word) : Decidable (IsCanonical rip) := inferInstanceAs (Decidable (_ ∨ _))

/-- What an interrupt with the vector `v` does in ring 0: an interrupt gate clears the interrupt flag,
and a trap gate keeps it. -/
def interrupt (gdtr idtr : TableRegister) (m : Memory) (intr : Bool) (v : ℕ) : Except Fault HandlerEntry := do
  let a := offset idtr.base (16 * v)
  if idtr.limit < 16 * v + 15 then .error .gp
  else if Gate.type.get m a ≠ 0xe ∧ Gate.type.get m a ≠ 0xf then .error .gp
  else if Gate.p.get m a = 0 then .error .np
  else
    enterSegment gdtr m (Gate.selector.get m a)
    let rip := BitVec.ofNat 64
      (Gate.offsetLow.get m a + 2 ^ 16 * Gate.offsetMid.get m a + 2 ^ 32 * Gate.offsetHigh.get m a)
    if IsCanonical rip then
      .ok ⟨rip, Gate.selector.get m a, Gate.ist.get m a, intr && decide (Gate.type.get m a = 0xf)⟩
    else .error .gp

end Processor

section Descriptors

variable {m : Memory} {a handler : Word} {o n lo w : ℕ}

theorem get_bits (h : lo + w ≤ 8 * n) :
    (⟨o, n, lo, w, h⟩ : Field).get m a = bits ((Field.bytes o n).get m a) lo w := by
  have hunit : (Field.bytes o n).get m a = load m (offset a o) n % 2 ^ (8 * n) := by
    rw [Field.get, bits]
    exact congrArg (· % 2 ^ (8 * n)) (Nat.div_one _)
  rw [hunit, bits_mod h, Field.get]

theorem bits_toNat {k : ℕ} (v : BitVec k) (lo w : ℕ) : bits v.toNat lo w = (v.extractLsb' lo w).toNat := by
  rw [BitVec.extractLsb'_toNat, Nat.shiftRight_eq_div_pow, bits]

theorem extract_low (handler : Word) :
    (createGateDesc handler).low.extractLsb' 0 16 = handler.extractLsb' 0 16 ∧
    (createGateDesc handler).low.extractLsb' 16 16 = 8 := by
  constructor <;>
  · apply BitVec.eq_of_getLsbD_eq
    intro i hi
    interval_cases i <;> simp [createGateDesc]

theorem extract_mid (handler : Word) : (createGateDesc handler).mid.extractLsb' 0 16 = 0x8e00 ∧
    (createGateDesc handler).mid.extractLsb' 16 16 = handler.extractLsb' 16 16 := by
  constructor <;>
  · apply BitVec.eq_of_getLsbD_eq
    intro i hi
    interval_cases i <;> simp [createGateDesc]

theorem extract_high (handler : Word) :
    (createGateDesc handler).high.extractLsb' 0 32 = handler.extractLsb' 32 32 := by
  apply BitVec.eq_of_getLsbD_eq
  intro i hi
  interval_cases i <;> simp [createGateDesc]

structure HoldsGate (m : Memory) (a : Word) (g : GateDesc) : Prop where
  low : GateDesc.lowField.get m a = g.low.toNat
  mid : GateDesc.midField.get m a = g.mid.toNat
  high : GateDesc.highField.get m a = g.high.toNat

theorem holdsGate_putRecords {s : Traced} {writes : List (ℕ × List (Field × ℕ))} {v : ℕ} {g : GateDesc}
    (h : ∀ w ∈ writes, Fit 16 256 w) (hv : v < 256) (hlast : lastWrite v writes = some g.fields) :
    HoldsGate (putRecords a 16 s writes).mem (offset a (16 * v)) g where
  low := (get_putRecords_some h (by decide) hv hlast (by simp [GateDesc.fields])).trans
    (Nat.mod_eq_of_lt g.low.isLt)
  mid := (get_putRecords_some h (by decide) hv hlast (by simp [GateDesc.fields])).trans
    (Nat.mod_eq_of_lt g.mid.isLt)
  high := (get_putRecords_some h (by decide) hv hlast (by simp [GateDesc.fields])).trans
    (Nat.mod_eq_of_lt g.high.isLt)

namespace HoldsGate

variable {g : GateDesc}

theorem congr {m' : Memory} (h : HoldsGate m a g) (heq : ∀ x, InRegion a 16 x → m' x = m x) :
    HoldsGate m' a g := by
  have hget : ∀ f : Field, f.offset + f.size ≤ 16 → f.get m' a = f.get m a := by
    intro f hf
    rw [Field.get, Field.get, load_congr (by omega) (fun x hx => heq x ?_)]
    exact InRegion.mono (InRegion.shift hx (by omega)) hf
  exact ⟨(hget _ (by decide)).trans h.low, (hget _ (by decide)).trans h.mid,
    (hget _ (by decide)).trans h.high⟩

theorem fields (h : HoldsGate m a g) : Gate.offsetLow.get m a = (g.low.extractLsb' 0 16).toNat ∧
    Gate.selector.get m a = (g.low.extractLsb' 16 16).toNat ∧
    Gate.offsetMid.get m a = (g.mid.extractLsb' 16 16).toNat ∧
    Gate.offsetHigh.get m a = (g.high.extractLsb' 0 32).toNat := by
  simp only [← bits_toNat]
  refine ⟨?_, ?_, ?_, ?_⟩
  · exact (get_bits (by decide)).trans (congrArg (bits · 0 16) h.low)
  · exact (get_bits (by decide)).trans (congrArg (bits · 16 16) h.low)
  · exact (get_bits (by decide)).trans (congrArg (bits · 16 16) h.mid)
  · exact (get_bits (by decide)).trans (congrArg (bits · 0 32) h.high)

theorem flags {flags : BitVec 16} (h : HoldsGate m a g) (hflags : g.mid.extractLsb' 0 16 = flags) :
    Gate.ist.get m a = bits flags.toNat 0 3 ∧ Gate.type.get m a = bits flags.toNat 8 5 ∧
      Gate.p.get m a = bits flags.toNat 15 1 := by
  have hhalf : ∀ lo w, lo + w ≤ 16 → bits (GateDesc.midField.get m a) lo w = bits flags.toNat lo w := by
    intro lo w hw
    rw [h.mid, ← hflags, BitVec.extractLsb'_toNat, Nat.shiftRight_zero, bits_mod hw]
  exact ⟨(get_bits (by decide)).trans (hhalf 0 3 (by decide)),
    (get_bits (by decide)).trans (hhalf 8 5 (by decide)),
    (get_bits (by decide)).trans (hhalf 15 1 (by decide))⟩

theorem rip (h : HoldsGate m a (createGateDesc handler)) : BitVec.ofNat 64
    (Gate.offsetLow.get m a + 2 ^ 16 * Gate.offsetMid.get m a + 2 ^ 32 * Gate.offsetHigh.get m a) =
      handler := by
  obtain ⟨hlow, -, hmid, hhigh⟩ := h.fields
  rw [hlow, hmid, hhigh, (extract_low handler).1, (extract_mid handler).2, extract_high]
  simp only [BitVec.extractLsb'_toNat, Nat.shiftRight_eq_div_pow]
  bv_omega

end HoldsGate

end Descriptors

section Tables

variable {addr : Handler → Word} {s : Traced} {v : ℕ} {handler : Handler}

theorem idtWrites_fit (addr : Handler → Word) : ∀ w ∈ idtWrites addr, Fit 16 256 w := by
  have hlayout : ∀ g : GateDesc, Layout (g.fields.map Prod.fst) 16 := fun g => by
    change Layout [GateDesc.lowField, GateDesc.midField, GateDesc.highField] 16
    decide
  have hindex : ∀ p ∈ gates, p.1 < 256 := by decide
  intro w hw
  rcases List.mem_append.mp hw with hw | hw
  · obtain ⟨i, hi, rfl⟩ := List.mem_map.mp hw
    exact ⟨List.mem_range.mp hi, hlayout _⟩
  · obtain ⟨p, hp, rfl⟩ := List.mem_map.mp hw
    exact ⟨hindex p hp, hlayout _⟩

theorem lastWrite_gate (h : (v, handler) ∈ gates) :
    lastWrite v (idtWrites addr) = some (createGateDesc (addr handler)).fields := by
  have hnd : ((gates.map (fun p => (p.1, (createGateDesc (addr p.2)).fields))).map Prod.fst).Nodup := by
    rw [List.map_map]
    change (gates.map Prod.fst).Nodup
    decide
  rw [idtWrites, lastWrite_append, lastWrite_eq_some hnd (List.mem_map.mpr ⟨_, h, rfl⟩), Option.some_or]

theorem lastWrite_zero (hv : v < 256) (h : ∀ p ∈ gates, p.1 ≠ v) :
    lastWrite v (idtWrites addr) = some (⟨0, 0, 0⟩ : GateDesc).fields := by
  have hnone : lastWrite v (gates.map (fun p => (p.1, (createGateDesc (addr p.2)).fields))) = none := by
    apply lastWrite_eq_none
    rintro w hw
    obtain ⟨p, hp, rfl⟩ := List.mem_map.mp hw
    exact h p hp
  have hnd : (((List.range 256).map (fun i => (i, (⟨0, 0, 0⟩ : GateDesc).fields))).map Prod.fst).Nodup := by
    rw [List.map_map]
    exact (List.map_id (List.range 256)).symm ▸ List.nodup_range
  rw [idtWrites, lastWrite_append, hnone, Option.none_or,
    lastWrite_eq_some hnd (List.mem_map.mpr ⟨v, List.mem_range.mpr hv, rfl⟩)]

theorem gdtWrites_fit : ∀ w ∈ gdtWrites, Fit 8 3 w := by
  intro w hw
  simp only [gdtWrites, List.mem_cons, List.not_mem_nil, or_false] at hw
  rcases hw with rfl | rfl | rfl
  all_goals exact ⟨by decide, by change Layout [segmField] 8; decide⟩

end Tables

section Delivery

variable {addr : Handler → Word} {m : Memory} {v : ℕ} {handler : Handler}

def TablesKept (addr : Handler → Word) (m : Memory) : Prop :=
  ∃ s, ∀ x, InRegion gdt 24 x ∨ InRegion idt 4096 x → m x = (initIdt addr (initGdt s).1).1.mem x

namespace TablesKept

theorem gate {g : GateDesc} (h : TablesKept addr m) (hv : v < 256)
    (hlast : lastWrite v (idtWrites addr) = some g.fields) : HoldsGate m (offset idt (16 * v)) g := by
  obtain ⟨s, hs⟩ := h
  have hgate : HoldsGate (initIdt addr (initGdt s).1).1.mem (offset idt (16 * v)) g :=
    holdsGate_putRecords (idtWrites_fit addr) hv hlast
  refine hgate.congr (fun x hx => hs x (.inr ?_))
  have hin : InRegion idt (16 * 256) x := inRegion_record hv (by decide) hx
  exact hin

theorem segm (h : TablesKept addr m) :
    segmField.get m (offset gdt 8) = (makeSegmDesc 5 0).toNat := by
  obtain ⟨s, hs⟩ := h
  have hin : ∀ x, InRegion (offset (offset gdt 8) 0) 8 x → InRegion gdt 24 x := by
    intro x hx
    rw [offset_offset] at hx
    unfold InRegion offset gdt at *
    bv_omega
  have hout : ∀ x, InRegion gdt 24 x → ¬ InRegion idt (16 * 256) x := by
    intro x hx
    unfold InRegion gdt idt at *
    bv_omega
  have hload : load m (offset (offset gdt 8) 0) 8 = load (initGdt s).1.mem (offset (offset gdt 8) 0) 8 := by
    refine load_congr (by decide) (fun x hx => (hs x (.inl (hin x hx))).trans ?_)
    exact putRecords_other (idtWrites_fit addr) (by decide) (hout x (hin x hx))
  have hlast : lastWrite 1 gdtWrites = some [(segmField, (makeSegmDesc 5 0).toNat)] := by
    simp [gdtWrites, lastWrite]
  have hget : segmField.get (initGdt s).1.mem (offset gdt (8 * 1)) = (makeSegmDesc 5 0).toNat % 2 ^ 64 :=
    get_putRecords_some gdtWrites_fit (by decide) (by decide) hlast (List.mem_singleton_self _)
  exact (congrArg (bits · 0 64) hload).trans (hget.trans (Nat.mod_eq_of_lt (makeSegmDesc 5 0).isLt))

theorem enterSegment (h : TablesKept addr m) : enterSegment ⟨gdt, gdtLimit⟩ m 8 = .ok () := by
  have hbits : ∀ lo w, ∀ hw : lo + w ≤ 8 * 8, (⟨0, 8, lo, w, hw⟩ : Field).get m (offset gdt (8 * (8 / 8))) =
      bits (makeSegmDesc 5 0).toNat lo w :=
    fun lo w hw => (get_bits hw).trans (congrArg (bits · lo w) h.segm)
  rw [MinOS.enterSegment, Segment.s, Segment.type, Segment.dpl, Segment.l, Segment.d, Segment.p]
  simp only [hbits]
  decide

theorem registered (h : TablesKept addr m) (hcanonical : IsCanonical (addr handler))
    (hgate : (v, handler) ∈ gates) (intr : Bool) :
    interrupt ⟨gdt, gdtLimit⟩ ⟨idt, 4095⟩ m intr v = .ok ⟨addr handler, 8, 0, false⟩ := by
  have hv : v < 256 := by
    have hall : ∀ p ∈ gates, p.1 < 256 := by decide
    exact hall _ hgate
  have hholds := h.gate hv (lastWrite_gate hgate)
  obtain ⟨-, hselector, -, -⟩ := hholds.fields
  obtain ⟨hist, htype, hp⟩ := hholds.flags (extract_mid _).1
  have hcs : Gate.selector.get m (offset idt (16 * v)) = 8 := by
    rw [hselector, (extract_low _).2]
    rfl
  have hlimit : ¬ 4095 < 16 * v + 15 := by omega
  have htype' : Gate.type.get m (offset idt (16 * v)) = 0xe := htype
  have hp' : Gate.p.get m (offset idt (16 * v)) = 1 := hp
  have hist' : Gate.ist.get m (offset idt (16 * v)) = 0 := hist
  rw [interrupt]
  dsimp only
  rw [if_neg hlimit, htype', hp', hcs, h.enterSegment, hholds.rip, hist']
  simp [hcanonical, bind, Except.bind]

theorem unregistered (h : TablesKept addr m) (hv : v < 256) (hgates : ∀ p ∈ gates, p.1 ≠ v)
    (intr : Bool) : interrupt ⟨gdt, gdtLimit⟩ ⟨idt, 4095⟩ m intr v = .error .gp := by
  have hholds := h.gate hv (lastWrite_zero hv hgates)
  have hflags : (⟨0, 0, 0⟩ : GateDesc).mid.extractLsb' 0 16 = 0 := rfl
  obtain ⟨-, htype, -⟩ := hholds.flags hflags
  have hlimit : ¬ 4095 < 16 * v + 15 := by omega
  have htype' : Gate.type.get m (offset idt (16 * v)) = 0 := htype
  rw [interrupt]
  dsimp only
  rw [if_neg hlimit, htype', if_pos (by decide)]

end TablesKept

/-- Every vector that `init_idt` has registered leads to its handler, with the interrupt flag clear, and
every other one to a general protection fault. -/
theorem interrupt_lookup (h : TablesKept addr m) (hcanonical : ∀ handler, IsCanonical (addr handler))
    (hv : v < 256) (intr : Bool) : interrupt ⟨gdt, gdtLimit⟩ ⟨idt, 4095⟩ m intr v =
      match gates.lookup v with
      | some handler => .ok ⟨addr handler, 8, 0, false⟩
      | none => .error .gp := by
  cases hlookup : gates.lookup v with
  | none =>
    rw [List.lookup_eq_none_iff] at hlookup
    exact h.unregistered hv (fun p hp heq => by simpa [heq] using hlookup p hp) intr
  | some handler =>
    obtain ⟨l, l', hsplit, -⟩ := List.lookup_eq_some_iff.mp hlookup
    exact h.registered (hcanonical handler) (hsplit ▸ List.mem_append_right l List.mem_cons_self) intr

theorem interrupt_lookup_timer : interrupt ⟨gdt, gdtLimit⟩ ⟨idt, 4095⟩
    (initIdt (fun _ => 0x101000) (initGdt ⟨fun _ => 0, []⟩).1).1.mem true 32 = .ok ⟨0x101000, 8, 0, false⟩ :=
  @interrupt_lookup (fun _ => 0x101000) _ 32 ⟨⟨fun _ => 0, []⟩, fun _ _ => rfl⟩ (fun _ => by decide)
    (by decide) true

end Delivery

end MinOS
