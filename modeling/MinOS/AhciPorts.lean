import MinOS.CommandDecoding
import MinOS.Library.Registers

namespace MinOS

open Library.Registers Library.Words

inductive PortReg where
  | clb | fb | is | ie | cmd | serr
deriving DecidableEq

inductive HbaReg where
  | ghc
  | is
  | port (i : ℕ) (r : PortReg)
deriving DecidableEq

abbrev Hba (σ : Type) := Controller HbaReg (BitVec 32) σ

abbrev HbaSession (σ : Type) := Session HbaReg (BitVec 32) σ

abbrev HbaResult (σ : Type) := Session.Result HbaReg (BitVec 32) σ

def probeIdleLoop (pi : BitVec 32) (cmd : ℕ → BitVec 32) : ℕ → BitVec 32
  | 0 => 0
  | n + 1 =>
    let pidle := probeIdleLoop pi cmd n
    if pi >>> n ≠ 0 then if cmd n &&& 0x811 = 0 then pidle ||| 1#32 <<< n else pidle else pidle

def probeIdlePort (pi : BitVec 32) (cmd : ℕ → BitVec 32) : BitVec 32 := probeIdleLoop pi cmd 32

def leavesStep3 (pi pidle : BitVec 32) : ℕ → Bool
  | 0 => false
  | n + 1 => if pi ≠ pidle then leavesStep3 pi pidle n else true

section Loops

variable {σ : Type} (c : Hba σ)

def assignPort (cmdList rcvdFis : Word) (i : ℕ) (s : HbaSession σ) : HbaSession σ :=
  let s := s.write c (.port i .clb) (cmdList.setWidth 32 + BitVec.ofNat 32 (HbaCmdHeader.size * 32 * i))
  let s := s.write c (.port i .fb) (rcvdFis.setWidth 32 + BitVec.ofNat 32 (rcvdFisLength * i))
  s.modify c (.port i .cmd) (fun v => v ||| 0x10)

def assignPorts (cmdList rcvdFis : Word) (piList : BitVec 32) (s : HbaSession σ) : HbaResult σ :=
  s.forEach (fun i => piList >>> i ≠ 0) (fun i s => .ok (assignPort c cmdList rcvdFis i s)) 32

def allocMemForHba (h : Heap) (piList : BitVec 32) (s : HbaSession σ) : Option (Heap × HbaResult σ) :=
  (kmalloc h (cmdListSize + 128)).bind (fun (cmdList, h) =>
    (kmallocAlignas h rcvdFisSize 0x1000).map (fun (rcvdFis, h) =>
      (h, assignPorts c (alignAs (BitVec.ofNat 64 cmdList) 128) (BitVec.ofNat 64 rcvdFis) piList s)))

def clearPortSerr (fuel i : ℕ) (s : HbaSession σ) : HbaResult σ :=
  (s.modify c (.port i .serr) (fun v => v ||| 0x7ff0f03)).poll c (.port i .serr) 0 id fuel

def clearPortsSerr (fuel : ℕ) (piList : BitVec 32) (s : HbaSession σ) : HbaResult σ :=
  s.forEach (fun i => piList >>> i ≠ 0) (clearPortSerr c fuel) 32

def clearPortIs (fuel i : ℕ) (s : HbaSession σ) : HbaResult σ :=
  (s.write c (.port i .is) 0xffffffff).poll c (.port i .is) 0 (fun s => (s.read c (.port i .is)).2) fuel

def clearIs (fuel : ℕ) (s : HbaSession σ) : HbaResult σ :=
  let (v, s) := s.read c .is
  (s.modify c .is (fun w => w &&& ~~~v)).poll c .is 0 id fuel

def enableAhciInterrupt (fuel : ℕ) (piList : BitVec 32) (s : HbaSession σ) : HbaResult σ :=
  (s.forEach (fun i => piList >>> i ≠ 0) (clearPortIs c fuel) 32).bind (fun s =>
    (clearIs c fuel s).bind (fun s =>
      (s.forEach (fun i => piList >>> i ≠ 0) (fun i s => .ok (s.write c (.port i .ie) 0xfdc000ff)) 32).bind
        (fun s => .ok (s.modify c .ghc (fun v => v ||| 0x2)))))

end Loops

def WrotePorts {σ : Type} (pi : BitVec 32) : HbaResult σ → Prop
  | .ok t => ∀ i, (∃ r, .port i r ∈ t.written) ↔ pi.getLsbD i = true
  | .error t => ∀ i, (∃ r, .port i r ∈ t.written) → pi.getLsbD i = true

structure PortsRight (pi : BitVec 32) : Prop where
  probe : ∀ cmd i, (probeIdlePort pi cmd).getLsbD i = (pi.getLsbD i && decide (cmd i &&& 0x811 = 0))
  leaves : ∀ cmd, (∀ i, pi.getLsbD i = true → cmd i &&& 0x811 = 0) →
    leavesStep3 pi (probeIdlePort pi cmd) 1 = true
  alloc : ∀ {σ : Type} (c : Hba σ) (d : σ) (h h' : Heap) (r : HbaResult σ),
    allocMemForHba c h pi ⟨d, []⟩ = some (h', r) → WrotePorts pi r
  serr : ∀ {σ : Type} (c : Hba σ) (d : σ) (fuel : ℕ), WrotePorts pi (clearPortsSerr c fuel pi ⟨d, []⟩)
  interrupt : ∀ {σ : Type} (c : Hba σ) (d : σ) (fuel : ℕ),
    WrotePorts pi (enableAhciInterrupt c fuel pi ⟨d, []⟩)

def NoGap (pi : BitVec 32) : Prop := ∀ i j, i < j → pi.getLsbD j = true → pi.getLsbD i = true

section Ports

variable {σ : Type} {c : Hba σ} {pi : BitVec 32} {cmd : ℕ → BitVec 32} {n i : ℕ}

theorem shift_ne_zero_iff : pi >>> i ≠ 0 ↔ ∃ j, i ≤ j ∧ pi.getLsbD j = true := by
  constructor
  · intro hne
    by_contra hnone
    push Not at hnone
    apply hne
    apply BitVec.eq_of_getLsbD_eq
    intro k _
    have hbit := hnone (i + k) (Nat.le_add_right ..)
    simpa using hbit
  · rintro ⟨j, hij, hj⟩ hzero
    have hbit : (pi >>> i).getLsbD (j - i) = true := by
      rwa [BitVec.getLsbD_ushiftRight, Nat.add_sub_cancel' hij]
    simp [hzero] at hbit

theorem NoGap.shift_iff (h : NoGap pi) : i < 32 ∧ pi >>> i ≠ 0 ↔ pi.getLsbD i = true := by
  rw [shift_ne_zero_iff]
  constructor
  · rintro ⟨-, j, hij, hj⟩
    rcases hij.lt_or_eq with hlt | rfl
    · exact h i j hlt hj
    · exact hj
  · exact fun hi => ⟨BitVec.lt_of_getLsbD hi, i, le_refl i, hi⟩

theorem getLsbD_probeIdleLoop (hn : n ≤ 32) : (probeIdleLoop pi cmd n).getLsbD i =
    decide ((i < n ∧ pi >>> i ≠ 0) ∧ cmd i &&& 0x811 = 0) := by
  induction n with
  | zero => simp [probeIdleLoop]
  | succ n ih =>
    have hbit : (1#32 <<< n).getLsbD i = decide (i = n) := by
      rw [BitVec.getLsbD_shiftLeft, BitVec.getLsbD_one]
      by_cases hin : i = n
      · simp [hin]
        omega
      · simp [hin]
        omega
    have hrest : ¬ (pi >>> n ≠ 0 ∧ cmd n &&& 0x811 = 0) →
        ((i < n ∧ pi >>> i ≠ 0) ∧ cmd i &&& 0x811 = 0 ↔
          (i < n + 1 ∧ pi >>> i ≠ 0) ∧ cmd i &&& 0x811 = 0) := by
      intro hnot
      constructor
      · exact fun ⟨⟨hi, hpi⟩, hcmd⟩ => ⟨⟨by omega, hpi⟩, hcmd⟩
      · rintro ⟨⟨hi, hpi⟩, hcmd⟩
        have hin : i ≠ n := by
          rintro rfl
          exact hnot ⟨hpi, hcmd⟩
        exact ⟨⟨by omega, hpi⟩, hcmd⟩
    rw [probeIdleLoop]
    by_cases hpi : pi >>> n ≠ 0
    · by_cases hcmd : cmd n &&& 0x811 = 0
      · rw [if_pos hpi, if_pos hcmd, BitVec.getLsbD_or, ih (by omega), hbit]
        by_cases hin : i = n
        · subst hin
          have hself : (i < i + 1 ∧ pi >>> i ≠ 0) ∧ cmd i &&& 0x811 = 0 := ⟨⟨by omega, hpi⟩, hcmd⟩
          rw [decide_eq_true hself]
          simp
        · have hlt : i < n ↔ i < n + 1 := by omega
          simp [hin, hlt]
      · rw [if_pos hpi, if_neg hcmd, ih (by omega)]
        exact decide_eq_decide.mpr (hrest (fun h => hcmd h.2))
    · rw [if_neg hpi, ih (by omega)]
      exact decide_eq_decide.mpr (hrest (fun h => hpi h.1))

theorem NoGap.getLsbD_probeIdlePort (h : NoGap pi) (cmd : ℕ → BitVec 32) (i : ℕ) :
    (probeIdlePort pi cmd).getLsbD i = (pi.getLsbD i && decide (cmd i &&& 0x811 = 0)) := by
  rw [probeIdlePort, getLsbD_probeIdleLoop (le_refl 32)]
  simp only [h.shift_iff, Bool.decide_and, Bool.decide_eq_true]

theorem NoGap.probeIdlePort_eq (h : NoGap pi)
    (hidle : ∀ i, pi.getLsbD i = true → cmd i &&& 0x811 = 0) : probeIdlePort pi cmd = pi := by
  apply BitVec.eq_of_getLsbD_eq
  intro i _
  rw [h.getLsbD_probeIdlePort]
  cases hbit : pi.getLsbD i with
  | false => rfl
  | true => simpa using hidle i hbit

theorem wrotePorts_of_writes {W : Set HbaReg} {f : HbaSession σ → HbaResult σ} (h : Session.Writes W f)
    (hW : ∀ i, (∃ r, .port i r ∈ W) ↔ pi.getLsbD i = true) (d : σ) : WrotePorts pi (f ⟨d, []⟩) := by
  have hnone : (Session.mk d [] : HbaSession σ).written = ∅ := by simp [Session.written]
  cases hr : f ⟨d, []⟩ with
  | ok t =>
    have ht := h.ok hr
    rw [hnone, Set.empty_union] at ht
    intro i
    rw [ht]
    exact hW i
  | error t =>
    have ht := h.error hr
    rw [hnone, Set.empty_union] at ht
    rintro i ⟨r, hmem⟩
    exact (hW i).mp ⟨r, ht hmem⟩

def portWrites (pi : BitVec 32) (regs : Set PortReg) : Set HbaReg :=
  {r | ∃ i, i < 32 ∧ pi >>> i ≠ 0 ∧ ∃ q ∈ regs, r = .port i q}

theorem NoGap.port_mem_iff (h : NoGap pi) {regs : Set PortReg} {q : PortReg} :
    .port i q ∈ portWrites pi regs ↔ pi.getLsbD i = true ∧ q ∈ regs := by
  rw [← h.shift_iff]
  constructor
  · rintro ⟨j, hj, hpi, r, hr, heq⟩
    obtain ⟨rfl, rfl⟩ := HbaReg.port.inj heq
    exact ⟨⟨hj, hpi⟩, hr⟩
  · rintro ⟨⟨hi, hpi⟩, hq⟩
    exact ⟨i, hi, hpi, q, hq, rfl⟩

theorem writes_assignPorts (c : Hba σ) (cmdList rcvdFis : Word) (piList : BitVec 32) :
    Session.Writes (portWrites piList {.clb, .fb, .cmd}) (assignPorts c cmdList rcvdFis piList) := by
  refine (Session.writes_forEach (A := fun i => {.port i .clb, .port i .fb, .port i .cmd})
    (fun i => .of_written (fun s => ?_)) 32).of_eq ?_
  · simp only [assignPort, Session.written_modify, Session.written_write, Set.union_assoc]
    rfl
  · ext r
    simp [portWrites]

theorem writes_clearPortsSerr (c : Hba σ) (fuel : ℕ) (piList : BitVec 32) :
    Session.Writes (portWrites piList {.serr}) (clearPortsSerr c fuel piList) := by
  refine (Session.writes_forEach (A := fun i => {.port i .serr}) (fun i => ?_) 32).of_eq ?_
  · have hset : Session.Writes {.port i .serr} (fun s : HbaSession σ =>
        .ok (s.modify c (.port i .serr) (fun v => v ||| 0x7ff0f03))) :=
      .of_written (fun s => Session.written_modify ..)
    exact (hset.bind (Session.writes_poll (fun _ => rfl) fuel)).of_eq (Set.union_empty _)
  · ext r
    simp [portWrites]

theorem writes_clearPortIs (c : Hba σ) (fuel i : ℕ) :
    Session.Writes {.port i .is} (clearPortIs c fuel i) := by
  have hset : Session.Writes {.port i .is} (fun s : HbaSession σ =>
      .ok (s.write c (.port i .is) 0xffffffff)) := .of_written (fun s => Session.written_write ..)
  have hread : ∀ s : HbaSession σ, (s.read c (.port i .is)).2.written = s.written := fun _ => rfl
  exact (hset.bind (Session.writes_poll hread fuel)).of_eq (Set.union_empty _)

theorem writes_clearIs (c : Hba σ) (fuel : ℕ) : Session.Writes {.is} (clearIs c fuel) := by
  have hset : Session.Writes {.is} (fun s : HbaSession σ =>
      .ok ((s.read c .is).2.modify c .is (fun w => w &&& ~~~(s.read c .is).1))) :=
    .of_written (fun s => Session.written_modify ..)
  have hid : ∀ s : HbaSession σ, (id s).written = s.written := fun _ => rfl
  exact (hset.bind (Session.writes_poll hid fuel)).of_eq (Set.union_empty _)

theorem writes_enableAhciInterrupt (c : Hba σ) (fuel : ℕ) (piList : BitVec 32) :
    Session.Writes (portWrites piList {.is} ∪ ({.is} ∪ (portWrites piList {.ie} ∪ {.ghc})))
      (enableAhciInterrupt c fuel piList) := by
  have hports : ∀ q, {r | ∃ i, i < 32 ∧ piList >>> i ≠ 0 ∧ r ∈ ({.port i q} : Set HbaReg)} =
      portWrites piList {q} := by
    intro q
    ext r
    simp [portWrites]
  have hie : ∀ i, Session.Writes {.port i .ie} (fun s : HbaSession σ =>
      .ok (s.write c (.port i .ie) 0xfdc000ff)) :=
    fun i => .of_written (fun s => Session.written_write ..)
  have hghc : Session.Writes {.ghc} (fun s : HbaSession σ => .ok (s.modify c .ghc (fun v => v ||| 0x2))) :=
    .of_written (fun s => Session.written_modify ..)
  have hfirst := (Session.writes_forEach (p := fun i => piList >>> i ≠ 0) (writes_clearPortIs c fuel) 32).of_eq
    (hports .is)
  have hlast := (Session.writes_forEach (p := fun i => piList >>> i ≠ 0) hie 32).of_eq (hports .ie)
  exact hfirst.bind ((writes_clearIs c fuel).bind (hlast.bind hghc))

/-- The loops test `pi >> i`, which is not zero for a port below an implemented one. -/
theorem ports_right_iff {pi : BitVec 32} : PortsRight pi ↔ NoGap pi := by
  constructor
  · intro hright i j hij hj
    have hbit := hright.probe (fun _ => 0) i
    have hlt := BitVec.lt_of_getLsbD hj
    have htest : (i < 32 ∧ pi >>> i ≠ 0) ∧ (0 : BitVec 32) &&& 0x811 = 0 :=
      ⟨⟨by omega, shift_ne_zero_iff.mpr ⟨j, hij.le, hj⟩⟩, rfl⟩
    rw [probeIdlePort, getLsbD_probeIdleLoop (le_refl 32), decide_eq_true htest] at hbit
    exact (Bool.and_eq_true_iff.mp hbit.symm).1
  · intro h
    constructor
    · exact h.getLsbD_probeIdlePort
    · intro cmd hidle
      exact if_neg (not_not.mpr (h.probeIdlePort_eq hidle).symm)
    · intro σ c d heap heap' r hr
      obtain ⟨⟨list, h₁⟩, -, hr⟩ := Option.bind_eq_some_iff.mp hr
      obtain ⟨⟨fis, h₂⟩, -, hr⟩ := Option.map_eq_some_iff.mp hr
      obtain ⟨-, rfl⟩ := Prod.mk.inj hr
      refine wrotePorts_of_writes (writes_assignPorts ..) (fun i => ?_) d
      simp only [h.port_mem_iff]
      exact ⟨fun ⟨_, hi, _⟩ => hi, fun hi => ⟨.clb, hi, .inl rfl⟩⟩
    · intro σ c d fuel
      refine wrotePorts_of_writes (writes_clearPortsSerr ..) (fun i => ?_) d
      simp only [h.port_mem_iff]
      exact ⟨fun ⟨_, hi, _⟩ => hi, fun hi => ⟨.serr, hi, rfl⟩⟩
    · intro σ c d fuel
      refine wrotePorts_of_writes (writes_enableAhciInterrupt ..) (fun i => ?_) d
      simp only [Set.mem_union, h.port_mem_iff, Set.mem_singleton_iff, reduceCtorEq, false_or, or_false]
      exact ⟨fun ⟨_, hr⟩ => hr.elim And.left And.left, fun hi => ⟨.is, .inl ⟨hi, rfl⟩⟩⟩

def zeroHba : Hba Unit := ⟨fun _ d => (0, d), fun _ _ d => d⟩

/-- Only port 1 is implemented: the driver waits for ever, and would write to port 0. -/
theorem second_port_alone : (∀ n, leavesStep3 2 (probeIdlePort 2 (fun _ => 0)) n = false) ∧
    (∃ t, clearPortsSerr zeroHba 1 2 ⟨(), []⟩ = .ok t ∧ .port 0 .serr ∈ t.written) ∧
    ¬ PortsRight 2 := by
  have hprobe : probeIdlePort 2 (fun _ => 0) = 3 := by decide +kernel
  refine ⟨fun n => ?_, ⟨_, rfl, 0x7ff0f03, by decide +kernel⟩, fun hright => ?_⟩
  · induction n with
    | zero => rfl
    | succ n ih =>
      rw [leavesStep3, hprobe, if_pos (by decide), ← hprobe]
      exact ih
  · have hleaves := hright.leaves (fun _ => 0) (fun _ _ => rfl)
    rw [hprobe] at hleaves
    exact absurd hleaves (by decide)

section Registers

def portFile : Hba (ℕ → HbaPort) where
  read r d := (match r with
    | .port i .clb => (d i).clb
    | .port i .fb => (d i).fb
    | .port i .cmd => (d i).cmd
    | _ => 0, d)
  write r v d := match r with
    | .port i .clb => Function.update d i { d i with clb := v }
    | .port i .fb => Function.update d i { d i with fb := v }
    | .port i .cmd => Function.update d i { d i with cmd := v }
    | _ => d

theorem assignPorts_portFile (cmdList rcvdFis : Word) (piList : BitVec 32) (ports : ℕ → HbaPort) :
    ∃ t, assignPorts portFile cmdList rcvdFis piList ⟨ports, []⟩ = .ok t ∧
      t.device = forPorts piList (giveAddresses cmdList rcvdFis) ports 32 := by
  have hloop : ∀ n, ∃ t, Session.forEach (fun i => piList >>> i ≠ 0)
      (fun i s => .ok (assignPort portFile cmdList rcvdFis i s)) n ⟨ports, []⟩ = .ok t ∧
      t.device = forPorts piList (giveAddresses cmdList rcvdFis) ports n := by
    intro n
    induction n with
    | zero => exact ⟨_, rfl, rfl⟩
    | succ n ih =>
      obtain ⟨t, ht, hdevice⟩ := ih
      rw [Session.forEach, ht, forPorts, ← hdevice]
      by_cases hpi : piList >>> n ≠ 0
      · refine ⟨_, if_pos hpi, ?_⟩
        rw [if_pos hpi]
        simp [assignPort, giveAddresses, Session.write, Session.modify, Session.read, portFile]
      · exact ⟨t, if_neg hpi, (if_neg hpi).symm⟩
  exact hloop 32

end Registers

end Ports

end MinOS
