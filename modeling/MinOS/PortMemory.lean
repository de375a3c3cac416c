import MinOS.AhciPorts
import MinOS.AllocationAnswers

namespace MinOS

open Library.Registers Library.Tilings Library.Words

def HbaPort.areas (port : HbaPort) : List Span := [⟨port.clb.toNat, 1024⟩, ⟨port.fb.toNat, 256⟩]

def implemented (pi : BitVec 32) : List ℕ := (List.range 32).filter (fun i => pi.getLsbD i)

structure AreasRight (pi : BitVec 32) (list fis : ℕ) (ports : ℕ → HbaPort) : Prop where
  lists : ∀ i, pi.getLsbD i = true → (ports i).clb.toNat % 1024 = 0 ∧ list ≤ (ports i).clb.toNat ∧
    (ports i).clb.toNat + 1024 ≤ list + (cmdListSize + 128)
  received : ∀ i, pi.getLsbD i = true → (ports i).fb.toNat % 256 = 0 ∧ fis ≤ (ports i).fb.toNat ∧
    (ports i).fb.toNat + 256 ≤ fis + rcvdFisSize
  apart : ((implemented pi).flatMap (fun i => (ports i).areas)).Pairwise Span.Disjoint

def MemoryRight (h : Heap) (ports : ℕ → HbaPort) (pi : BitVec 32) : Prop :=
  ∃ list h₁ fis h₂ t, kmalloc h (cmdListSize + 128) = some (list, h₁) ∧
    kmallocAlignas h₁ rcvdFisSize 0x1000 = some (fis, h₂) ∧
    allocMemForHba portFile h pi ⟨ports, []⟩ = some (h₂, .ok t) ∧
    (list ≠ 0 → fis ≠ 0 → AreasRight pi list fis t.device) ∧
    (list = 0 ∨ fis = 0 → ∀ i, .port i .clb ∉ t.written ∧ .port i .fb ∉ t.written)

structure Blocks (list fis : ℕ) : Prop where
  list_below : list + (cmdListSize + 128) ≤ 2 ^ 32
  fis_below : fis + rcvdFisSize ≤ 2 ^ 32
  aligned : fis % 0x1000 = 0
  apart : list + (cmdListSize + 128) ≤ fis ∨ fis + rcvdFisSize ≤ list

section Memory

variable {h h₁ h₂ : Heap} {free live : List Block} {list fis i : ℕ} {pi : BitVec 32} {ports : ℕ → HbaPort}

theorem giveAddresses_fb (hbelow : fis + rcvdFisSize ≤ 2 ^ 32) (hi : i < 32) (cmdList : Word)
    (port : HbaPort) :
    (giveAddresses cmdList (BitVec.ofNat 64 fis) i port).fb.toNat = fis + rcvdFisLength * i := by
  unfold rcvdFisSize at hbelow
  rw [giveAddresses]
  dsimp only
  rw [BitVec.toNat_add, BitVec.toNat_setWidth, BitVec.toNat_ofNat, BitVec.toNat_ofNat]
  unfold rcvdFisLength
  omega

theorem allocMemForHba_eq (hk : kmalloc h (cmdListSize + 128) = some (list, h₁))
    (hk' : kmallocAlignas h₁ rcvdFisSize 0x1000 = some (fis, h₂)) (ports : ℕ → HbaPort) (pi : BitVec 32) :
    ∃ t, allocMemForHba portFile h pi ⟨ports, []⟩ = some (h₂, .ok t) ∧
      t.device = forPorts pi (giveAddresses (alignAs (BitVec.ofNat 64 list) 128) (BitVec.ofNat 64 fis))
        ports 32 ∧ t.written = portWrites pi {.clb, .fb, .cmd} := by
  obtain ⟨t, ht, hdevice⟩ := assignPorts_portFile (alignAs (BitVec.ofNat 64 list) 128)
    (BitVec.ofNat 64 fis) pi ports
  refine ⟨t, ?_, hdevice, ?_⟩
  · rw [allocMemForHba, hk, Option.bind_some]
    dsimp only
    rw [hk', Option.map_some, ht]
  · rw [(writes_assignPorts ..).ok ht]
    simp [Session.written]

def assigned (list fis i : ℕ) (port : HbaPort) : HbaPort :=
  giveAddresses (alignAs (BitVec.ofNat 64 list) 128) (BitVec.ofNat 64 fis) i port

theorem assigned_of_bit {t : ℕ → HbaPort}
    (hdevice : t = forPorts pi (giveAddresses (alignAs (BitVec.ofNat 64 list) 128) (BitVec.ofNat 64 fis)) ports 32)
    (hi : pi.getLsbD i = true) : t i = assigned list fis i (ports i) := by
  have hne := shift_ne_zero_iff.mpr ⟨i, le_refl i, hi⟩
  rw [hdevice, forPorts_eq, if_pos ⟨BitVec.lt_of_getLsbD hi, hne⟩, assigned]

theorem first_port_alone (hb : Blocks list fis) (hi : i < 32) {port : HbaPort}
    (hmod : (assigned list fis i port).fb.toNat % 256 = 0) : i = 0 := by
  have haligned := hb.aligned
  rw [assigned, giveAddresses_fb hb.fis_below hi] at hmod
  unfold rcvdFisLength at hmod
  omega

theorem eq_one_of_bits (hpi : pi ≠ 0) (honly : ∀ i, pi.getLsbD i = true → i = 0) : pi = 1 := by
  have hfirst : pi >>> 0 ≠ 0 := by simpa using hpi
  obtain ⟨j, -, hj⟩ := shift_ne_zero_iff.mp hfirst
  obtain rfl := honly j hj
  apply BitVec.eq_of_getLsbD_eq
  intro i _
  have hiff : pi.getLsbD i = true ↔ i = 0 := ⟨honly i, fun h0 => h0 ▸ hj⟩
  have hone : (1 : BitVec 32).getLsbD i = decide (i = 0) := by simp [BitVec.getLsbD_one]
  rw [hone, Bool.eq_iff_iff, hiff, decide_eq_true_iff]

theorem areasRight_one (hb : Blocks list fis) {t : ℕ → HbaPort} (hport : t 0 = assigned list fis 0 (ports 0))
    (hmod : (list + (128 - list % 128)) % 1024 = 0) : AreasRight 1 list fis t := by
  have honly : ∀ i, (1 : BitVec 32).getLsbD i = true → i = 0 := by simp [BitVec.getLsbD_one]
  have hclb := giveAddresses_clb hb.list_below (show 0 < 32 by decide) (BitVec.ofNat 64 fis) (ports 0)
  have hfb := giveAddresses_fb hb.fis_below (show 0 < 32 by decide)
    (alignAs (BitVec.ofNat 64 list) 128) (ports 0)
  rw [← assigned, ← hport] at hclb hfb
  have haligned := hb.aligned
  have hapart := hb.apart
  simp only [cmdListSize, rcvdFisSize] at hapart
  constructor
  · intro i hi
    obtain rfl := honly i hi
    unfold cmdListSize
    omega
  · intro i hi
    obtain rfl := honly i hi
    unfold rcvdFisSize
    omega
  · have himp : implemented 1 = [0] := by decide
    have hareas : (implemented 1).flatMap (fun i => (t i).areas) =
        [⟨(t 0).clb.toNat, 1024⟩, ⟨(t 0).fb.toNat, 256⟩] := by
      rw [himp]
      rfl
    rw [hareas, List.pairwise_pair, Span.Disjoint]
    simp only
    omega

theorem areasRight_zero (list fis : ℕ) (t : ℕ → HbaPort) : AreasRight 0 list fis t := by
  have hnone : ∀ i, (0 : BitVec 32).getLsbD i ≠ true := by simp
  exact ⟨fun i hi => absurd hi (hnone i), fun i hi => absurd hi (hnone i), by simp [implemented]⟩

theorem areas_right_iff (hb : Blocks list fis) {t : ℕ → HbaPort}
    (hdevice : t = forPorts pi (giveAddresses (alignAs (BitVec.ofNat 64 list) 128) (BitVec.ofNat 64 fis)) ports 32) :
    AreasRight pi list fis t ↔ pi = 0 ∨ pi = 1 ∧ (list + (128 - list % 128)) % 1024 = 0 := by
  constructor
  · rintro ⟨hlists, hreceived, -⟩
    by_cases hpi : pi = 0
    · exact .inl hpi
    · have hone : pi = 1 := by
        apply eq_one_of_bits hpi
        intro i hi
        have hmod := (hreceived i hi).1
        rw [assigned_of_bit hdevice hi] at hmod
        exact first_port_alone hb (BitVec.lt_of_getLsbD hi) hmod
      have hbit : pi.getLsbD 0 = true := hone ▸ rfl
      have hmod := (hlists 0 hbit).1
      rw [assigned_of_bit hdevice hbit, assigned, giveAddresses_clb hb.list_below (by decide)] at hmod
      exact .inr ⟨hone, hmod⟩
  · rintro (rfl | ⟨rfl, hmod⟩)
    · exact areasRight_zero list fis t
    · exact areasRight_one hb (assigned_of_bit hdevice rfl) hmod

theorem WellFormed.port_blocks (hw : WellFormed h free live) : ∃ list h₁,
    kmalloc h (cmdListSize + 128) = some (list, h₁) ∧
      kmallocAlignas h₁ rcvdFisSize 0x1000 = some (0, h₁) := by
  have hsize : (0 : ℤ) ≤ (cmdListSize + 128 : ℕ) ∧ ((cmdListSize + 128 : ℕ) : ℤ) ≤ 2 ^ 31 - 16 := by decide
  obtain ⟨list, h₁, hk, -, hnull, hblock⟩ := hw.kmalloc_answers hsize.1 hsize.2
  obtain ⟨free₁, live₁, hw₁⟩ : ∃ free₁ live₁, WellFormed h₁ free₁ live₁ := by
    by_cases h0 : list = 0
    · exact ⟨free, live, hnull h0 ▸ hw⟩
    · obtain ⟨-, -, -, free₁, hw₁, -⟩ := hblock h0
      exact ⟨free₁, _, hw₁⟩
  push_cast at hk
  have hlong : 0x1000 + blkSize < blkSize * nunits rcvdFisSize := by decide
  exact ⟨list, h₁, hk, hw₁.kmallocAlignas_long (by decide) (by decide) (by decide) hlong⟩

/-- `kmalloc_alignas` never has a block for the received FISes, and `alloc_mem_for_ports` does not look
at its answer: with an implemented port it gives addresses. -/
theorem memory_right_iff (hw : WellFormed h free live) (ports : ℕ → HbaPort) (pi : BitVec 32) :
    MemoryRight h ports pi ↔ pi = 0 := by
  obtain ⟨list, h₁, hk, hk'⟩ := hw.port_blocks
  obtain ⟨t, ht, -, hwritten⟩ := allocMemForHba_eq hk hk' ports pi
  constructor
  · rintro ⟨list', h₁', fis', h₂', t', hk₁, hk₂, ht', -, hnull⟩
    obtain ⟨rfl, rfl⟩ := Prod.mk.inj (Option.some.inj (hk.symm.trans hk₁))
    obtain ⟨rfl, rfl⟩ := Prod.mk.inj (Option.some.inj (hk'.symm.trans hk₂))
    obtain ⟨-, heq⟩ := Prod.mk.inj (Option.some.inj (ht.symm.trans ht'))
    obtain rfl := Except.ok.inj heq
    by_contra hpi
    have hfirst : pi >>> 0 ≠ 0 := by simpa using hpi
    have hnone := (hnull (.inr rfl) 0).1
    rw [hwritten] at hnone
    exact hnone ⟨0, by decide, hfirst, .clb, .inl rfl, rfl⟩
  · rintro rfl
    have hnone : ∀ r, r ∉ portWrites 0 {.clb, .fb, .cmd} := fun _ ⟨_, _, hne, _⟩ => by simp at hne
    refine ⟨list, h₁, 0, h₁, t, hk, hk', ht, fun _ hne => absurd rfl hne, fun _ i => ?_⟩
    rw [hwritten]
    exact ⟨hnone _, hnone _⟩

end Memory

section Example

theorem memory_right_iff_example : MemoryRight freshHeap (fun _ => ⟨0, 0, 0, 0, 0⟩) 0 :=
  (memory_right_iff freshHeap_wellFormed _ _).mpr rfl

/-- The area of port 0 for received FISes begins at 0, and that of port 1 at 264. -/
theorem received_fis_at_null : ∃ h t, allocMemForHba portFile freshHeap 3 ⟨fun _ => ⟨0, 0, 0, 0, 0⟩, []⟩ =
      some (h, .ok t) ∧ (t.device 0).fb = 0 ∧ (t.device 1).fb = 264 ∧ .port 0 .fb ∈ t.written ∧
    ¬ MemoryRight freshHeap (fun _ => ⟨0, 0, 0, 0, 0⟩) 3 := by
  obtain ⟨list, h₁, hk, hk'⟩ := freshHeap_wellFormed.port_blocks
  obtain ⟨t, ht, hdevice, hwritten⟩ := allocMemForHba_eq hk hk' (fun _ => ⟨0, 0, 0, 0, 0⟩) 3
  have htest : ∀ i, i < 2 → (3 : BitVec 32) >>> i ≠ 0 := by decide
  have hfb : ∀ i, i < 2 → (t.device i).fb = BitVec.ofNat 32 (264 * i) := by
    intro i hi
    rw [hdevice, forPorts_eq, if_pos ⟨by omega, htest i hi⟩, giveAddresses]
    simp [rcvdFisLength]
  have hgiven : .port 0 .fb ∈ t.written := by
    rw [hwritten]
    exact ⟨0, by decide, by decide, .fb, .inr (.inl rfl), rfl⟩
  refine ⟨h₁, t, ht, hfb 0 (by decide), hfb 1 (by decide), hgiven, ?_⟩
  rintro ⟨list', h₁', fis', h₂', t', hk₁, hk₂, ht', -, hnull⟩
  obtain ⟨rfl, rfl⟩ := Prod.mk.inj (Option.some.inj (hk.symm.trans hk₁))
  obtain ⟨rfl, rfl⟩ := Prod.mk.inj (Option.some.inj (hk'.symm.trans hk₂))
  obtain ⟨-, heq⟩ := Prod.mk.inj (Option.some.inj (ht.symm.trans ht'))
  obtain rfl := Except.ok.inj heq
  exact (hnull (.inr rfl) 0).2 hgiven

end Example

end MinOS
