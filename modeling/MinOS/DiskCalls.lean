import MinOS.AhciProgress

namespace MinOS

open Library.Words Library.Arrays Library.Fields Library.Images Library.Programs

inductive DiskCall where
  | read (startLba : BitVec 64) (count : BitVec 16) (buf : Word)
  | write (startLba : BitVec 64) (count : BitVec 16) (buf : Word)

namespace DiskCall

def params : DiskCall → CmdParams
  | read startLba count buf => readParams startLba count buf
  | write startLba count buf => writeParams startLba count buf

def code (cmdTblBase : Word) (fuel portno : ℕ) : DiskCall → Program AhciMachine ℤ
  | read startLba count buf => AhciCode.ahciRead cmdTblBase fuel portno startLba count buf
  | write startLba count buf => AhciCode.ahciWrite cmdTblBase fuel portno startLba count buf

def effect (x : Memory × Disk) : DiskCall → Memory × Disk
  | read startLba count buf =>
    (storeBytes x.1 buf (fun i => x.2 (512 * startLba.toNat + i)) (512 * count.toNat), x.2)
  | write startLba count buf =>
    (x.1, fun k =>
      if 512 * startLba.toNat ≤ k ∧ k < 512 * startLba.toNat + 512 * count.toNat then
        x.1 (offset buf (k - 512 * startLba.toNat))
      else x.2 k)

structure Valid (cmdTblBase : Word) (port : HbaPort) (c : DiskCall) : Prop where
  params : c.params.Valid
  buffer : ∀ z, InRegion c.params.dba c.params.length z → ¬ Scratch cmdTblBase port z

def Spares (startLba : BitVec 64) (count : BitVec 16) : DiskCall → Prop
  | read _ _ _ => True
  | write l n _ => l.toNat + n.toNat ≤ startLba.toNat ∨ startLba.toNat + count.toNat ≤ l.toNat

end DiskCall

def runCalls (cmdTblBase : Word) (fuel portno : ℕ) : List DiskCall → Program AhciMachine Unit
  | [] => pure ()
  | c :: cs => do
    let _ ← c.code cmdTblBase fuel portno
    runCalls cmdTblBase fuel portno cs

def effects (x : Memory × Disk) (cs : List DiskCall) : Memory × Disk := cs.foldl DiskCall.effect x

structure Idle (s : AhciMachine) : Prop where
  ci : s.port.ci = 0
  sact : s.port.sact = 0
  transfer : s.transfer = none

structure Stores (b : Word) (port : HbaPort) (x : Memory × Disk) (s : AhciMachine) : Prop where
  idle : Idle s
  clb : s.port.clb = port.clb
  fb : s.port.fb = port.fb
  disk : s.disk = x.2
  mem : ∀ z, ¬ Scratch b port z → s.mem z = x.1 z

variable {b pool buf : Word} {port : HbaPort} {x : Memory × Disk} {c : DiskCall} {cs : List DiskCall}
  {s t : AhciMachine} {fuel portno : ℕ} {r : ℤ} {startLba : BitVec 64} {count : BitVec 16}

theorem effect_eq_moved (c : DiskCall) (x : Memory × Disk) :
    c.effect x = c.params.moved c.params.length x := by
  cases c <;> rfl

theorem DiskCall.known (c : DiskCall) : c.params.cmdType = 0x25 ∨ c.params.cmdType = 0x35 := by
  cases c
  · exact .inl rfl
  · exact .inr rfl

theorem Stores.of_idle (h : Idle s) (b : Word) : Stores b s.port (s.mem, s.disk) s :=
  ⟨h, rfl, rfl, rfl, fun _ _ => rfl⟩

theorem scratch_congr (hclb : s.port.clb = port.clb) (hfb : s.port.fb = port.fb) :
    Scratch b s.port = Scratch b port := by
  unfold Scratch
  rw [hclb, hfb]

theorem Ready.congr (h : Ready b port) (hclb : s.port.clb = port.clb) : Ready b s.port := by
  refine ⟨h.aligned, h.below, h.positive, ?_⟩
  rw [Disjoined, hclb]
  exact h.disjoined

theorem Reserved.ready {pi : BitVec 32} {base i : ℕ} {d : AhciMemory} (h : Reserved pi base d) (hi : i < 32)
    (hpi : pi >>> i ≠ 0) : Ready d.cmdTblBase (d.ports i) := by
  obtain ⟨haligned, hstart, hstop, hbelow, hlists⟩ := h
  obtain ⟨hlow, hapart⟩ := hlists i hi hpi
  have hsize : 0 < cmdTblSize := by decide
  refine ⟨haligned, by omega, by omega, hlow, ?_⟩
  omega

theorem Stores.call (h : Stores b port x s) (hready : Ready b port) (hc : c.Valid b port)
    (hexec : Exec DeviceStep (c.code b fuel portno) s r t) : Stores b port (c.effect x) t := by
  obtain ⟨⟨hci, hsact, htransfer⟩, hclb, hfb, hdisk, hmem⟩ := h
  have hrest : Resting s s := ⟨hci, hsact, htransfer, rfl, rfl, rfl, rfl, rfl⟩
  have hscratch := scratch_congr (b := b) hclb hfb
  have hcode : c.code b fuel portno = AhciCode.transfer b fuel portno c.params := by
    cases c <;> rfl
  rw [hcode] at hexec
  obtain ⟨hci', htransfer', hfixed, hdisk', hmem'⟩ := triple_transfer hc.params c.known
    (hready.congr hclb) (by rw [hscratch]; exact hc.buffer) s r t hrest hexec
  rw [hscratch] at hmem'
  have hlen : c.params.length ≤ 2 ^ 64 := by
    have := hc.params.below
    unfold CmdParams.length
    omega
  have hsame := moved_congr (x := (s.mem, s.disk)) (y := x) hlen hc.buffer hmem hdisk
  refine ⟨⟨hci', hfixed.sact, htransfer'⟩, hfixed.clb.trans hclb, hfixed.fb.trans hfb, ?_, fun z hz => ?_⟩
  · rw [hdisk', hsame.1, effect_eq_moved]
  · rw [hmem' z hz, hsame.2 z hz, effect_eq_moved]

theorem Stores.calls (h : Stores b port x s) (hready : Ready b port) (hcs : ∀ c ∈ cs, c.Valid b port)
    (hexec : Exec DeviceStep (runCalls b fuel portno cs) s () t) : Stores b port (effects x cs) t := by
  induction cs generalizing x s with
  | nil =>
    obtain ⟨-, hreach⟩ := hexec
    -- the controller has nothing to do
    have hrest : Resting s s := ⟨h.idle.ci, h.idle.sact, h.idle.transfer, rfl, rfl, rfl, rfl, rfl⟩
    have ht := stable_resting.reach hrest hreach
    exact ⟨⟨ht.ci, ht.sact, ht.transfer⟩, ht.clb.trans h.clb, ht.fb.trans h.fb, ht.disk.trans h.disk,
      fun z hz => (congrArg (fun d => d.ram.mem z) ht.driver).trans (h.mem z hz)⟩
  | cons c cs ih =>
    obtain ⟨hc, hrest⟩ := List.forall_mem_cons.mp hcs
    obtain ⟨r, u, hfirst, hnext⟩ := Exec.bind_iff.mp hexec
    exact ih (h.call hready hc hfirst) hrest hnext

theorem exists_runCalls (h : Stores b port x s) (hready : Ready b port) (hcs : ∀ c ∈ cs, c.Valid b port)
    (portno : ℕ) : ∃ t, Exec DeviceStep (runCalls b 1 portno cs) s () t := by
  induction cs generalizing x s with
  | nil => exact ⟨s, rfl, .refl⟩
  | cons c cs ih =>
    obtain ⟨hc, hrest⟩ := List.forall_mem_cons.mp hcs
    have hresting : Resting s s :=
      ⟨h.idle.ci, h.idle.sact, h.idle.transfer, rfl, rfl, rfl, rfl, rfl⟩
    obtain ⟨u, hu⟩ := exists_transfer hc.params c.known (hready.congr h.clb) hresting portno
    have hcode : c.code b 1 portno = AhciCode.transfer b 1 portno c.params := by
      cases c <;> rfl
    rw [← hcode] at hu
    obtain ⟨t, ht⟩ := ih (h.call hready hc hu) hrest
    exact ⟨t, Exec.bind_iff.mpr ⟨1, u, hu, ht⟩⟩

/-- The calls can return, and whatever the controller does between the statements, calls that have
returned have copied their sectors one after the other. -/
theorem disk_calls_copy (hready : Ready b s.port) (hidle : Idle s) (hcs : ∀ c ∈ cs, c.Valid b s.port)
    (portno : ℕ) :
    (∃ t, Exec DeviceStep (runCalls b 1 portno cs) s () t) ∧
      ∀ fuel t, Exec DeviceStep (runCalls b fuel portno cs) s () t →
        t.disk = (effects (s.mem, s.disk) cs).2 ∧
          (∀ z, ¬ Scratch b s.port z → t.mem z = (effects (s.mem, s.disk) cs).1 z) ∧ Idle t := by
  refine ⟨exists_runCalls (Stores.of_idle hidle b) hready hcs portno, fun fuel t hexec => ?_⟩
  have h := (Stores.of_idle hidle b).calls hready hcs hexec
  exact ⟨h.disk, h.mem, h.idle⟩

def idleMachine : AhciMachine where
  driver := ⟨⟨fun a => a.setWidth 8, []⟩, []⟩
  pi := 1
  port := ⟨0x2000000, 0x2100000, 0, 0, 0⟩
  pxis := 0
  is := 0
  disk := fun _ => 0
  transfer := none

theorem idleMachine_ready : Ready 0x1000000 idleMachine.port where
  aligned := by decide
  below := by decide
  positive := by decide
  disjoined := by
    unfold Disjoined cmdTblSize prdtEntrySize prdtEntryMax idleMachine
    decide

theorem idleMachine_idle : Idle idleMachine := ⟨rfl, rfl, rfl⟩

theorem idleMachine_apart {z a : Word} {n : ℕ} (ha : 0x900000 ≤ a.toNat ∧ a.toNat + n ≤ 0xa00000)
    (hz : InRegion a n z) : ¬ Scratch 0x1000000 idleMachine.port z := by
  unfold Scratch InRegion cmdTblSize prdtEntrySize prdtEntryMax idleMachine at *
  bv_omega

def twoCalls : List DiskCall := .write 7 2 0x900000 :: [] ++ [.read 7 2 0x900000]

theorem twoCalls_valid : ∀ c ∈ twoCalls, c.Valid 0x1000000 idleMachine.port := by
  intro c hc
  rcases List.mem_pair.mp hc with rfl | rfl
  · exact ⟨⟨rfl, by decide, by decide, by decide, by decide, by decide⟩,
      fun z hz => idleMachine_apart (by decide) hz⟩
  · exact ⟨⟨rfl, by decide, by decide, by decide, by decide, by decide⟩,
      fun z hz => idleMachine_apart (by decide) hz⟩

theorem disk_calls_copy_two : ∃ t, Exec DeviceStep (runCalls 0x1000000 1 0 twoCalls) idleMachine () t ∧
    t.disk = (effects (idleMachine.mem, idleMachine.disk) twoCalls).2 ∧ Idle t := by
  obtain ⟨⟨t, ht⟩, hcopy⟩ := disk_calls_copy idleMachine_ready idleMachine_idle twoCalls_valid 0
  obtain ⟨hdisk, -, hidle⟩ := hcopy 1 t ht
  exact ⟨t, ht, hdisk, hidle⟩

section RoundTrip

variable {buf' : Word} {mid : List DiskCall} {i k : ℕ}

theorem effects_append (x : Memory × Disk) (cs cs' : List DiskCall) :
    effects x (cs ++ cs') = effects (effects x cs) cs' :=
  List.foldl_append

theorem effects_spared (h : ∀ c ∈ cs, c.Spares startLba count)
    (hk : 512 * startLba.toNat ≤ k ∧ k < 512 * startLba.toNat + 512 * count.toNat) :
    (effects x cs).2 k = x.2 k := by
  induction cs generalizing x with
  | nil => rfl
  | cons c cs ih =>
    obtain ⟨hc, hrest⟩ := List.forall_mem_cons.mp h
    have hsame : (c.effect x).2 k = x.2 k := by
      cases c with
      | read => rfl
      | write l n a =>
        unfold DiskCall.Spares at hc
        exact if_neg (by omega)
    exact (ih hrest).trans hsame

/-- What is written to sectors is read from them, as long as no other call writes to them. -/
theorem sectors_read_back (hready : Ready b s.port) (hidle : Idle s)
    (hvalid : ∀ c ∈ .write startLba count buf :: mid ++ [.read startLba count buf'], c.Valid b s.port)
    (hmid : ∀ c ∈ mid, c.Spares startLba count)
    (hexec : Exec DeviceStep
      (runCalls b fuel portno (.write startLba count buf :: mid ++ [.read startLba count buf'])) s () t) :
    ∀ i < 512 * count.toNat, t.mem (offset buf' i) = s.mem (offset buf i) := by
  have hmem := ((Stores.of_idle hidle b).calls hready hvalid hexec).mem
  have hread := hvalid (.read startLba count buf') (by simp)
  have hlen : 512 * count.toNat ≤ 2 ^ 64 := by
    have := count.isLt
    omega
  intro i hi
  have hin : InRegion buf' (512 * count.toNat) (offset buf' i) := by
    unfold InRegion offset
    bv_omega
  rw [hmem _ (hread.buffer _ hin), effects_append]
  change storeBytes _ buf' _ (512 * count.toNat) (offset buf' i) = _
  rw [storeBytes_eq _ hlen hi, show effects _ (DiskCall.write startLba count buf :: mid) =
    effects (DiskCall.effect (s.mem, s.disk) (.write startLba count buf)) mid from rfl,
    effects_spared hmid ⟨by omega, by omega⟩]
  refine (if_pos ⟨by omega, by omega⟩).trans ?_
  rw [Nat.add_sub_cancel_left]

def callsBetween : List DiskCall := [.write 9 1 0x920000, .read 8 2 0x900000]

theorem sectors_read_back_two : ∃ t, Exec DeviceStep (runCalls 0x1000000 1 0
      (.write 7 2 0x900000 :: callsBetween ++ [.read 7 2 0x910010])) idleMachine () t ∧
    (∀ i < 1024, t.mem (offset 0x910010 i) = idleMachine.mem (offset 0x900000 i)) ∧
    idleMachine.mem 0x910010 ≠ idleMachine.mem 0x900000 := by
  have hvalid : ∀ c ∈ .write 7 2 0x900000 :: callsBetween ++ [.read 7 2 0x910010],
      c.Valid 0x1000000 idleMachine.port := by
    intro c hc
    simp only [callsBetween, List.cons_append, List.nil_append, List.mem_cons, List.not_mem_nil, or_false] at hc
    rcases hc with rfl | rfl | rfl | rfl
    all_goals exact ⟨⟨rfl, by decide, by decide, by decide, by decide, by decide⟩,
      fun z hz => idleMachine_apart (by decide) hz⟩
  have hspares : ∀ c ∈ callsBetween, c.Spares 7 2 := by
    intro c hc
    rcases List.mem_pair.mp hc with rfl | rfl
    · exact .inr (by decide)
    · trivial
  obtain ⟨t, ht⟩ := exists_runCalls (Stores.of_idle idleMachine_idle 0x1000000) idleMachine_ready hvalid 0
  exact ⟨t, ht, sectors_read_back idleMachine_ready idleMachine_idle hvalid hspares ht, by decide⟩

end RoundTrip

section Bytes

variable {n offset' : ℕ}

theorem Resting.setMem {s₀ : AhciMachine} {m m' : Memory} (h : Resting (s₀.setMem m) s) :
    Resting (s₀.setMem m') (s.setMem m') := by
  obtain ⟨hci, hsact, htransfer, hdriver, hdisk, hclb, hfb, hpi⟩ := h
  refine ⟨hci, hsact, htransfer, ?_, hdisk, hclb, hfb, hpi⟩
  have hserial : s.driver.serial = s₀.driver.serial := congrArg (fun d => d.serial) hdriver
  have hstores : s.driver.ram.stores = s₀.driver.ram.stores := congrArg (fun d => d.ram.stores) hdriver
  simp [AhciMachine.setMem, hserial, hstores]

theorem triple_copyPool (s₀ : AhciMachine) (hapart : ∀ i < n, ∀ k ≤ n,
    ¬ InRegion buf k (offset pool (i + offset'))) :
    Triple DeviceStep (Resting s₀) (AhciCode.copyPool pool buf offset' n) (fun _ => Resting
      (s₀.setMem (storeBytes s₀.mem buf (fun i => s₀.mem (offset pool (i + offset'))) n))) := by
  induction n with
  | zero => exact .pure stable_resting (fun _ hs => hs)
  | succ n ih =>
    refine (ih (fun i hi k hk => hapart i (by omega) k (by omega))).bind (fun _ => ?_)
    refine (triple_fetch (Q := fun c s => Resting (s₀.setMem (storeBytes s₀.mem buf
      (fun i => s₀.mem (offset pool (i + offset'))) n)) s ∧ c = s₀.mem (offset pool (n + offset')))
      stable_resting (fun _ s t hs hstep => ⟨stable_resting s t hs.1 hstep, hs.2⟩) ?_).bind (fun c => ?_)
    · intro s hs
      refine ⟨hs, ?_⟩
      have hmem : s.mem = storeBytes s₀.mem buf (fun i => s₀.mem (offset pool (i + offset'))) n :=
        congrArg (fun d => d.ram.mem) hs.driver
      rw [hmem, storeBytes_other _ (hapart n (by omega) n (by omega))]
    · refine triple_assign (fun s t hs hstep => ⟨stable_resting s t hs.1 hstep, hs.2⟩) stable_resting ?_
      rintro s ⟨hs, rfl⟩
      have hmem : s.mem = storeBytes s₀.mem buf (fun i => s₀.mem (offset pool (i + offset'))) n :=
        congrArg (fun d => d.ram.mem) hs.driver
      rw [hmem]
      exact hs.setMem

theorem triple_probeImplPort (s₀ : AhciMachine) :
    Triple DeviceStep (Resting s₀) AhciCode.probeImplPort (fun _ => Resting s₀) := by
  refine (triple_fetch (Q := fun _ => Resting s₀) stable_resting (fun _ => stable_resting)
    (fun _ hs => hs)).bind (fun pi => .single stable_resting (fun _ => stable_resting) ?_)
  rintro s k t hs hx
  obtain ⟨_, _, hpair⟩ := Option.map_eq_some_iff.mp hx
  obtain ⟨-, rfl⟩ := Prod.mk.inj hpair
  exact hs

theorem exists_copyPool (pool buf : Word) (offset' n : ℕ) (s : AhciMachine) :
    ∃ t, Exec DeviceStep (AhciCode.copyPool pool buf offset' n) s () t := by
  induction n generalizing s with
  | zero => exact ⟨s, rfl, .refl⟩
  | succ n ih =>
    obtain ⟨t, ht⟩ := ih s
    exact ⟨_, Exec.bind_iff.mpr ⟨_, t, ht, Exec.bind_iff.mpr ⟨_, _, exec_fetch _ _, exec_assign _ _⟩⟩⟩

theorem implPortLoop_isSome {k n : ℕ} {pi : BitVec 32} (hk : k < n) (hbit : pi.getLsbD k = true) (i : ℕ) :
    ∃ j, AhciCode.implPortLoop pi i n = some j := by
  induction n generalizing pi i k with
  | zero => exact absurd hk (Nat.not_lt_zero k)
  | succ n ih =>
    rw [AhciCode.implPortLoop]
    split
    · exact ⟨i, rfl⟩
    · rename_i hlow
      cases k with
      | zero =>
        have hone : pi &&& 1 = 1 := by
          rw [show pi &&& 1 = _ from BitVec.and_one_eq_setWidth_ofBool_getLsbD, hbit]
          rfl
        exact absurd hone hlow
      | succ k => exact ih (Nat.lt_of_succ_lt_succ hk) (by simpa [Nat.add_comm] using hbit) (i + 1)

theorem exists_implPort {pi : BitVec 32} (hpi : pi ≠ 0) : ∃ k, AhciCode.implPortLoop pi 0 32 = some k := by
  by_contra hnone
  refine hpi (BitVec.eq_of_getLsbD_eq (fun i hi => ?_))
  have hbit : pi.getLsbD i = false := by
    by_contra hbit
    exact hnone (implPortLoop_isSome hi (by simpa using hbit) 0)
  rw [hbit]
  exact BitVec.getLsbD_zero.symm

theorem exists_ahciReadByte (hpi : s.pi ≠ 0)
    (hready : Ready b s.port) (hidle : Idle s) (hpool : (DiskCall.read startLba count pool).Valid b s.port)
    (buf : Word) (byte offset' : ℕ) : ∃ t,
      Exec DeviceStep (AhciCode.ahciReadByte b pool 1 startLba count buf byte offset') s () t := by
  obtain ⟨portno, hport⟩ := exists_implPort hpi
  have hprobe : Exec DeviceStep AhciCode.probeImplPort s portno s := by
    refine .of_run ?_
    rw [AhciCode.probeImplPort, Program.run_bind, AhciCode.fetch, Program.run_single, Option.bind_some,
      Program.run_single, hport]
    rfl
  obtain ⟨u, hu⟩ := exists_transfer hpool.params (.inl rfl) hready
    ⟨hidle.ci, hidle.sact, hidle.transfer, rfl, rfl, rfl, rfl, rfl⟩ portno
  obtain ⟨t, ht⟩ := exists_copyPool pool buf offset' byte u
  exact ⟨t, Exec.bind_iff.mpr ⟨portno, s, hprobe, Exec.bind_iff.mpr ⟨1, u, hu, ht⟩⟩⟩

/-- With a port implemented `ahci_read_byte` can return, and what it is taken for in the file system is
what it does with the controller. -/
theorem ahciReadByte_delivers {startSector : BitVec 64} {byte : ℕ} (hready : Ready b s.port)
    (hidle : Idle s) (hpi : s.pi ≠ 0) (hpool : (DiskCall.read startSector count pool).Valid b s.port)
    (hfits : offset' + byte ≤ 512 * count.toNat)
    (hapart : ∀ z, InRegion pool (512 * count.toNat) z → ¬ InRegion buf byte z) :
    (∃ t, Exec DeviceStep (AhciCode.ahciReadByte b pool 1 startSector count buf byte offset') s () t) ∧
      ∀ fuel t,
        Exec DeviceStep (AhciCode.ahciReadByte b pool fuel startSector count buf byte offset') s () t →
        ahciReadByte s.disk startSector.toNat count.toNat byte offset' =
            some (bytesAt (fun i => t.mem (offset buf i)) 0 byte) ∧ t.disk = s.disk ∧ Idle t ∧
          ∀ z, ¬ Scratch b s.port z → ¬ InRegion pool (512 * count.toNat) z → ¬ InRegion buf byte z →
            t.mem z = s.mem z := by
  refine ⟨exists_ahciReadByte hpi hready hidle hpool buf byte offset', fun fuel t hexec => ?_⟩
  have hcount : 512 * count.toNat < 2 ^ 64 := by
    have := count.isLt
    omega
  have hpoolAt : ∀ i, i < byte → InRegion pool (512 * count.toNat) (offset pool (i + offset')) := by
    intro i hi
    unfold InRegion offset
    bv_omega
  have hresting : Resting s s := ⟨hidle.ci, hidle.sact, hidle.transfer, rfl, rfl, rfl, rfl, rfl⟩
  obtain ⟨portno, u, hprobe, hrest⟩ := Exec.bind_iff.mp hexec
  obtain ⟨r, v, hread, hcopy⟩ := Exec.bind_iff.mp hrest
  have hu : Stores b s.port (s.mem, s.disk) u := by
    have h := triple_probeImplPort s s portno u hresting hprobe
    exact ⟨⟨h.ci, h.sact, h.transfer⟩, h.clb, h.fb, h.disk,
      fun z _ => congrArg (fun d => d.ram.mem z) h.driver⟩
  have hv : Stores b s.port (DiskCall.effect (s.mem, s.disk) (.read startSector count pool)) v :=
    hu.call (c := .read startSector count pool) hready hpool hread
  have ht := triple_copyPool v (fun i hi k hk hin => hapart _ (hpoolAt i hi) (hin.mono hk)) v () t
    ⟨hv.idle.ci, hv.idle.sact, hv.idle.transfer, rfl, rfl, rfl, rfl, rfl⟩ hcopy
  have hmem : ∀ z, t.mem z =
      storeBytes v.mem buf (fun i => v.mem (offset pool (i + offset'))) byte z :=
    fun z => congrArg (fun d => d.ram.mem z) ht.driver
  refine ⟨?_, ht.disk.trans hv.disk, ⟨ht.ci, ht.sact, ht.transfer⟩, fun z hz hzpool hzbuf => ?_⟩
  · rw [ahciReadByte, if_pos hfits, Option.some.injEq, bytesAt_eq_iff]
    intro i hi
    have hbyte : v.mem (offset pool (i + offset')) = s.disk (512 * startSector.toNat + (i + offset')) := by
      rw [hv.mem _ (hpool.buffer _ (hpoolAt i hi))]
      exact storeBytes_eq _ hcount.le (by omega)
    have hindex : 512 * startSector.toNat + offset' + i = 512 * startSector.toNat + (i + offset') := by
      omega
    rw [hmem, Nat.zero_add, storeBytes_eq _ (by omega) hi, hbyte, hindex]
  · rw [hmem, storeBytes_other _ hzbuf, hv.mem z hz]
    exact storeBytes_other _ hzpool

theorem ahciReadByte_delivers_superblock : ∃ t,
    Exec DeviceStep (AhciCode.ahciReadByte 0x1000000 0x900000 1 2 2 0xa00000 1024 0) idleMachine () t ∧
      ahciReadByte idleMachine.disk 2 2 1024 0 =
        some (bytesAt (fun i => t.mem (offset 0xa00000 i)) 0 1024) := by
  have hpool : (DiskCall.read 2 2 0x900000).Valid 0x1000000 idleMachine.port :=
    ⟨⟨rfl, by decide, by decide, by decide, by decide, by decide⟩,
      fun z hz => idleMachine_apart (by decide) hz⟩
  have hapart : ∀ z, InRegion 0x900000 1024 z → ¬ InRegion 0xa00000 1024 z := by
    intro z hz
    unfold InRegion at *
    bv_omega
  have hfits : 0 + 1024 ≤ 512 * (2 : BitVec 16).toNat := by decide
  obtain ⟨⟨t, ht⟩, hdelivers⟩ :=
    ahciReadByte_delivers idleMachine_ready idleMachine_idle (by decide) hpool hfits hapart
  exact ⟨t, ht, (hdelivers 1 t ht).1⟩

end Bytes

end MinOS
