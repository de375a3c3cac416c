import MinOS.AhciDevice

namespace MinOS

open Library.Words Library.Arrays Library.Fields Library.Tilings Library.Programs

variable {params : CmdParams} {b : Word} {s₀ s t : AhciMachine} {x y : Memory × Disk} {n k : ℕ}

section Effects

def CmdParams.moved (params : CmdParams) (n : ℕ) (x : Memory × Disk) : Memory × Disk :=
  let sector := 512 * params.lba.toNat
  if params.cmdType = 0x25 then (storeBytes x.1 params.dba (fun i => x.2 (sector + i)) n, x.2)
  else (x.1, fun k => if sector ≤ k ∧ k < sector + n then x.1 (offset params.dba (k - sector)) else x.2 k)

def CmdParams.length (params : CmdParams) : ℕ := 512 * params.count.toNat

theorem storeBytes_apply {m : Memory} {a z : Word} (f : ℕ → BitVec 8) (hn : n ≤ 2 ^ 64) :
    storeBytes m a f n z = if InRegion a n z then f (z - a).toNat else m z := by
  by_cases hz : InRegion a n z
  · have hoff : offset a (z - a).toNat = z := by
      unfold offset
      bv_omega
    have hbyte := storeBytes_eq (m := m) (a := a) f hn (show (z - a).toNat < n from hz)
    rw [hoff] at hbyte
    rw [hbyte, if_pos hz]
  · rw [storeBytes_other f hz, if_neg hz]

theorem storeBytes_add (m : Memory) (a : Word) (f : ℕ → BitVec 8) (k n : ℕ) :
    storeBytes (storeBytes m a f k) (offset a k) (fun i => f (k + i)) n = storeBytes m a f (k + n) := by
  induction n with
  | zero => rfl
  | succ n ih => rw [storeBytes, ih, offset_offset, ← Nat.add_assoc, storeBytes]

theorem move_moved {r : Request} {span : Span} (hr : r.Asks params) (hv : params.Valid)
    (hknown : params.cmdType = 0x25 ∨ params.cmdType = 0x35) (hstart : span.start = params.dba.toNat + n)
    (hfits : n + span.length ≤ params.length) :
    r.move n span (params.moved n x) = params.moved (n + span.length) x := by
  have hcount := hv.count
  have hbytes : r.bytes = params.length := by
    rw [Request.bytes, hr.count, if_neg (by omega), CmdParams.length]
  have hmin : min span.length (r.bytes - n) = span.length := by omega
  have hstart' : BitVec.ofNat 64 span.start = offset params.dba n := by
    rw [hstart, offset, BitVec.ofNat_add, BitVec.ofNat_toNat, BitVec.setWidth_eq]
  have hadd : ∀ i, 512 * params.lba.toNat + n + i = 512 * params.lba.toNat + (n + i) := by
    intro i
    omega
  rw [Request.move, hmin, hr.command, hr.lba, hstart']
  rcases hknown with hread | hwrite
  · have hcode : (0x25 : BitVec 8).toNat = 0x25 := rfl
    simp only [CmdParams.moved, hread, hcode, if_true, hadd]
    rw [storeBytes_add _ _ (fun i => x.2 (512 * params.lba.toNat + i))]
  · have hcode : (0x35 : BitVec 8).toNat ≠ 0x25 := by decide
    have hcmd : (0x35 : BitVec 8) ≠ 0x25 := by decide
    simp only [CmdParams.moved, hwrite, hcode, hcmd, if_false]
    refine Prod.ext rfl (funext fun k => ?_)
    dsimp only
    by_cases hlate : 512 * params.lba.toNat + n ≤ k ∧ k < 512 * params.lba.toNat + n + span.length
    · have hback : n + (k - (512 * params.lba.toNat + n)) = k - 512 * params.lba.toNat := by omega
      rw [if_pos hlate, if_pos (by omega), offset_offset, hback]
    · rw [if_neg hlate]
      by_cases hearly : 512 * params.lba.toNat ≤ k ∧ k < 512 * params.lba.toNat + n
      · rw [if_pos hearly, if_pos (by omega)]
      · rw [if_neg hearly, if_neg (by omega)]

theorem moved_congr {scratch : Word → Prop} (hn : n ≤ 2 ^ 64)
    (hbuf : ∀ z, InRegion params.dba n z → ¬ scratch z) (hmem : ∀ z, ¬ scratch z → x.1 z = y.1 z)
    (hdisk : x.2 = y.2) : (params.moved n x).2 = (params.moved n y).2 ∧
      ∀ z, ¬ scratch z → (params.moved n x).1 z = (params.moved n y).1 z := by
  simp only [CmdParams.moved, hdisk]
  by_cases hread : params.cmdType = 0x25
  · simp only [if_pos hread, storeBytes_apply _ hn, true_and]
    intro z hz
    split_ifs
    · rfl
    · exact hmem z hz
  · simp only [if_neg hread]
    refine ⟨funext fun k => ?_, hmem⟩
    split_ifs with hk
    · apply hmem
      apply hbuf
      unfold InRegion offset
      bv_omega
    · rfl

end Effects

section Assertions

structure Resting (s₀ s : AhciMachine) : Prop where
  ci : s.port.ci = 0
  sact : s.port.sact = 0
  transfer : s.transfer = none
  driver : s.driver = s₀.driver
  disk : s.disk = s₀.disk
  clb : s.port.clb = s₀.port.clb
  fb : s.port.fb = s₀.port.fb
  pi : s.pi = s₀.pi

theorem stable_resting : Stable DeviceStep (Resting s₀) := by
  rintro s t ⟨hci, hsact, htransfer, hdriver, hdisk, hclb, hfb, hpi⟩ hstep
  cases hstep with
  | start => exact ⟨hci, hsact, htransfer, hdriver, hdisk, hclb, hfb, hpi⟩
  | stop => exact ⟨hci, hsact, rfl, hdriver, hdisk, hclb, hfb, hpi⟩
  | receive => exact ⟨hci, hsact, htransfer, hdriver, hdisk, hclb, hfb, hpi⟩
  | fetch slot _ _ _ hbit =>
    rw [hci] at hbit
    simp at hbit
  | move _ _ _ hsome => simp [htransfer] at hsome
  | complete _ _ hsome => simp [htransfer] at hsome
  | raise => exact ⟨hci, hsact, htransfer, hdriver, hdisk, hclb, hfb, hpi⟩

theorem stable_started : Stable DeviceStep (fun s => s.started = true) := by
  intro s t hs hstep
  unfold AhciMachine.started at hs ⊢
  cases hstep with
  | start => simp [hs]
  | stop hnot =>
    rw [AhciMachine.started, hs] at hnot
    cases hnot
  | receive on => simp [hs]
  | fetch => exact hs
  | move => exact hs
  | complete => exact hs
  | raise => exact hs

theorem Resting.writeCmd (h : Resting s₀ s) (v : BitVec 32) : Resting s₀ (s.writeCmd v) := by
  obtain ⟨hci, hsact, htransfer, hdriver, hdisk, hclb, hfb, hpi⟩ := h
  rw [AhciMachine.writeCmd]
  split_ifs
  · exact ⟨rfl, rfl, htransfer, hdriver, hdisk, hclb, hfb, hpi⟩
  · exact ⟨hci, hsact, htransfer, hdriver, hdisk, hclb, hfb, hpi⟩

theorem started_writeCmd (s : AhciMachine) (v : BitVec 32) : (s.writeCmd v).started = v.getLsbD 0 := by
  unfold AhciMachine.writeCmd AhciMachine.started
  split_ifs <;> simp

inductive UnderWay (params : CmdParams) (s₀ s : AhciMachine) : Prop
  | pending : s.port.ci = 1 → s.transfer = none → s.driver = s₀.driver → s.disk = s₀.disk →
      UnderWay params s₀ s
  | moving (t : Transfer) : s.port.ci = 1 → s.transfer = some t → t.slot = 0 → t.request.Asks params →
      (s.mem, s.disk) = params.moved t.done (s₀.mem, s₀.disk) →
      Consecutive t.rest (params.dba.toNat + t.done) (params.dba.toNat + params.length) →
      UnderWay params s₀ s
  | finished : s.port.ci = 0 → s.transfer = none →
      s.disk = (params.moved params.length (s₀.mem, s₀.disk)).2 →
      (∀ z, ¬ Reported s₀.port 0 z → s.mem z = (params.moved params.length (s₀.mem, s₀.disk)).1 z) →
      UnderWay params s₀ s

structure Fixed (s₀ s : AhciMachine) : Prop where
  sact : s.port.sact = 0
  serial : s.driver.serial = s₀.driver.serial
  clb : s.port.clb = s₀.port.clb
  fb : s.port.fb = s₀.port.fb
  pi : s.pi = s₀.pi

theorem stable_fixed : Stable DeviceStep (Fixed s₀) := by
  rintro s t ⟨hsact, hserial, hclb, hfb, hpi⟩ hstep
  cases hstep <;> exact ⟨hsact, hserial, hclb, hfb, hpi⟩

theorem stable_underWay (hv : params.Valid) (hknown : params.cmdType = 0x25 ∨ params.cmdType = 0x35)
    (hasks : (readRequest s₀.mem s₀.port.clb 0).Asks params) :
    Stable DeviceStep (fun s => (UnderWay params s₀ s ∧ Fixed s₀ s) ∧ s.started = true) := by
  rintro s t ⟨⟨hway, hfixed⟩, hstarted⟩ hstep
  have hrest := (stable_fixed.and stable_started) s t ⟨hfixed, hstarted⟩ hstep
  refine ⟨⟨?_, hrest.1⟩, hrest.2⟩
  cases hway with
  | pending hci htransfer hdriver hdisk =>
    cases hstep with
    | start => exact .pending hci htransfer hdriver hdisk
    | stop hnot => simp [hstarted] at hnot
    | receive => exact .pending hci htransfer hdriver hdisk
    | fetch slot _ _ _ hbit =>
      have hslot : slot = 0 := by
        rw [hci] at hbit
        simpa using hbit
      subst hslot
      have hmem : s.mem = s₀.mem := congrArg (fun d => d.ram.mem) hdriver
      have hr : (readRequest s.mem s.port.clb 0).Asks params := by
        rwa [hmem, hfixed.clb]
      refine .moving _ hci rfl rfl hr ?_ hr.consecutive
      change (s.mem, s.disk) = params.moved 0 (s₀.mem, s₀.disk)
      rw [hmem, hdisk, CmdParams.moved]
      split_ifs
      · rfl
      · refine Prod.ext rfl (funext fun k => ?_)
        exact (if_neg (by omega)).symm
    | move _ _ _ hsome => simp [htransfer] at hsome
    | complete _ _ hsome => simp [htransfer] at hsome
    | raise => exact .pending hci htransfer hdriver hdisk
  | moving u hci htransfer hslot hr hmoved hcons =>
    cases hstep with
    | start => exact .moving u hci htransfer hslot hr hmoved hcons
    | stop hnot => simp [hstarted] at hnot
    | receive => exact .moving u hci htransfer hslot hr hmoved hcons
    | fetch _ _ _ hnone => simp [htransfer] at hnone
    | move v span rest hsome hspans =>
      obtain rfl : u = v := Option.some.inj (htransfer.symm.trans hsome)
      rw [hspans] at hcons
      have hle := hcons.2.le
      have hnext := move_moved hr hv hknown (x := (s₀.mem, s₀.disk)) hcons.1 (by omega)
      rw [← hmoved] at hnext
      refine .moving _ hci rfl hslot hr hnext ?_
      rw [← Nat.add_assoc]
      exact hcons.2
    | complete v m hsome hnone hm =>
      obtain rfl : u = v := Option.some.inj (htransfer.symm.trans hsome)
      rw [hnone] at hcons
      have hdone : u.done = params.length := Nat.add_left_cancel hcons
      rw [hdone] at hmoved
      refine .finished ?_ rfl (congrArg Prod.snd hmoved) (fun z hz => ?_)
      · change s.port.ci &&& ~~~(1#32 <<< u.slot) = 0
        rw [hci, hslot]
        rfl
      · have hkept : m z = s.mem z := by
          apply hm
          rw [hslot]
          unfold Reported at hz ⊢
          rwa [hfixed.clb, hfixed.fb]
        exact hkept.trans (congrFun (congrArg Prod.fst hmoved) z)
    | raise => exact .moving u hci htransfer hslot hr hmoved hcons
  | finished hci htransfer hdisk hmem =>
    cases hstep with
    | start => exact .finished hci htransfer hdisk hmem
    | stop hnot => simp [hstarted] at hnot
    | receive => exact .finished hci htransfer hdisk hmem
    | fetch slot _ _ _ hbit =>
      rw [hci] at hbit
      simp at hbit
    | move _ _ _ hsome => simp [htransfer] at hsome
    | complete _ _ hsome => simp [htransfer] at hsome
    | raise => exact .finished hci htransfer hdisk hmem

end Assertions

section Code

open AhciCode

variable {P Q : AhciMachine → Prop} {fuel portno : ℕ}

theorem triple_fetch {α : Type} {f : AhciMachine → α} {Q : α → AhciMachine → Prop}
    (hP : Stable DeviceStep P) (hQ : ∀ a, Stable DeviceStep (Q a)) (h : ∀ s, P s → Q (f s) s) :
    Triple DeviceStep P (fetch f) Q := by
  refine .single hP hQ ?_
  rintro s _ _ hs hx
  obtain ⟨rfl, rfl⟩ := Prod.mk.inj (Option.some.inj hx)
  exact h s hs

theorem triple_assign {f : AhciMachine → AhciMachine} (hP : Stable DeviceStep P)
    (hQ : Stable DeviceStep Q) (h : ∀ s, P s → Q (f s)) :
    Triple DeviceStep P (assign f) (fun _ => Q) := by
  refine .single hP (fun _ => hQ) ?_
  rintro s _ _ hs hx
  obtain ⟨-, rfl⟩ := Prod.mk.inj (Option.some.inj hx)
  exact h s hs

theorem triple_modify {α : Type} {f : AhciMachine → α} {g : α → AhciMachine → AhciMachine}
    (hP : Stable DeviceStep P) (hQ : Stable DeviceStep Q) (h : ∀ v s, P s → Q (g v s)) :
    Triple DeviceStep P (fetch f >>= fun v => assign (g v)) (fun _ => Q) :=
  (triple_fetch (Q := fun _ => P) hP (fun _ => hP) (fun _ hs => hs)).bind
    (fun v => triple_assign hP hQ (h v))

theorem triple_startCmd (s₀ : AhciMachine) (fuel : ℕ) : Triple DeviceStep (Resting s₀) (startCmd fuel)
    (fun _ s => Resting s₀ s ∧ s.started = true) := by
  have hmodify : ∀ g : BitVec 32 → BitVec 32, Triple DeviceStep (Resting s₀)
      (fetch (fun s => s.port.cmd) >>= fun cmd => assign (AhciMachine.writeCmd (g cmd)))
      (fun _ => Resting s₀) :=
    fun g => triple_modify stable_resting stable_resting (fun v _ hs => hs.writeCmd (g v))
  have hstart : Triple DeviceStep (Resting s₀)
      (fetch (fun s => s.port.cmd) >>= fun cmd => assign (AhciMachine.writeCmd (cmd ||| 0x01)))
      (fun _ s => Resting s₀ s ∧ s.started = true) := by
    refine triple_modify stable_resting (stable_resting.and stable_started) (fun v s hs => ?_)
    refine ⟨hs.writeCmd _, ?_⟩
    rw [started_writeCmd]
    simp
  have hwait : Triple DeviceStep (Resting s₀)
      (Program.spin (fun s : AhciMachine => decide (s.port.cmd &&& 0x8000 ≠ 0)) fuel)
      (fun _ => Resting s₀) :=
    .spin stable_resting stable_resting (fun _ hs _ => hs) fuel
  exact (hmodify _).bind (fun _ => hwait.bind (fun _ => (hmodify _).bind (fun _ => hstart)))

def builtDriver (b : Word) (params : CmdParams) (port : HbaPort) (d : DriverState) : DriverState :=
  ⟨headerRam b port params (buildPrdt params b (cfisTable params b d.ram)), d.serial⟩

def AhciMachine.built (b : Word) (params : CmdParams) (s : AhciMachine) : AhciMachine :=
  { s with driver := builtDriver b params s.port s.driver }

structure Ready (b : Word) (port : HbaPort) : Prop where
  aligned : b.toNat % 128 = 0
  below : b.toNat < 2 ^ 32
  positive : 0 < b.toNat
  disjoined : Disjoined b port

theorem triple_buildTables (hv : params.Valid) (hready : Ready b s₀.port) :
    Triple DeviceStep (fun s => Resting s₀ s ∧ s.started = true) (buildTables b 0 params)
      (fun _ s => Resting (s₀.built b params) s ∧ s.started = true) := by
  refine .single (stable_resting.and stable_started) (fun _ => stable_resting.and stable_started) ?_
  rintro s _ t ⟨⟨hci, hsact, htransfer, hdriver, hdisk, hclb, hfb, hpi⟩, hstarted⟩ hx
  have hheader : ∀ u, headerRam b s.port params u = headerRam b s₀.port params u := by
    intro u
    rw [headerRam, headerRam, hclb]
  rw [buildCmdTable_eq hv, Except.bind,
    buildCmdheader_eq (isAligned_base hready.aligned hready.positive)] at hx
  obtain ⟨-, rfl⟩ := Prod.mk.inj (Option.some.inj hx)
  refine ⟨⟨hci, hsact, htransfer, ?_, hdisk, hclb, hfb, hpi⟩, hstarted⟩
  change (⟨headerRam b s.port params _, s.driver.serial⟩ : DriverState) = builtDriver b params s₀.port s₀.driver
  rw [hheader, hdriver, builtDriver]

theorem asks_built (hv : params.Valid) (hready : Ready b s.port) :
    (readRequest (s.built b params).mem (s.built b params).port.clb 0).Asks params :=
  buildCommand_asks hv hready.disjoined hready.below s.driver.ram

theorem triple_buildCommand (hv : params.Valid) (hknown : params.cmdType = 0x25 ∨ params.cmdType = 0x35)
    (hready : Ready b s₀.port) :
    Triple DeviceStep (fun s => Resting s₀ s ∧ s.started = true) (AhciCode.buildCommand b params)
      (fun _ s => (UnderWay params (s₀.built b params) s ∧ Fixed (s₀.built b params) s) ∧
        s.started = true) := by
  have hrest : ∀ s₀, Stable DeviceStep (fun s => Resting s₀ s ∧ s.started = true) :=
    fun _ => stable_resting.and stable_started
  have hvalue : ∀ (s₀ : AhciMachine) (p : Prop),
      Stable DeviceStep (fun s => (Resting s₀ s ∧ s.started = true) ∧ p) :=
    fun s₀ p s t hs hstep => ⟨hrest s₀ s t hs.1 hstep, hs.2⟩
  refine (triple_fetch (Q := fun ci s => (Resting s₀ s ∧ s.started = true) ∧ ci = 0) (hrest s₀)
    (fun _ => hvalue s₀ _) (fun s hs => ⟨hs, hs.1.ci⟩)).bind (fun ci => ?_)
  refine (triple_fetch (Q := fun sact s => (Resting s₀ s ∧ s.started = true) ∧ ci = 0 ∧ sact = 0)
    (hvalue s₀ _) (fun _ => hvalue s₀ _) (fun s hs => ⟨hs.1, hs.2, hs.1.1.sact⟩)).bind (fun sact => ?_)
  refine Triple.bind (Q := fun slot s => (Resting s₀ s ∧ s.started = true) ∧ slot = 0)
    (.single (hvalue s₀ _) (fun _ => hvalue s₀ _) ?_) (fun slot => ?_)
  · rintro s slot t ⟨hs, rfl, rfl⟩ hx
    rw [findFreeCmdslot_idle (by simp)] at hx
    obtain ⟨rfl, rfl⟩ := Prod.mk.inj (Option.some.inj hx)
    exact ⟨hs, rfl⟩
  · have hbuild : Triple DeviceStep (fun s => (Resting s₀ s ∧ s.started = true) ∧ slot = 0)
        (buildTables b slot params)
        (fun _ s => (Resting (s₀.built b params) s ∧ s.started = true) ∧ slot = 0) := by
      rintro s a t ⟨hs, rfl⟩ hexec
      exact ⟨triple_buildTables hv hready s a t hs hexec, rfl⟩
    refine hbuild.bind (fun _ => ?_)
    refine (triple_fetch (Q := fun port s => (Resting (s₀.built b params) s ∧ s.started = true) ∧
      slot = 0 ∧ port.ci = 0) (hvalue _ _) (fun _ => hvalue _ _)
      (fun s hs => ⟨hs.1, hs.2, hs.1.1.ci⟩)).bind (fun port => ?_)
    refine triple_assign (hvalue _ _) (stable_underWay hv hknown (asks_built hv hready)) ?_
    rintro s ⟨⟨hs, hstarted⟩, rfl, hport⟩
    have hci : (notifyCmdIsActive port 0).ci = 1 := by
      rw [notifyCmdIsActive, hport]
      rfl
    have hwrite : s.writeCi (notifyCmdIsActive port 0).ci = { s with port := { s.port with ci := 1 } } := by
      rw [AhciMachine.writeCi, if_pos hstarted, hci, hs.ci]
      rfl
    rw [hwrite]
    exact ⟨⟨.pending rfl hs.transfer hs.driver hs.disk,
      hs.sact, congrArg DriverState.serial hs.driver, hs.clb, hs.fb, hs.pi⟩, hstarted⟩

theorem UnderWay.of_eq (h : UnderWay params s₀ s) (hport : t.port = s.port) (hdriver : t.driver = s.driver)
    (hdisk : t.disk = s.disk) (htransfer : t.transfer = s.transfer) : UnderWay params s₀ t := by
  have hmem : t.mem = s.mem := congrArg (fun d => d.ram.mem) hdriver
  cases h with
  | pending hci hnone hd hk =>
    exact .pending (hport ▸ hci) (htransfer.trans hnone) (hdriver.trans hd) (hdisk.trans hk)
  | moving u hci hsome hslot hr hmoved hcons =>
    exact .moving u (hport ▸ hci) (htransfer.trans hsome) hslot hr (by rw [hmem, hdisk, hmoved]) hcons
  | finished hci hnone hk hm =>
    exact .finished (hport ▸ hci) (htransfer.trans hnone) (hdisk.trans hk) (fun z hz => hmem ▸ hm z hz)

theorem triple_waits (hv : params.Valid) (hknown : params.cmdType = 0x25 ∨ params.cmdType = 0x35)
    (hasks : (readRequest s₀.mem s₀.port.clb 0).Asks params) :
    Triple DeviceStep (fun s => (UnderWay params s₀ s ∧ Fixed s₀ s) ∧ s.started = true)
      (do waitInterrupt fuel
          clearPxis fuel
          clearGhcIs fuel portno
          waitPxciClear fuel
          return (1 : ℤ))
      (fun _ s => (UnderWay params s₀ s ∧ Fixed s₀ s) ∧ s.port.ci = 0) := by
  have hway := stable_underWay hv hknown hasks
  have hdone : Stable DeviceStep (fun s => ((UnderWay params s₀ s ∧ Fixed s₀ s) ∧ s.started = true) ∧
      s.port.ci = 0) := by
    rintro s t ⟨hs, hci⟩ hstep
    refine ⟨hway s t hs hstep, ?_⟩
    cases hstep with
    | complete => simp [hci]
    | _ => exact hci
  have hwait : ∀ test : AhciMachine → Bool, Triple DeviceStep
      (fun s => (UnderWay params s₀ s ∧ Fixed s₀ s) ∧ s.started = true) (Program.spin test fuel)
      (fun _ s => (UnderWay params s₀ s ∧ Fixed s₀ s) ∧ s.started = true) :=
    fun _ => .spin hway hway (fun _ hs _ => hs) fuel
  have hpxis : ∀ (v : BitVec 32) (s : AhciMachine),
      (UnderWay params s₀ s ∧ Fixed s₀ s) ∧ s.started = true →
      (UnderWay params s₀ (s.writePxis v) ∧ Fixed s₀ (s.writePxis v)) ∧ (s.writePxis v).started = true := by
    rintro v s ⟨⟨hs, hfixed⟩, hstarted⟩
    exact ⟨⟨hs.of_eq rfl rfl rfl rfl, hfixed.sact, hfixed.serial, hfixed.clb, hfixed.fb, hfixed.pi⟩, hstarted⟩
  have his : ∀ (v : BitVec 32) (s : AhciMachine),
      (UnderWay params s₀ s ∧ Fixed s₀ s) ∧ s.started = true →
      (UnderWay params s₀ (s.writeIs v) ∧ Fixed s₀ (s.writeIs v)) ∧ (s.writeIs v).started = true := by
    rintro v s ⟨⟨hs, hfixed⟩, hstarted⟩
    exact ⟨⟨hs.of_eq rfl rfl rfl rfl, hfixed.sact, hfixed.serial, hfixed.clb, hfixed.fb, hfixed.pi⟩, hstarted⟩
  refine (hwait _).bind (fun _ => ?_)
  refine Triple.bind (Q := fun _ s => (UnderWay params s₀ s ∧ Fixed s₀ s) ∧ s.started = true)
    ((triple_fetch hway (fun _ => hway) (fun _ hs => hs)).bind (fun v =>
      (triple_modify hway hway (fun w s hs => hpxis (v ||| w) s hs)).bind (fun _ => hwait _))) (fun _ => ?_)
  refine Triple.bind (Q := fun _ s => (UnderWay params s₀ s ∧ Fixed s₀ s) ∧ s.started = true)
    ((triple_modify hway hway (fun w s hs => his (w ||| _) s hs)).bind (fun _ => hwait _)) (fun _ => ?_)
  refine Triple.bind (.spin hway hdone (fun s hs htest => ⟨hs, by simpa using htest⟩) fuel) (fun _ => ?_)
  exact .pure hdone (fun s hs => ⟨hs.1.1, hs.2⟩)

def Scratch (b : Word) (port : HbaPort) (z : Word) : Prop :=
  InRegion b cmdTblSize z ∨ InRegion (port.clb.setWidth 64) 0x400 z ∨
    InRegion (port.fb.setWidth 64) 0x100 z

theorem mem_built {z : Word} (hz : ¬ Scratch b s.port z) : (s.built b params).mem z = s.mem z := by
  obtain ⟨new, hnew, hin⟩ := headerRam_wrote b s.port params
    (buildPrdt params b (cfisTable params b s.driver.ram))
  have htable := (table_wrote params b s.driver.ram).mem z
    (fun e he hze => hz (.inl (inside_tableStores params b e he z hze)))
  exact (hnew.mem z (fun e he hze => hz (.inr (.inl (hin e he z hze))))).trans htable

theorem Reported.scratch {z : Word} (h : Reported s.port 0 z) : Scratch b s.port z := by
  rcases h with hfis | hcount
  · exact .inr (.inr hfis)
  · have hshift := InRegion.shift hcount (by decide)
    exact .inr (.inl (hshift.mono (by decide)))

structure Moved (b : Word) (params : CmdParams) (s₀ s : AhciMachine) : Prop where
  ci : s.port.ci = 0
  transfer : s.transfer = none
  fixed : Fixed s₀ s
  disk : s.disk = (params.moved params.length (s₀.mem, s₀.disk)).2
  mem : ∀ z, ¬ Scratch b s₀.port z → s.mem z = (params.moved params.length (s₀.mem, s₀.disk)).1 z

theorem triple_transfer (hv : params.Valid) (hknown : params.cmdType = 0x25 ∨ params.cmdType = 0x35)
    (hready : Ready b s₀.port)
    (hbuf : ∀ z, InRegion params.dba params.length z → ¬ Scratch b s₀.port z) :
    Triple DeviceStep (Resting s₀) (AhciCode.transfer b fuel portno params)
      (fun _ s => Moved b params s₀ s) := by
  have hlen : params.length ≤ 2 ^ 64 := by
    have := hv.below
    unfold CmdParams.length
    omega
  have hsame := moved_congr (x := ((s₀.built b params).mem, s₀.disk)) (y := (s₀.mem, s₀.disk)) hlen hbuf
    (fun z hz => mem_built hz) rfl
  refine (triple_startCmd s₀ fuel).bind (fun _ => (triple_buildCommand hv hknown hready).bind (fun _ => ?_))
  refine (triple_waits hv hknown (asks_built hv hready)).mono (fun _ hs => hs) ?_
  rintro _ s ⟨⟨hway, hfixed⟩, hci⟩
  cases hway with
  | pending hone => simp [hone] at hci
  | moving _ hone => simp [hone] at hci
  | finished _ htransfer hdisk hmem =>
    refine ⟨hci, htransfer, ⟨hfixed.sact, hfixed.serial, hfixed.clb, hfixed.fb, hfixed.pi⟩,
      hdisk.trans hsame.1, fun z hz => ?_⟩
    exact (hmem z (fun h => hz h.scratch)).trans (hsame.2 z hz)

end Code

end MinOS
