import MinOS.AhciTransfers

namespace MinOS

open Library.Words Library.Arrays Library.Fields Library.Tilings Library.Programs

open AhciCode

variable {params : CmdParams} {b : Word} {s₀ s t u : AhciMachine}

theorem Exec.spin_of_reach {σ : Type} {env : σ → σ → Prop} {test : σ → Bool} {s t : σ} {fuel : ℕ}
    (hreach : Relation.ReflTransGen env s t) (htest : test t = false) :
    Exec env (Program.spin test (fuel + 1)) s () t := by
  refine Exec.bind_iff.mpr ⟨false, t, ⟨t, _, hreach, rfl, htest, .refl⟩, ?_⟩
  exact ⟨rfl, .refl⟩

theorem exec_fetch {α : Type} (f : AhciMachine → α) (s : AhciMachine) :
    Exec DeviceStep (fetch f) s (f s) s :=
  .of_run (Program.run_single _)

theorem exec_assign (f : AhciMachine → AhciMachine) (s : AhciMachine) :
    Exec DeviceStep (assign f) s () (f s) :=
  .of_run (Program.run_single _)

theorem buildCommand_run (b : Word) (params : CmdParams) (s : AhciMachine) :
    (AhciCode.buildCommand b params).run s =
      match MinOS.buildCommand b s.port params s.driver with
      | .ok (port, d) => some ((), AhciMachine.writeCi port.ci { s with driver := d })
      | .error _ => none := by
  have hport : { s.port with ci := s.port.ci, sact := s.port.sact } = s.port := rfl
  rw [AhciCode.buildCommand, MinOS.buildCommand]
  simp only [Program.run_bind, fetch, Program.run_single, Option.bind_some, hport, buildTables, assign]
  cases htable : buildCmdTable params b (findFreeCmdslot s.port s.driver).2 with
  | error d => simp [Except.bind]
  | ok d =>
    cases hheader : buildCmdheader b s.port (findFreeCmdslot s.port s.driver).1 params d with
    | error e => simp [Except.bind, Except.map, hheader]
    | ok e => simp [Except.bind, Except.map, hheader]

theorem exists_startCmd (s : AhciMachine) : ∃ t, Exec DeviceStep (startCmd 1) s () t := by
  have hclear : (s.writeCmd (s.port.cmd &&& 0xfffffffe)).started = false := by
    rw [started_writeCmd]
    simp
  have hstop := DeviceStep.stop hclear
  refine ⟨_, Exec.bind_iff.mpr ⟨_, _, exec_fetch _ _, Exec.bind_iff.mpr ⟨_, _, exec_assign _ _,
    Exec.bind_iff.mpr ⟨_, _, Exec.spin_of_reach (.single hstop) ?_,
      Exec.bind_iff.mpr ⟨_, _, exec_fetch _ _, Exec.bind_iff.mpr ⟨_, _, exec_assign _ _,
        Exec.bind_iff.mpr ⟨_, _, exec_fetch _ _, exec_assign _ _⟩⟩⟩⟩⟩⟩⟩
  simp [BitVec.and_assoc]

theorem exists_buildCommand (hv : params.Valid) (hready : Ready b s₀.port)
    (hs : Resting s₀ s) : ∃ t, Exec DeviceStep (AhciCode.buildCommand b params) s () t := by
  have hfree : findFreeCmdslot { s.port with ci := s.port.ci, sact := s.port.sact } s.driver =
      (0, s.driver) := by
    apply findFreeCmdslot_idle
    simp [hs.ci, hs.sact]
  have hbuild : Exec DeviceStep (buildTables b 0 params) s () (s.built b params) := by
    refine .of_run ?_
    rw [buildTables, Program.run_single, buildCmdTable_eq hv, Except.bind,
      buildCmdheader_eq (isAligned_base hready.aligned hready.positive)]
    rfl
  refine ⟨_, Exec.bind_iff.mpr ⟨_, _, exec_fetch _ _, Exec.bind_iff.mpr ⟨_, _, exec_fetch _ _,
    Exec.bind_iff.mpr ⟨0, s, .of_run ?_, Exec.bind_iff.mpr ⟨_, _, hbuild,
      Exec.bind_iff.mpr ⟨_, _, exec_fetch _ _, exec_assign _ _⟩⟩⟩⟩⟩⟩
  rw [Program.run_single, hfree]

theorem moving_completes {rest : List Span} : ∀ (s : AhciMachine) (v : Transfer),
    s.transfer = some v → v.rest = rest → s.port.ci = 1 → v.slot = 0 →
    ∃ t, Relation.ReflTransGen DeviceStep s t ∧ t.port.ci = 0 := by
  induction rest with
  | nil =>
    intro s v hsome hrest hci hslot
    refine ⟨_, .single (.complete v s.mem hsome hrest (fun _ _ => rfl)), ?_⟩
    change s.port.ci &&& ~~~(1#32 <<< v.slot) = 0
    rw [hci, hslot]
    rfl
  | cons span rest ih =>
    intro s v hsome hrest hci hslot
    have hmove := DeviceStep.move v span rest hsome hrest
    obtain ⟨t, hreach, ht⟩ := ih { s.setMem (v.request.move v.done span (s.mem, s.disk)).1 with
      disk := (v.request.move v.done span (s.mem, s.disk)).2
      transfer := some ⟨v.slot, v.request, v.done + span.length, rest⟩ } _ rfl rfl hci hslot
    exact ⟨t, .head hmove hreach, ht⟩

theorem underWay_completes (hknown : params.cmdType = 0x25 ∨ params.cmdType = 0x35)
    (hasks : (readRequest s₀.mem s₀.port.clb 0).Asks params) (hway : UnderWay params s₀ s)
    (hfixed : Fixed s₀ s) (hstarted : s.started = true) :
    ∃ t, Relation.ReflTransGen DeviceStep s t ∧ t.port.ci = 0 := by
  cases hway with
  | pending hci htransfer hdriver hdisk =>
    have hknows : (readRequest s.mem s.port.clb 0).Known := by
      have hmem : s.mem = s₀.mem := congrArg (fun d => d.ram.mem) hdriver
      rw [hmem, hfixed.clb]
      refine ⟨hasks.fisType, hasks.isCommand, ?_⟩
      rw [hasks.command]
      exact hknown.imp (fun h => by rw [h]; rfl) (fun h => by rw [h]; rfl)
    have hstart := DeviceStep.start hstarted
    have hstarted' := stable_started _ _ hstarted hstart
    have hrunning : ({ s with port := { s.port with cmd := s.port.cmd ||| 0x8000 } } : AhciMachine).running =
        true := by
      simp [AhciMachine.running]
    have hbit : s.port.ci.getLsbD 0 = true := by
      rw [hci]
      rfl
    have hfetch := DeviceStep.fetch 0 hstarted' hrunning htransfer hbit hknows
    obtain ⟨t, hreach, ht⟩ := moving_completes { s with
      port := { s.port with cmd := s.port.cmd ||| 0x8000 }
      transfer := some ⟨0, readRequest s.mem s.port.clb 0, 0, (readRequest s.mem s.port.clb 0).ranges⟩ }
      _ rfl rfl hci rfl
    exact ⟨t, .head hstart (.head hfetch hreach), ht⟩
  | moving v hci hsome hslot => exact moving_completes s v hsome rfl hci hslot
  | finished hci => exact ⟨s, .refl, hci⟩

theorem exists_waits (hreach : Relation.ReflTransGen DeviceStep s t) (hci : t.port.ci = 0) (portno : ℕ) :
    ∃ u, Exec DeviceStep
      (do waitInterrupt 1
          clearPxis 1
          clearGhcIs 1 portno
          waitPxciClear 1
          return (1 : ℤ)) s 1 u := by
  have hmask : ∀ v w : BitVec 32, v &&& ~~~(v ||| w) = 0 := by
    intro v w
    apply BitVec.eq_of_getLsbD_eq
    intro i hi
    simp only [BitVec.getLsbD_and, BitVec.getLsbD_not, BitVec.getLsbD_or, hi]
    cases v.getLsbD i <;> cases w.getLsbD i <;> simp
  have hraise : Relation.ReflTransGen DeviceStep s { t with pxis := t.pxis ||| 1, is := t.is ||| 0 } :=
    hreach.tail (.raise 1 0)
  refine ⟨_, Exec.bind_iff.mpr ⟨_, _, Exec.spin_of_reach hraise ?_, Exec.bind_iff.mpr ⟨_, _,
    Exec.bind_iff.mpr ⟨_, _, exec_fetch _ _, Exec.bind_iff.mpr ⟨_, _, exec_fetch _ _,
      Exec.bind_iff.mpr ⟨_, _, exec_assign _ _, Exec.spin_of_reach .refl ?_⟩⟩⟩,
    Exec.bind_iff.mpr ⟨_, _, Exec.bind_iff.mpr ⟨_, _, exec_fetch _ _,
      Exec.bind_iff.mpr ⟨_, _, exec_assign _ _, Exec.spin_of_reach .refl ?_⟩⟩,
      Exec.bind_iff.mpr ⟨_, _, Exec.spin_of_reach .refl ?_, ⟨rfl, .refl⟩⟩⟩⟩⟩⟩
  · have hbit : (t.pxis ||| 1).getLsbD 0 = true := by simp
    refine decide_eq_false (fun hzero : t.pxis ||| 1 = 0 => ?_)
    rw [hzero] at hbit
    simp at hbit
  · simp [AhciMachine.writePxis]
  · exact decide_eq_false (not_not.mpr (hmask _ _))
  · exact decide_eq_false (not_not.mpr hci)

theorem exists_transfer (hv : params.Valid) (hknown : params.cmdType = 0x25 ∨ params.cmdType = 0x35)
    (hready : Ready b s.port) (hs : Resting s s) (portno : ℕ) :
    ∃ t, Exec DeviceStep (AhciCode.transfer b 1 portno params) s 1 t := by
  obtain ⟨u, hu⟩ := exists_startCmd s
  obtain ⟨hrest, hstarted⟩ := triple_startCmd s 1 s () u hs hu
  obtain ⟨v, hbuild⟩ := exists_buildCommand hv hready hrest
  obtain ⟨⟨hway, hfixed⟩, hv'⟩ := triple_buildCommand hv hknown hready u () v ⟨hrest, hstarted⟩ hbuild
  obtain ⟨w, hreach, hci⟩ := underWay_completes hknown (asks_built hv hready) hway hfixed hv'
  obtain ⟨t, ht⟩ := exists_waits hreach hci portno
  exact ⟨t, Exec.bind_iff.mpr ⟨_, u, hu, Exec.bind_iff.mpr ⟨_, v, hbuild, ht⟩⟩⟩

end MinOS
