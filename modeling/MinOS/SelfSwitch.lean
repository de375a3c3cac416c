import MinOS.ThreadSwitches
import MinOS.ThreadTableRuns

namespace MinOS

open Library.Words Library.Machine Reg

/-- The machine at the first instruction of the `switch_context` that `thread_scheduler` calls: the
saved stack pointer of the next thread is read before the call. `slot p` is the address of
the field `rsp` behind `p`. -/
def schedulerCall (slot : ThreadPtr → Word) (ret : Word) (old next : ThreadPtr) (cpu : State) : State :=
  step (.push (.imm ret)) ((cpu.setReg rdi (slot old)).setReg rsi (load64 cpu.mem (slot next)))

def threadScheduler (slot : ThreadPtr → Word) (ret : Word) (s : Tasks) (cpu : State) :
    Option (Tasks × State) :=
  s.threadScheduler.map (fun t => (t, exec switchContext (schedulerCall slot ret
    (s.threads s.curThreadIndex.toNat) (t.threads t.curThreadIndex.toNat) cpu)))

structure ReturnsFrom (entry t : State) : Prop where
  regs : ∀ r, r ≠ rsp → t.regs r = entry.regs r
  sp : t.regs rsp = entry.regs rsp + 8
  rip : t.rip = load64 entry.mem (entry.regs rsp)

theorem switchContext_self_iff {s : State}
    (hslot : ∀ x, InRegion (s.regs rsp - 120) 128 x → ¬ InRegion (s.regs rdi) 8 x) :
    ReturnsFrom s (exec switchContext s) ↔ s.regs rsi = s.regs rsp - 120 := by
  constructor
  · intro h
    obtain ⟨ws, hlen, hws⟩ := exists_holds (savedMemory s) (s.regs rsi) 15
    obtain ⟨regs, hexec, -, hrsp⟩ := exec_switchContext hlen (holds_append.mpr ⟨hws, rfl, trivial⟩)
    have hback := h.sp
    rw [hexec] at hback
    have hsum : s.regs rsi + 128 = s.regs rsp + 8 := hrsp.symm.trans hback
    grind
  · intro hsi
    obtain ⟨regs, hexec, hmap, hrsp⟩ := exec_switchContext rfl (hsi ▸ savedMemory_holds hslot)
    rw [hexec]
    refine ⟨fun r hr => List.map_inj_left.mp hmap r (mem_contextRegs hr), ?_, rfl⟩
    have hsum : regs rsp = s.regs rsp - 120 + 128 := hsi ▸ hrsp
    exact hsum.trans (by grind)

theorem threadScheduler_self_iff {s : Tasks} {c : ℕ} (hcur : s.curThreadIndex = c) (hc : c < threadNum)
    (honly : ∀ i, i < threadNum → ((s.thread i).state = .runnable ↔ i = c))
    (slot : ThreadPtr → Word) (ret : Word) {cpu : State}
    (hslot : ∀ x, InRegion (cpu.regs rsp - 128) 128 x → ¬ InRegion (slot (s.threads c)) 8 x) :
    ∃ t, threadScheduler slot ret s cpu = some (s, t) ∧
      (ReturnsFrom (schedulerCall slot ret (s.threads c) (s.threads c) cpu) t ↔
        load64 cpu.mem (slot (s.threads c)) = cpu.regs rsp - 128) := by
  rcases Tasks.nextThread_cases (s := s) (by omega) with ⟨-, hnone⟩ | ⟨i, hnext, hi, hrun⟩
  · exact absurd ((honly c hc).mpr rfl) (hnone c hc)
  · obtain rfl := (honly i hi).mp hrun
    have hself : s.threadScheduler = some s := by
      rw [Tasks.threadScheduler, hnext, Option.map_some, ← hcur]
    have hcall : ∀ r, (schedulerCall slot ret (s.threads i) (s.threads i) cpu).regs r =
        if r = rsp then cpu.regs rsp - 8 else if r = rsi then load64 cpu.mem (slot (s.threads i))
          else if r = rdi then slot (s.threads i) else cpu.regs r := by
      intro r
      simp only [schedulerCall, step, State.setReg, Function.update_apply]
      split_ifs <;> first | rfl | simp_all
    have hframe : cpu.regs rsp - 8 - 120 = cpu.regs rsp - 128 := by grind
    refine ⟨_, by rw [threadScheduler, hself, Option.map_some, hcur, Int.toNat_natCast], ?_⟩
    rw [switchContext_self_iff]
    · simp only [hcall, reduceCtorEq, if_true, if_false, hframe]
    · simpa only [hcall, reduceCtorEq, if_true, if_false, hframe] using hslot

def runningAlone (saved : Word) : State :=
  ⟨callRegs 0x10800 1 2 3, store64 (fun _ => 0) 0x8000 saved, 0, true⟩

theorem runningAlone_apart (saved : Word) (x : Word)
    (hx : InRegion ((runningAlone saved).regs rsp - 128) 128 x) : ¬ InRegion 0x8000 8 x := by
  have hsp : (runningAlone saved).regs rsp = 0x10800 := rfl
  rw [hsp] at hx
  unfold InRegion at *
  bv_omega

theorem threadScheduler_self_iff_example : ∃ t,
    threadScheduler (fun _ => 0x8000) 0x5000 Tasks.oneTask (runningAlone 0x10780) =
      some (Tasks.oneTask, t) ∧
    ReturnsFrom (schedulerCall (fun _ => 0x8000) 0x5000 (.at 16) (.at 16) (runningAlone 0x10780)) t := by
  obtain ⟨t, ht, hiff⟩ := threadScheduler_self_iff (s := Tasks.oneTask) (c := 0) rfl (by decide)
    (by decide) (fun _ => 0x8000) 0x5000 (runningAlone_apart 0x10780)
  exact ⟨t, ht, hiff.mpr load64_store64⟩

/-- The stack pointer `init_stack` left in the structure is used again, although the thread has
called further down in the meantime. -/
theorem threadScheduler_restarts : ∃ t,
    threadScheduler (fun _ => 0x8000) 0x5000 Tasks.oneTask (runningAlone (0x11000 - 128)) =
      some (Tasks.oneTask, t) ∧ t.regs rsp = 0x11000 ∧
    ¬ ReturnsFrom (schedulerCall (fun _ => 0x8000) 0x5000 (.at 16) (.at 16)
      (runningAlone (0x11000 - 128))) t := by
  refine ⟨_, rfl, ?_, fun h => absurd h.sp ?_⟩ <;> decide +kernel

end MinOS
