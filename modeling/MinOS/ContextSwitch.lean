import MinOS.Library.Machine

/-!
The routines of `task_asm.S`, instruction by instruction, and what one call of each does.
A routine starts behind the `call`, so the return address stands at `rsp`.
-/

namespace MinOS

open Library.Words Library.Machine Reg

/-- `init_stack(stack_bottom: rdi, rip: rsi, thread: rdx)`, result in `rax`. -/
def initStack : List Instr := [
  .cli,
  .mov rcx rsp,
  .mov rsp rdi,
  .push (.reg rsi),
  .push (.imm 0), -- rbp
  .push (.imm 0), -- r15
  .push (.imm 0), -- r14
  .push (.imm 0), -- r13
  .push (.imm 0), -- r12
  .push (.imm 0), -- r11
  .push (.imm 0), -- r10
  .push (.imm 0), -- r9
  .push (.imm 0), -- r8
  .push (.reg rdx), -- rdi
  .push (.imm 0), -- rsi
  .push (.imm 0), -- rdx
  .push (.imm 0), -- rcx
  .push (.imm 0), -- rbx
  .push (.imm 0), -- rax
  .mov rax rsp,
  .mov rsp rcx,
  .sti,
  .ret]

/-- `switch_context(current_rsp: rdi, next_rsp: rsi)`. -/
def switchContext : List Instr := [
  .cli,
  .push (.reg rbp),
  .push (.reg r15),
  .push (.reg r14),
  .push (.reg r13),
  .push (.reg r12),
  .push (.reg r11),
  .push (.reg r10),
  .push (.reg r9),
  .push (.reg r8),
  .push (.reg rdi),
  .push (.reg rsi),
  .push (.reg rdx),
  .push (.reg rcx),
  .push (.reg rbx),
  .push (.reg rax),
  .store rdi 0 rsp,
  .mov rsp rsi,
  .pop rax,
  .pop rbx,
  .pop rcx,
  .pop rdx,
  .pop rsi,
  .pop rdi,
  .pop r8,
  .pop r9,
  .pop r10,
  .pop r11,
  .pop r12,
  .pop r13,
  .pop r14,
  .pop r15,
  .pop rbp,
  .sti,
  .ret]

def contextRegs : List Reg :=
  [rax, rbx, rcx, rdx, rsi, rdi, r8, r9, r10, r11, r12, r13, r14, r15, rbp]

theorem mem_contextRegs {r : Reg} (hr : r ≠ rsp) : r ∈ contextRegs := by
  cases r <;> first | exact absurd rfl hr | decide

def resume : List Instr := contextRegs.map .pop ++ [.sti, .ret]

def contextPushes : List Operand := contextRegs.reverse.map .reg

theorem switchContext_eq :
    switchContext = [.cli] ++ contextPushes.map .push ++ [.store rdi 0 rsp, .mov rsp rsi] ++ resume :=
  rfl

theorem contextPushes_value (s : State) :
    contextPushes.map (Operand.value s) = contextRegs.reverse.map s.regs := by
  simp [contextPushes, Operand.value, Function.comp_def]

def savedMemory (s : State) : Memory :=
  store64 (pushAll s.mem (s.regs rsp) (contextRegs.reverse.map s.regs)) (s.regs rdi) (s.regs rsp - 120)

theorem exec_resume {s : State} {ws : List Word} {ret : Word} (hlen : ws.length = 15)
    (h : Holds s.mem (s.regs rsp) (ws ++ [ret])) :
    ∃ regs, exec resume s = ⟨regs, s.mem, ret, true⟩ ∧ contextRegs.map regs = ws ∧
      regs rsp = s.regs rsp + 128 := by
  obtain ⟨hctx, hret, -⟩ := holds_append.mp h
  obtain ⟨regs, hexec, hmap, hrsp, -⟩ := exec_pop contextRegs (by decide) (by rw [hlen]; rfl) hctx
  have hne : ∀ r ∈ contextRegs, r ≠ rsp := by decide
  refine ⟨Function.update regs rsp (s.regs rsp + 128), ?_, ?_, by simp⟩
  · rw [hlen] at hret
    have hcount : contextRegs.length = 15 := rfl
    rw [resume, exec_append, hexec]
    simp only [exec_cons, exec_nil, step, State.setReg, hrsp, hcount, hret, BitVec.add_assoc]
    rfl
  · rw [← hmap]
    exact List.map_congr_left (fun r hr => Function.update_of_ne (hne r hr) ..)

theorem exec_switchContext {s : State} {ws : List Word} {ret : Word} (hlen : ws.length = 15)
    (h : Holds (savedMemory s) (s.regs rsi) (ws ++ [ret])) :
    ∃ regs, exec switchContext s = ⟨regs, savedMemory s, ret, true⟩ ∧ contextRegs.map regs = ws ∧
      regs rsp = s.regs rsi + 128 := by
  have hsave : exec ([.cli] ++ contextPushes.map .push ++ [.store rdi 0 rsp, .mov rsp rsi]) s =
      ⟨Function.update s.regs rsp (s.regs rsi), savedMemory s, s.rip, false⟩ := by
    have hsrcs : Operand.reg rsp ∉ contextPushes := by decide
    have hcount : contextPushes.length = 15 := rfl
    simp only [exec_append, exec_cons, exec_nil, step, exec_push hsrcs, contextPushes_value,
      State.setReg, hcount]
    simp [savedMemory]
  rw [switchContext_eq, exec_append, hsave]
  obtain ⟨regs, hexec, hmap, hrsp⟩ := exec_resume
    (s := ⟨Function.update s.regs rsp (s.regs rsi), savedMemory s, s.rip, false⟩) hlen (by simpa using h)
  exact ⟨regs, hexec, hmap, by simpa using hrsp⟩

theorem exec_switchContext_mem (s : State) : (exec switchContext s).mem = savedMemory s := by
  obtain ⟨ws, hlen, h⟩ := exists_holds (savedMemory s) (s.regs rsi) 15
  obtain ⟨regs, hexec, -⟩ := exec_switchContext hlen (holds_append.mpr ⟨h, rfl, trivial⟩)
  rw [hexec]

theorem savedMemory_other {s : State} {x : Word} (hstack : ¬ InRegion (s.regs rsp - 120) 120 x)
    (hslot : ¬ InRegion (s.regs rdi) 8 x) : savedMemory s x = s.mem x := by
  rw [savedMemory, store64_other hslot]
  exact pushAll_other (by simp [contextRegs]) (by simpa [contextRegs] using hstack)

theorem savedMemory_slot (s : State) : load64 (savedMemory s) (s.regs rdi) = s.regs rsp - 120 :=
  load64_store64

theorem savedMemory_holds {s : State}
    (hslot : ∀ x, InRegion (s.regs rsp - 120) 128 x → ¬ InRegion (s.regs rdi) 8 x) :
    Holds (savedMemory s) (s.regs rsp - 120)
      (contextRegs.map s.regs ++ [load64 s.mem (s.regs rsp)]) := by
  have hret : Holds s.mem (s.regs rsp) [load64 s.mem (s.regs rsp)] := ⟨rfl, holds_nil⟩
  have hpushed := pushAll_holds (contextRegs.reverse.map s.regs) hret (by simp [contextRegs])
  have hcount : (contextRegs.reverse.map s.regs).length = 15 := rfl
  rw [hcount, ← List.map_reverse, List.reverse_reverse] at hpushed
  exact hpushed.congr (by simp [contextRegs]) (fun x hx => store64_other (hslot x hx))

def initialFrame (thread : Word) : List Word :=
  [0, 0, 0, 0, 0, thread, 0, 0, 0, 0, 0, 0, 0, 0, 0]

def initialPushes : List Operand :=
  [.reg rsi, .imm 0, .imm 0, .imm 0, .imm 0, .imm 0, .imm 0, .imm 0, .imm 0, .imm 0, .reg rdx,
    .imm 0, .imm 0, .imm 0, .imm 0, .imm 0]

theorem initStack_eq : initStack = [.cli, .mov rcx rsp, .mov rsp rdi] ++
    initialPushes.map .push ++ [.mov rax rsp, .mov rsp rcx, .sti, .ret] :=
  rfl

def preparedMemory (s : State) : Memory :=
  pushAll s.mem (s.regs rdi) (s.regs rsi :: (initialFrame (s.regs rdx)).reverse)

theorem exec_initStack (s : State) : ∃ regs, exec initStack s =
      ⟨regs, preparedMemory s, load64 (preparedMemory s) (s.regs rsp), true⟩ ∧
    regs rax = s.regs rdi - 128 ∧ regs rsp = s.regs rsp + 8 := by
  have hsrcs : Operand.reg rsp ∉ initialPushes := by decide
  have hcount : initialPushes.length = 16 := rfl
  have hvalue : ∀ t : State, t.regs rsi = s.regs rsi → t.regs rdx = s.regs rdx →
      initialPushes.map (Operand.value t) = s.regs rsi :: (initialFrame (s.regs rdx)).reverse := by
    intro t hrsi hrdx
    simp [initialPushes, initialFrame, Operand.value, hrsi, hrdx]
  let t : State := ⟨Function.update (Function.update s.regs rcx (s.regs rsp)) rsp (s.regs rdi),
    s.mem, s.rip, false⟩
  have henter : exec [.cli, .mov rcx rsp, .mov rsp rdi] s = t := by simp [step, State.setReg, t]
  have hpush : exec (initialPushes.map .push) t =
      ⟨Function.update t.regs rsp (s.regs rdi - 128), preparedMemory s, s.rip, false⟩ := by
    rw [exec_push hsrcs, hvalue t (by simp [t]) (by simp [t]), hcount]
    simp [State.setReg, preparedMemory, t]
  rw [initStack_eq, exec_append, exec_append, henter, hpush]
  refine ⟨_, rfl, ?_, ?_⟩ <;> simp [step, State.setReg, t]

theorem preparedMemory_holds (s : State) : Holds (preparedMemory s) (s.regs rdi - 128)
    (initialFrame (s.regs rdx) ++ [s.regs rsi]) := by
  have hpushed := pushAll_holds (m := s.mem) (a := s.regs rdi)
    (s.regs rsi :: (initialFrame (s.regs rdx)).reverse) holds_nil (by simp [initialFrame])
  have hcount : (s.regs rsi :: (initialFrame (s.regs rdx)).reverse).length = 16 := rfl
  rw [hcount, List.reverse_cons, List.reverse_reverse, List.append_nil] at hpushed
  exact hpushed

theorem preparedMemory_other {s : State} {x : Word} (hx : ¬ InRegion (s.regs rdi - 128) 128 x) :
    preparedMemory s x = s.mem x :=
  pushAll_other (by simp [initialFrame]) (by simpa [initialFrame] using hx)

end MinOS
