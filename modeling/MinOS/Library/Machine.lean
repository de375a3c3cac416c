import Mathlib.Data.List.Nodup
import Mathlib.Logic.Function.Basic
import MinOS.Library.Words

namespace Library.Machine

open Library.Words

inductive Reg where
  | rax | rbx | rcx | rdx | rsi | rdi | rbp | rsp
  | r8 | r9 | r10 | r11 | r12 | r13 | r14 | r15
deriving DecidableEq

structure State where
  regs : Reg → Word
  mem : Memory
  rip : Word
  interrupts : Bool

inductive Operand where
  | reg (r : Reg)
  | imm (v : Word)
deriving DecidableEq

inductive Instr where
  | cli
  | sti
  | push (src : Operand)
  | pop (dst : Reg)
  | mov (dst src : Reg)
  | store (base : Reg) (disp : Word) (src : Reg)
  | sub (dst : Reg) (src : Operand)
  | ret
deriving DecidableEq

def Operand.value (s : State) : Operand → Word
  | .reg r => s.regs r
  | .imm v => v

namespace State

def setReg (s : State) (r : Reg) (v : Word) : State :=
  { s with regs := Function.update s.regs r v }

@[simp] theorem setReg_same (s : State) (r : Reg) (v : Word) : (s.setReg r v).regs r = v := by
  simp [setReg]

@[simp] theorem setReg_other (s : State) {r q : Reg} (v : Word) (h : q ≠ r) :
    (s.setReg r v).regs q = s.regs q := by
  simp [setReg, h]

@[simp] theorem mem_setReg (s : State) (r : Reg) (v : Word) : (s.setReg r v).mem = s.mem := rfl
@[simp] theorem rip_setReg (s : State) (r : Reg) (v : Word) : (s.setReg r v).rip = s.rip := rfl
@[simp] theorem interrupts_setReg (s : State) (r : Reg) (v : Word) :
    (s.setReg r v).interrupts = s.interrupts := rfl

end State

open Reg

def step (i : Instr) (s : State) : State :=
  match i with
  | .cli => { s with interrupts := false }
  | .sti => { s with interrupts := true }
  | .push src =>
    { s with mem := store64 s.mem (s.regs rsp - 8) (src.value s) }.setReg rsp (s.regs rsp - 8)
  | .pop dst => (s.setReg rsp (s.regs rsp + 8)).setReg dst (load64 s.mem (s.regs rsp))
  | .mov dst src => s.setReg dst (s.regs src)
  | .store base disp src => { s with mem := store64 s.mem (s.regs base - disp) (s.regs src) }
  | .sub dst src => s.setReg dst (s.regs dst - src.value s)
  | .ret => { s.setReg rsp (s.regs rsp + 8) with rip := load64 s.mem (s.regs rsp) }

def exec : List Instr → State → State
  | [], s => s
  | i :: is, s => exec is (step i s)

@[simp] theorem exec_nil (s : State) : exec [] s = s := rfl
@[simp] theorem exec_cons (i : Instr) (is : List Instr) (s : State) :
    exec (i :: is) s = exec is (step i s) := rfl

@[simp] theorem exec_append (is js : List Instr) (s : State) :
    exec (is ++ js) s = exec js (exec is s) := by
  induction is generalizing s with
  | nil => rfl
  | cons i is ih => simp only [List.cons_append, exec_cons, ih]

theorem exec_push {srcs : List Operand} (hsrcs : Operand.reg rsp ∉ srcs) (s : State) :
    exec (srcs.map .push) s =
      { s with mem := pushAll s.mem (s.regs rsp) (srcs.map (Operand.value s)) }.setReg rsp
        (s.regs rsp - BitVec.ofNat 64 (8 * srcs.length)) := by
  induction srcs generalizing s with
  | nil => simp [pushAll, State.setReg]
  | cons src srcs ih =>
    rw [List.mem_cons, not_or] at hsrcs
    have hvalue : ∀ o ∈ srcs, o.value (step (.push src) s) = o.value s := by
      intro o ho
      cases o with
      | reg r => exact State.setReg_other _ _ (fun hr => hsrcs.2 (hr ▸ ho))
      | imm v => rfl
    have haddr : s.regs rsp - 8 - BitVec.ofNat 64 (8 * srcs.length) =
        s.regs rsp - BitVec.ofNat 64 (8 * (srcs.length + 1)) := by bv_omega
    rw [List.map_cons, exec_cons, ih hsrcs.2, List.map_congr_left hvalue]
    simp only [step, State.setReg, pushAll, List.map_cons, List.length_cons, Function.update_self,
      Function.update_idem, haddr]

theorem exec_pop (dsts : List Reg) (hnd : (rsp :: dsts).Nodup) {s : State} {ws : List Word}
    (hlen : dsts.length = ws.length) (h : Holds s.mem (s.regs rsp) ws) :
    ∃ regs, exec (dsts.map .pop) s = { s with regs := regs } ∧ dsts.map regs = ws ∧
      regs rsp = s.regs rsp + BitVec.ofNat 64 (8 * dsts.length) ∧
      ∀ r, r ∉ rsp :: dsts → regs r = s.regs r := by
  induction dsts generalizing s ws with
  | nil =>
    obtain rfl := List.length_eq_zero_iff.mp hlen.symm
    exact ⟨s.regs, rfl, rfl, by simp, fun r _ => rfl⟩
  | cons dst dsts ih =>
    obtain ⟨w, ws, rfl⟩ := List.exists_cons_of_length_eq_add_one hlen.symm
    simp only [List.nodup_cons, List.mem_cons, not_or] at hnd
    obtain ⟨⟨hne, hrsp⟩, hdst, hnd⟩ := hnd
    have hstep : (step (.pop dst) s).regs rsp = s.regs rsp + 8 := by
      simp [step, State.setReg, hne]
    have hrest : Holds (step (.pop dst) s).mem ((step (.pop dst) s).regs rsp) ws := hstep ▸ h.2
    obtain ⟨regs, hexec, hmap, hr, hother⟩ :=
      ih (List.nodup_cons.mpr ⟨hrsp, hnd⟩) (by simpa using hlen) hrest
    refine ⟨regs, by rw [List.map_cons, exec_cons, hexec]; rfl, ?_, ?_, fun r hrs => ?_⟩
    · rw [List.map_cons, hmap, hother dst (by simp [hdst, Ne.symm hne])]
      simp [step, h.1]
    · rw [hr, hstep, List.length_cons]
      bv_omega
    · simp only [List.mem_cons, not_or] at hrs
      rw [hother r (by simp [hrs.1, hrs.2.2])]
      simp [step, State.setReg, hrs.1, hrs.2.1]

end Library.Machine
