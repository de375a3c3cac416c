import MinOS.ThreadSwitches

namespace MinOS

open Library.Words Library.Machine Reg

/-- `switch_fork(cur_rsp: rdi, new_stack_btm: rsi, cur_stack_btm: rdx)`. -/
def switchFork : List Instr := [
  .cli,
  .pop rcx,
  .sub rdx (.reg rsp),
  .sub rsi (.reg rdx),
  .sub rsi (.imm 8),
  .store rsi 0 rcx,
  .push (.reg rcx),
  .store rsi 8 rbp,
  .push (.reg rbp),
  .store rsi 16 r15,
  .push (.reg r15),
  .store rsi 24 r14,
  .push (.reg r14),
  .store rsi 32 r13,
  .push (.reg r13),
  .store rsi 40 r12,
  .push (.reg r12),
  .store rsi 48 r11,
  .push (.reg r11),
  .store rsi 56 r10,
  .push (.reg r10),
  .store rsi 64 r9,
  .push (.reg r9),
  .store rsi 72 r8,
  .push (.reg r8),
  .store rsi 80 rdi,
  .push (.reg rdi),
  .store rsi 88 rsi,
  .push (.reg rsi),
  .store rsi 96 rdx,
  .push (.reg rdx),
  .store rsi 104 rcx,
  .push (.reg rcx),
  .store rsi 112 rbx,
  .push (.reg rbx),
  .store rsi 120 rax,
  .push (.reg rax),
  .store rdi 0 rsp,
  .sub rsi (.imm 120),
  .mov rsp rsi,
  .pop rax,
  .pop rbx,
  .pop rcx,
  .pop rdx,
  .pop rsi,
  .pop rdi,
  .pop r8,
  .pop r9,
  .pop r10,
  .pop r11,
  .pop r12,
  .pop r13,
  .pop r14,
  .pop r15,
  .pop rbp,
  .sti,
  .ret]

def copyStack (curStack newStack : Word) (m : Memory) : Memory :=
  (List.range (stackLength / 8)).foldl (fun m i =>
    store64 m (newStack + BitVec.ofNat 64 (8 * i)) (load64 m (curStack + BitVec.ofNat 64 (8 * i)))) m

def forkCall (curStack newStack slot ret : Word) (s : State) : State :=
  let s := { s with mem := copyStack curStack newStack s.mem }
  let s := s.setReg rdi slot
  let s := s.setReg rsi (newStack + BitVec.ofNat 64 stackLength)
  let s := s.setReg rdx (curStack + BitVec.ofNat 64 stackLength)
  step (.push (.imm ret)) s

def forkSwitch (curStack newStack slot ret : Word) (s : State) : State :=
  exec switchFork (forkCall curStack newStack slot ret s)

def resumeParent (slot : Word) (child : State) : State :=
  exec resume (child.setReg rsp (load64 child.mem slot))

def saveBoth (disp : Word) : List Reg → List Instr
  | [] => []
  | r :: rs => .store rsi disp r :: .push (.reg r) :: saveBoth (disp + 8) rs

def forkEntry : List Instr :=
  [.cli, .pop rcx, .sub rdx (.reg rsp), .sub rsi (.reg rdx), .sub rsi (.imm 8)]

theorem switchFork_eq : switchFork = forkEntry ++ saveBoth 0 (rcx :: contextRegs.reverse) ++
    [.store rdi 0 rsp, .sub rsi (.imm 120), .mov rsp rsi] ++ resume :=
  rfl

theorem exec_saveBoth {rs : List Reg} (hrs : rsp ∉ rs) (s : State) (disp : Word) :
    exec (saveBoth disp rs) s =
      { s with mem := pushBoth s.mem (s.regs rsp) (s.regs rsi - disp + 8) (rs.map s.regs) }.setReg rsp
        (s.regs rsp - BitVec.ofNat 64 (8 * rs.length)) := by
  induction rs generalizing s disp with
  | nil => simp [saveBoth, pushBoth, State.setReg]
  | cons r rs ih =>
    rw [List.mem_cons, not_or] at hrs
    let t := step (.push (.reg r)) (step (.store rsi disp r) s)
    have hregs : t.regs = Function.update s.regs rsp (s.regs rsp - 8) := rfl
    have hmem : t.mem = store64 (store64 s.mem (s.regs rsi - disp) (s.regs r)) (s.regs rsp - 8)
        (s.regs r) := rfl
    have hmap : rs.map t.regs = rs.map s.regs := by
      refine List.map_congr_left (fun q hq => ?_)
      rw [hregs, Function.update_of_ne]
      rintro rfl
      exact hrs.2 hq
    have hrsp : t.regs rsp = s.regs rsp - 8 := by rw [hregs, Function.update_self]
    have hrsi : t.regs rsi = s.regs rsi := by rw [hregs, Function.update_of_ne (by decide)]
    have hchild : s.regs rsi - (disp + 8) + 8 = s.regs rsi - disp + 8 - 8 := by bv_omega
    have hback : s.regs rsi - disp + 8 - 8 = s.regs rsi - disp := by bv_omega
    have haddr : s.regs rsp - 8 - BitVec.ofNat 64 (8 * rs.length) =
        s.regs rsp - BitVec.ofNat 64 (8 * (rs.length + 1)) := by bv_omega
    change exec (saveBoth (disp + 8) rs) t = _
    rw [ih hrs.2, hmap, hrsp, hrsi, hmem, hchild, haddr]
    simp only [State.setReg, hregs, Function.update_idem, List.map_cons, pushBoth, hback,
      List.length_cons]
    rfl

def forkFrame (v : State) : List Word := contextRegs.map v.regs ++ [v.regs rcx]

def forkedMemory (v : State) : Memory :=
  store64 (pushBoth v.mem (v.regs rsp) (v.regs rsi + 8) (forkFrame v).reverse) (v.regs rdi)
    (v.regs rsp - 128)

theorem forkedMemory_holds {v : State}
    (hapart : ∀ x, InRegion (v.regs rsp - 128) 128 x → ¬ InRegion (v.regs rsi - 120) 128 x)
    (hslot : ∀ x, InRegion (v.regs rdi) 8 x → ¬ InRegion (v.regs rsp - 128) 128 x ∧
      ¬ InRegion (v.regs rsi - 120) 128 x) :
    Holds (forkedMemory v) (v.regs rsp - 128) (forkFrame v) ∧
      Holds (forkedMemory v) (v.regs rsi - 120) (forkFrame v) := by
  have hlen : (forkFrame v).length = 16 := by simp [forkFrame, contextRegs]
  have hchild : v.regs rsi + 8 - BitVec.ofNat 64 (8 * 16) = v.regs rsi - 120 := by bv_omega
  have hboth := pushBoth_holds (m := v.mem) (a := v.regs rsp) (b := v.regs rsi + 8)
    (forkFrame v).reverse
  rw [List.length_reverse, hlen, hchild, List.reverse_reverse] at hboth
  obtain ⟨hparent, hchild⟩ := hboth (by omega) hapart
  constructor
  · refine hparent.congr (by omega) (fun x hx => store64_other (fun hs => (hslot x hs).1 ?_))
    rwa [hlen] at hx
  · refine hchild.congr (by omega) (fun x hx => store64_other (fun hs => (hslot x hs).2 ?_))
    rwa [hlen] at hx

theorem exec_saveContexts (v : State) : exec (saveBoth 0 (rcx :: contextRegs.reverse)) v =
    { v with mem := pushBoth v.mem (v.regs rsp) (v.regs rsi + 8) (forkFrame v).reverse }.setReg rsp
      (v.regs rsp - 128) := by
  have hrs : rsp ∉ rcx :: contextRegs.reverse := by decide
  have hframe : (rcx :: contextRegs.reverse).map v.regs = (forkFrame v).reverse := by
    simp [forkFrame]
  have hsize : BitVec.ofNat 64 (8 * (rcx :: contextRegs.reverse).length) = 128 := rfl
  have hdisp : v.regs rsi - 0 + 8 = v.regs rsi + 8 := by bv_omega
  rw [exec_saveBoth hrs, hframe, hsize, hdisp]

theorem exec_leaveParent (u : State) :
    (exec [.store rdi 0 rsp, .sub rsi (.imm 120), .mov rsp rsi] u).mem =
        store64 u.mem (u.regs rdi) (u.regs rsp) ∧
      (exec [.store rdi 0 rsp, .sub rsi (.imm 120), .mov rsp rsi] u).regs rsp = u.regs rsi - 120 := by
  constructor
  · simp [step, State.setReg]
  · simp [step, State.setReg, Operand.value]

theorem exec_switchFork {s v : State} (hv : exec forkEntry s = v)
    (h : Holds (forkedMemory v) (v.regs rsi - 120) (forkFrame v)) :
    ∃ regs, exec switchFork s = ⟨regs, forkedMemory v, v.regs rcx, true⟩ ∧
      contextRegs.map regs = contextRegs.map v.regs ∧ regs rsp = v.regs rsi + 8 := by
  obtain ⟨hmem, hsp⟩ := exec_leaveParent (exec (saveBoth 0 (rcx :: contextRegs.reverse)) v)
  have hexec : exec switchFork s = exec resume (exec [.store rdi 0 rsp, .sub rsi (.imm 120), .mov rsp rsi]
      (exec (saveBoth 0 (rcx :: contextRegs.reverse)) v)) := by
    rw [switchFork_eq, exec_append, exec_append, exec_append, hv]
  generalize exec [.store rdi 0 rsp, .sub rsi (.imm 120), .mov rsp rsi]
    (exec (saveBoth 0 (rcx :: contextRegs.reverse)) v) = w at hmem hsp hexec
  rw [exec_saveContexts, State.mem_setReg, State.setReg_same, State.setReg_other _ _ (by decide)] at hmem
  rw [exec_saveContexts, State.setReg_other _ _ (by decide)] at hsp
  have hforked : w.mem = forkedMemory v := hmem
  rw [← hforked, ← hsp] at h
  obtain ⟨regs, hresume, hmap, hrsp⟩ := exec_resume rfl h
  refine ⟨regs, by rw [hexec, hresume, hforked], hmap, ?_⟩
  rw [hrsp, hsp]
  bv_omega

theorem forkEntry_regs (s : State) : (exec forkEntry s).regs rcx = load64 s.mem (s.regs rsp) ∧
    (exec forkEntry s).regs rsp = s.regs rsp + 8 ∧
    (exec forkEntry s).regs rsi = s.regs rsi - (s.regs rdx - (s.regs rsp + 8)) - 8 ∧
    ∀ r, r ∉ [rcx, rdx, rsi, rsp] → (exec forkEntry s).regs r = s.regs r := by
  refine ⟨?_, ?_, ?_, fun r hr => ?_⟩
  · simp [forkEntry, step, State.setReg]
  · simp [forkEntry, step, State.setReg]
  · simp [forkEntry, step, State.setReg, Operand.value]
  · simp only [List.mem_cons, List.not_mem_nil, or_false, not_or] at hr
    simp [forkEntry, step, State.setReg, hr]

variable {ι : Type} {L : Layout ι} {i j : ι}

theorem Layout.Room.translate {sp : Word} (h : L.Room i sp) {x : Word}
    (hx : InRegion (sp - 120 - L.stack i + L.stack j) 128 x) : InRegion (L.stack j) stackLength x := by
  have hback := h (x - L.stack j + L.stack i) (by unfold InRegion at *; bv_omega)
  unfold InRegion at *
  bv_omega

theorem forkCall_regs (curStack newStack slot ret : Word) (s : State) :
    let u := forkCall curStack newStack slot ret s
    u.regs rsp = s.regs rsp - 8 ∧ load64 u.mem (u.regs rsp) = ret ∧ u.regs rdi = slot ∧
      u.regs rsi = newStack + BitVec.ofNat 64 stackLength ∧
      u.regs rdx = curStack + BitVec.ofNat 64 stackLength ∧ u.regs rbp = s.regs rbp := by
  refine ⟨?_, ?_, ?_, ?_, ?_, ?_⟩
  all_goals simp [forkCall, step, State.setReg, Operand.value, load64_store64]

theorem parent_frame (sp : Word) : sp + 8 - 128 = sp - 120 := by grind

theorem child_frame (sp cur new length : Word) :
    new + length - (cur + length - (sp + 8)) - 8 - 120 = sp - 120 - cur + new := by
  grind

theorem child_sp (sp cur new length : Word) :
    new + length - (cur + length - (sp + 8)) - 8 + 8 = sp + 8 - cur + new := by
  grind

/-- Both contexts resume at the return address with the same registers, `rbp` included; only the
stack pointer of the child is moved to its own stack. -/
theorem switchFork_contexts {u : State} (hij : i ≠ j) (hroom : L.Room i (u.regs rsp))
    (hrdi : u.regs rdi = L.slot i) (hrsi : u.regs rsi = L.stackBtm j)
    (hrdx : u.regs rdx = L.stackBtm i) :
    ∃ child, exec switchFork u = child ∧ child.rip = load64 u.mem (u.regs rsp) ∧
      (resumeParent (L.slot i) child).rip = load64 u.mem (u.regs rsp) ∧
      (∀ r, r ≠ rsp → child.regs r = (resumeParent (L.slot i) child).regs r) ∧
      child.regs rbp = u.regs rbp ∧
      (resumeParent (L.slot i) child).regs rsp = u.regs rsp + 8 ∧
      child.regs rsp = u.regs rsp + 8 - L.stack i + L.stack j := by
  obtain ⟨v, hv⟩ : ∃ v, exec forkEntry u = v := ⟨_, rfl⟩
  obtain ⟨hrcx, hsp, hsi, hother⟩ := hv ▸ forkEntry_regs u
  have hparentAt : v.regs rsp - 128 = u.regs rsp - 120 := by
    rw [hsp, parent_frame]
  have hchildAt : v.regs rsi - 120 = u.regs rsp - 120 - L.stack i + L.stack j := by
    rw [hsi, hrsi, hrdx, Layout.stackBtm, Layout.stackBtm, child_frame]
  have hslotv : v.regs rdi = L.slot i := (hother rdi (by decide)).trans hrdi
  obtain ⟨hparent, hchild⟩ := forkedMemory_holds (v := v) (by
      rw [hparentAt, hchildAt]
      exact fun x hx hx' => L.stacks_apart i j hij x (hroom x hx) (hroom.translate hx')) (by
      rw [hparentAt, hchildAt, hslotv]
      exact fun x hs => ⟨fun hx => L.slot_outside i i x hs (hroom x hx),
        fun hx => L.slot_outside i j x hs (hroom.translate hx)⟩)
  obtain ⟨regs, hexec, hregs, hsp'⟩ := exec_switchFork hv hchild
  have hslot : load64 (forkedMemory v) (L.slot i) = v.regs rsp - 128 := hslotv ▸ load64_store64
  have hframe : Holds (forkedMemory v) ((State.setReg ⟨regs, forkedMemory v, v.regs rcx, true⟩ rsp
      (load64 (forkedMemory v) (L.slot i))).regs rsp) (contextRegs.map v.regs ++ [v.regs rcx]) := by
    rw [State.setReg_same, hslot]
    exact hparent
  obtain ⟨regs', hexec', hregs', hsp''⟩ := exec_resume (s := State.setReg
    ⟨regs, forkedMemory v, v.regs rcx, true⟩ rsp (load64 (forkedMemory v) (L.slot i))) rfl hframe
  rw [State.setReg_same, hslot] at hsp''
  refine ⟨_, hexec, hrcx, ?_, ?_, ?_, ?_, ?_⟩
  all_goals try rw [resumeParent, hexec']
  · exact hrcx
  · intro r hr
    have hr' := mem_contextRegs hr
    exact (List.map_inj_left.mp hregs r hr').trans (List.map_inj_left.mp hregs' r hr').symm
  · exact (List.map_inj_left.mp hregs rbp (by decide)).trans (hother rbp (by decide))
  · exact hsp''.trans (by rw [BitVec.sub_add_cancel, hsp])
  · refine hsp'.trans ?_
    rw [hsi, hrsi, hrdx, Layout.stackBtm, Layout.stackBtm, child_sp]

structure ForkRelocates (L : Layout ι) (i j : ι) (parent child : State) : Prop where
  rip : child.rip = parent.rip
  kept : ∀ r ∈ [rbx, r12, r13, r14, r15], child.regs r = parent.regs r
  rsp_inside : InRegion (L.stack j) (stackLength + 1) (child.regs rsp)
  rsp_distance : L.stackBtm j - child.regs rsp = L.stackBtm i - parent.regs rsp
  rbp_inside : InRegion (L.stack j) stackLength (child.regs rbp)
  rbp_distance : L.stackBtm j - child.regs rbp = L.stackBtm i - parent.regs rbp

theorem forkSwitch_rbp (hij : i ≠ j) (ret : Word) {s : State} (hroom : L.Room i (s.regs rsp - 8)) :
    (forkSwitch (L.stack i) (L.stack j) (L.slot i) ret s).regs rbp = s.regs rbp := by
  obtain ⟨hsp, -, hrdi, hrsi, hrdx, hrbp⟩ := forkCall_regs (L.stack i) (L.stack j) (L.slot i) ret s
  obtain ⟨child, hchild, -, -, -, hfp, -, -⟩ :=
    switchFork_contexts hij (hsp ▸ hroom) hrdi hrsi hrdx
  rw [forkSwitch, hchild, hfp, hrbp]

theorem forkSwitch_frame (hij : i ≠ j) (ret : Word) {s : State} (hroom : L.Room i (s.regs rsp - 8)) :
    (forkSwitch (L.stack i) (L.stack j) (L.slot i) ret s).regs rbp =
      (resumeParent (L.slot i) (forkSwitch (L.stack i) (L.stack j) (L.slot i) ret s)).regs rbp := by
  obtain ⟨hsp, -, hrdi, hrsi, hrdx, -⟩ := forkCall_regs (L.stack i) (L.stack j) (L.slot i) ret s
  obtain ⟨child, hchild, -, -, hregs, -⟩ := switchFork_contexts hij (hsp ▸ hroom) hrdi hrsi hrdx
  rw [forkSwitch, hchild]
  exact hregs rbp (by decide)

theorem fork_relocates_never (hij : i ≠ j) (ret : Word) {s : State}
    (hroom : L.Room i (s.regs rsp - 8)) (hrbp : InRegion (L.stack i) stackLength (s.regs rbp)) :
    let child := forkSwitch (L.stack i) (L.stack j) (L.slot i) ret s
    ¬ ForkRelocates L i j (resumeParent (L.slot i) child) child := by
  intro child hrel
  have hinside := hrel.rbp_inside
  rw [forkSwitch_rbp hij ret hroom] at hinside
  exact L.stacks_apart i j hij _ hrbp hinside

def forkingParent : State :=
  ⟨fun r => if r = rbp then 0x10900 else if r = rsp then 0x10800 else 7, fun _ => 0, 0, true⟩

theorem forkingParent_room : twoThreads.Room false (forkingParent.regs rsp - 8) := by
  have hsp : forkingParent.regs rsp - 8 = 0x107f8 := by decide
  intro x
  simp only [hsp, twoThreads, InRegion, stackLength, cond_false]
  bv_omega

theorem fork_relocates_never_example :
    let child := forkSwitch 0x10000 0x20000 0x8000 0x5000 forkingParent
    ¬ ForkRelocates twoThreads false true (resumeParent 0x8000 child) child :=
  fork_relocates_never (L := twoThreads) (i := false) (j := true) (by decide) 0x5000
    forkingParent_room (by decide)

theorem fork_shares_rbp : let child := forkSwitch 0x10000 0x20000 0x8000 0x5000 forkingParent
    child.regs rbp = 0x10900 ∧ ¬ InRegion (twoThreads.stack true) stackLength (child.regs rbp) ∧
      ¬ ForkRelocates twoThreads false true (resumeParent 0x8000 child) child := by
  intro child
  have hrbp : child.regs rbp = 0x10900 :=
    forkSwitch_rbp (L := twoThreads) (i := false) (j := true) (by decide) 0x5000 forkingParent_room
  have hout : ¬ InRegion (twoThreads.stack true) stackLength (child.regs rbp) := by
    rw [hrbp]
    decide
  exact ⟨hrbp, hout, fun hrel => hout hrel.rbp_inside⟩

end MinOS
