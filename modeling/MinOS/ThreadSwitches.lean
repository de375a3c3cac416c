import MinOS.ContextSwitch
import MinOS.Library.Runs

namespace MinOS

open Library.Words Library.Machine Library.Runs Reg

def stackLength : ℕ := 0x1000

structure Layout (ι : Type) where
  stack : ι → Word
  slot : ι → Word
  stacks_apart : ∀ i j, i ≠ j → ∀ x, InRegion (stack i) stackLength x →
    ¬ InRegion (stack j) stackLength x
  slots_apart : ∀ i j, i ≠ j → ∀ x, InRegion (slot i) 8 x → ¬ InRegion (slot j) 8 x
  slot_outside : ∀ i j x, InRegion (slot i) 8 x → ¬ InRegion (stack j) stackLength x

namespace Layout

variable {ι : Type} (L : Layout ι)

def stackBtm (i : ι) : Word := L.stack i + BitVec.ofNat 64 stackLength

def Owned (i : ι) (x : Word) : Prop := InRegion (L.stack i) stackLength x ∨ InRegion (L.slot i) 8 x

def Foreign (i : ι) (x : Word) : Prop :=
  (∃ j, j ≠ i ∧ InRegion (L.stack j) stackLength x) ∨ ∃ j, InRegion (L.slot j) 8 x

def Room (i : ι) (sp : Word) : Prop :=
  ∀ x, InRegion (sp - 120) 128 x → InRegion (L.stack i) stackLength x

variable {L} {i j : ι} {x sp : Word}

theorem Room.below (h : L.Room i sp) (hx : InRegion (sp - 120) 120 x) :
    InRegion (L.stack i) stackLength x :=
  h x (hx.mono (by omega))

theorem Room.slot (h : L.Room i sp) (j : ι) (hx : InRegion (sp - 120) 128 x) :
    ¬ InRegion (L.slot j) 8 x :=
  fun hs => L.slot_outside j i x hs (h x hx)

theorem Owned.not_stack (h : L.Owned i x) (hij : i ≠ j) : ¬ InRegion (L.stack j) stackLength x := by
  rcases h with h | h
  · exact L.stacks_apart i j hij x h
  · exact L.slot_outside i j x h

theorem Owned.not_slot (h : L.Owned i x) (hij : i ≠ j) : ¬ InRegion (L.slot j) 8 x := by
  rcases h with h | h
  · exact fun hs => L.slot_outside j i x hs h
  · exact L.slots_apart i j hij x h

theorem Owned.foreign (h : L.Owned i x) (hij : i ≠ j) : L.Foreign j x := by
  rcases h with h | h
  · exact .inl ⟨i, hij, h⟩
  · exact .inr ⟨i, h⟩

end Layout

structure System (ι : Type) where
  cpu : State
  cur : ι

inductive SwitchOp (ι : Type) where
  | compute
  | switch (next : ι)
  | prepare (i : ι) (rip thread : Word)

def SwitchOp.Targets {ι : Type} (i : ι) : SwitchOp ι → Prop
  | .compute => False
  | .switch j => j = i
  | .prepare j _ _ => j = i

/-- `thread_stack_init`: the result of `init_stack` becomes the saved stack pointer. -/
def threadStackInit (slot : Word) (s : State) : State :=
  let t := exec initStack s
  { t with mem := store64 t.mem slot (t.regs rax) }

inductive SwitchStep {ι : Type} (L : Layout ι) : System ι → SwitchOp ι → System ι → Prop
  | compute {s : System ι} {cpu : State} : (∀ x, L.Foreign s.cur x → cpu.mem x = s.cpu.mem x) →
      SwitchStep L s .compute ⟨cpu, s.cur⟩
  | switch {s : System ι} {next : ι} : next ≠ s.cur → L.Room s.cur (s.cpu.regs rsp) →
      s.cpu.regs rdi = L.slot s.cur → s.cpu.regs rsi = load64 s.cpu.mem (L.slot next) →
      SwitchStep L s (.switch next) ⟨exec switchContext s.cpu, next⟩
  | prepare {s : System ι} {i : ι} : i ≠ s.cur → s.cpu.regs rdi = L.stackBtm i →
      SwitchStep L s (.prepare i (s.cpu.regs rsi) (s.cpu.regs rdx))
        ⟨threadStackInit (L.slot i) s.cpu, s.cur⟩

variable {ι : Type} {L : Layout ι} {s t : System ι} {op : SwitchOp ι} {ops : List (SwitchOp ι)} {i : ι}

theorem savedMemory_owned {s : System ι} (hi : i ≠ s.cur) (hroom : L.Room s.cur (s.cpu.regs rsp))
    (hslot : s.cpu.regs rdi = L.slot s.cur) {x : Word} (hx : L.Owned i x) :
    savedMemory s.cpu x = s.cpu.mem x :=
  savedMemory_other (fun hs => hx.not_stack hi (hroom.below hs))
    (fun hs => hx.not_slot hi (hslot ▸ hs))

theorem threadStackInit_owned {j : ι} (hij : i ≠ j) {cpu : State} (hbtm : cpu.regs rdi = L.stackBtm j)
    {x : Word} (hx : L.Owned i x) : (threadStackInit (L.slot j) cpu).mem x = cpu.mem x := by
  obtain ⟨regs, hexec, -⟩ := exec_initStack cpu
  have hframe : ¬ InRegion (cpu.regs rdi - 128) 128 x := by
    intro hf
    refine hx.not_stack hij ?_
    rw [hbtm] at hf
    unfold Layout.stackBtm stackLength InRegion at *
    bv_omega
  simp only [threadStackInit, hexec]
  rw [store64_other (hx.not_slot hij), preparedMemory_other hframe]

theorem step_owned (h : SwitchStep L s op t) (hcur : i ≠ s.cur) (hop : ¬ op.Targets i) :
    i ≠ t.cur ∧ ∀ x, L.Owned i x → t.cpu.mem x = s.cpu.mem x := by
  cases h with
  | compute hmem => exact ⟨hcur, fun x hx => hmem x (hx.foreign hcur)⟩
  | switch hne hroom hslot hnext =>
    refine ⟨fun hi => hop hi.symm, fun x hx => ?_⟩
    rw [exec_switchContext_mem]
    exact savedMemory_owned hcur hroom hslot hx
  | prepare hne hbtm =>
    exact ⟨hcur, fun x hx => threadStackInit_owned (fun hi => hop hi.symm) hbtm hx⟩

theorem run_owned (h : Run (fun s op t => SwitchStep L s op t ∧ ¬ op.Targets i) s ops t)
    (hcur : i ≠ s.cur) : i ≠ t.cur ∧ ∀ x, L.Owned i x → t.cpu.mem x = s.cpu.mem x := by
  refine h.invariant (I := fun u => i ≠ u.cur ∧ ∀ x, L.Owned i x → u.cpu.mem x = s.cpu.mem x)
    ⟨hcur, fun _ _ => rfl⟩ ?_
  rintro u op v ⟨hu, hmem⟩ ⟨hstep, hop⟩
  obtain ⟨hv, hkeep⟩ := step_owned hstep hu hop
  exact ⟨hv, fun x hx => (hkeep x hx).trans (hmem x hx)⟩

structure Parked (L : Layout ι) (m : Memory) (i : ι) (sp : Word) (ws : List Word) (ret : Word) :
    Prop where
  slot : load64 m (L.slot i) = sp
  length : ws.length = 15
  frame : Holds m sp (ws ++ [ret])
  inside : ∀ x, InRegion sp 128 x → InRegion (L.stack i) stackLength x

variable {m m' : Memory} {sp ret : Word} {ws : List Word}

theorem Parked.congr (h : Parked L m i sp ws ret) (hm : ∀ x, L.Owned i x → m' x = m x) :
    Parked L m' i sp ws ret := by
  have hlen : 8 * (ws ++ [ret]).length = 128 := by rw [List.length_append, h.length]; rfl
  refine ⟨?_, h.length, h.frame.congr (by omega) (fun x hx => ?_), h.inside⟩
  · rw [← h.slot]
    exact load64_congr (fun x hx => hm x (.inr hx))
  · rw [hlen] at hx
    exact hm x (.inl (h.inside x hx))

theorem Parked.switch_in (h : Parked L s.cpu.mem i sp ws ret) (hstep : SwitchStep L s (.switch i) t) :
    contextRegs.map t.cpu.regs = ws ∧ t.cpu.regs rsp = sp + 128 ∧ t.cpu.rip = ret ∧
      ∀ x, L.Owned i x → t.cpu.mem x = s.cpu.mem x := by
  cases hstep with
  | switch hne hroom hslot hnext =>
    have hkeep : ∀ x, L.Owned i x → savedMemory s.cpu x = s.cpu.mem x :=
      fun x hx => savedMemory_owned hne hroom hslot hx
    have hparked := h.congr hkeep
    rw [h.slot] at hnext
    obtain ⟨regs, hexec, hmap, hrsp⟩ := exec_switchContext h.length (hnext ▸ hparked.frame)
    rw [hexec]
    exact ⟨hmap, hnext ▸ hrsp, rfl, hkeep⟩

theorem switch_out_parked {next : ι} (hstep : SwitchStep L s (.switch next) t) :
    Parked L t.cpu.mem s.cur (s.cpu.regs rsp - 120) (contextRegs.map s.cpu.regs)
      (load64 s.cpu.mem (s.cpu.regs rsp)) := by
  cases hstep with
  | switch hne hroom hslot hnext =>
    rw [exec_switchContext_mem]
    refine ⟨?_, rfl, savedMemory_holds (fun x hx => ?_), hroom⟩
    · rw [← hslot]
      exact savedMemory_slot s.cpu
    · rw [hslot]
      exact hroom.slot s.cur hx

theorem prepare_parked {rip thread : Word} (hstep : SwitchStep L s (.prepare i rip thread) t) :
    Parked L t.cpu.mem i (L.stackBtm i - 128) (initialFrame thread) rip := by
  cases hstep with
  | prepare hne hbtm =>
    obtain ⟨regs, hexec, hrax, -⟩ := exec_initStack s.cpu
    have hinside : ∀ x, InRegion (L.stackBtm i - 128) 128 x → InRegion (L.stack i) stackLength x := by
      intro x hx
      unfold Layout.stackBtm stackLength InRegion at *
      bv_omega
    have hframe := preparedMemory_holds s.cpu
    simp only [threadStackInit, hexec, hrax]
    rw [hbtm] at hframe ⊢
    refine ⟨load64_store64, rfl, hframe.congr (by simp [initialFrame]) (fun x hx => ?_), hinside⟩
    exact store64_other (fun hs => L.slot_outside i i x hs (hinside x (by simpa [initialFrame] using hx)))

/-- Across any switches among other threads, a thread gets back the context it was switched out
with, and a prepared thread starts in the context prepared for it. -/
theorem switch_context_roundtrip (L : Layout ι) :
    (∀ {s₀ s₁ s₂ s₃ : System ι} {next : ι} {ops : List (SwitchOp ι)},
      SwitchStep L s₀ (.switch next) s₁ →
      Run (fun s op t => SwitchStep L s op t ∧ ¬ op.Targets s₀.cur) s₁ ops s₂ →
      SwitchStep L s₂ (.switch s₀.cur) s₃ →
      (∀ r, r ≠ rsp → s₃.cpu.regs r = s₀.cpu.regs r) ∧
        s₃.cpu.regs rsp = s₀.cpu.regs rsp + 8 ∧
        s₃.cpu.rip = load64 s₀.cpu.mem (s₀.cpu.regs rsp) ∧
        ∀ x, InRegion (L.stack s₀.cur) stackLength x → s₃.cpu.mem x = s₁.cpu.mem x ∧
          (¬ InRegion (s₀.cpu.regs rsp - 120) 120 x → s₃.cpu.mem x = s₀.cpu.mem x)) ∧
    ∀ {s₀ s₁ s₂ s₃ : System ι} {i : ι} {rip thread : Word} {ops : List (SwitchOp ι)},
      SwitchStep L s₀ (.prepare i rip thread) s₁ →
      Run (fun s op t => SwitchStep L s op t ∧ ¬ op.Targets i) s₁ ops s₂ →
      SwitchStep L s₂ (.switch i) s₃ →
      s₃.cpu.rip = rip ∧ s₃.cpu.regs rdi = thread ∧
        (∀ r, r ≠ rsp → r ≠ rdi → s₃.cpu.regs r = 0) ∧ s₃.cpu.regs rsp = L.stackBtm i := by
  constructor
  · intro s₀ s₁ s₂ s₃ next ops hout hrun hin
    have hne : s₀.cur ≠ s₁.cur := by
      cases hout with
      | switch hne => exact hne.symm
    obtain ⟨-, hkeep⟩ := run_owned hrun hne
    obtain ⟨hregs, hrsp, hrip, hmem⟩ := ((switch_out_parked hout).congr hkeep).switch_in hin
    refine ⟨fun r hr => ?_, by rw [hrsp]; bv_omega, hrip, fun x hx => ?_⟩
    · exact List.map_inj_left.mp hregs r (mem_contextRegs hr)
    · have hsame : s₃.cpu.mem x = s₁.cpu.mem x := (hmem x (.inl hx)).trans (hkeep x (.inl hx))
      refine ⟨hsame, fun hout' => hsame.trans ?_⟩
      cases hout with
      | switch hne hroom hslot hnext =>
        rw [exec_switchContext_mem]
        exact savedMemory_other hout' (fun hs => L.slot_outside _ _ x (hslot ▸ hs) hx)
  · intro s₀ s₁ s₂ s₃ i rip thread ops hprep hrun hin
    have hne : i ≠ s₁.cur := by
      cases hprep with
      | prepare hne => exact hne
    obtain ⟨-, hkeep⟩ := run_owned hrun hne
    obtain ⟨hregs, hrsp, hrip, -⟩ := ((prepare_parked hprep).congr hkeep).switch_in hin
    simp only [contextRegs, initialFrame, List.map_cons, List.map_nil, List.cons.injEq, and_true] at hregs
    refine ⟨hrip, hregs.2.2.2.2.2.1, fun r hrsp' hrdi => ?_, by rw [hrsp]; bv_omega⟩
    cases r <;> first | exact absurd rfl hrsp' | exact absurd rfl hrdi | simp only [hregs]

def twoThreads : Layout Bool where
  stack i := cond i 0x20000 0x10000
  slot i := cond i 0x8008 0x8000
  stacks_apart := by
    rintro (_ | _) (_ | _) hij x
    all_goals simp only [InRegion, stackLength, cond_true, cond_false, ne_eq, not_true_eq_false] at *
    all_goals bv_omega
  slots_apart := by
    rintro (_ | _) (_ | _) hij x
    all_goals simp only [InRegion, cond_true, cond_false, ne_eq, not_true_eq_false] at *
    all_goals bv_omega
  slot_outside := by
    rintro (_ | _) (_ | _) x
    all_goals simp only [InRegion, stackLength, cond_true, cond_false]
    all_goals bv_omega

def callRegs (sp first second third : Word) : Reg → Word
  | .rsp => sp
  | .rdi => first
  | .rsi => second
  | .rdx => third
  | _ => 7

def calling (L : Layout ι) (s : System ι) (sp : Word) (j : ι) : System ι :=
  ⟨{ s.cpu with regs := callRegs sp (L.slot s.cur) (load64 s.cpu.mem (L.slot j)) 0 }, s.cur⟩

theorem calling_switch {s : System ι} {sp : Word} {j : ι} (hne : j ≠ s.cur)
    (hroom : L.Room s.cur sp) : SwitchStep L s .compute (calling L s sp j) ∧
      SwitchStep L (calling L s sp j) (.switch j) ⟨exec switchContext (calling L s sp j).cpu, j⟩ :=
  ⟨.compute (fun _ _ => rfl), .switch hne hroom rfl rfl⟩

theorem switch_context_roundtrip_example : ∃ s₀ s₁ s₂ s₃ s₄ s₅ : System Bool,
    SwitchStep twoThreads s₀ (.prepare true 0x5000 0x7000) s₁ ∧
    SwitchStep twoThreads s₁ .compute s₂ ∧ SwitchStep twoThreads s₂ (.switch true) s₃ ∧
    (s₃.cpu.rip = 0x5000 ∧ s₃.cpu.regs rdi = 0x7000 ∧ s₃.cpu.regs rsp = 0x21000) ∧
    SwitchStep twoThreads s₃ .compute s₄ ∧ SwitchStep twoThreads s₄ (.switch false) s₅ ∧
    s₅.cpu.regs rbx = 7 ∧ s₅.cpu.regs rsp = 0x10808 := by
  let s₀ : System Bool := ⟨⟨callRegs 0x10800 0x21000 0x5000 0x7000, fun _ => 0, 0, true⟩, false⟩
  have hroom : twoThreads.Room false 0x10800 ∧ twoThreads.Room true 0x20800 := by
    constructor
    all_goals intro x
    all_goals simp only [twoThreads, InRegion, stackLength, cond_true, cond_false]
    all_goals bv_omega
  have hprep : SwitchStep twoThreads s₀ (.prepare true 0x5000 0x7000) _ := .prepare (by decide) rfl
  obtain ⟨hcompute, hout⟩ := calling_switch (s := ⟨threadStackInit 0x8008 s₀.cpu, false⟩)
    (j := true) Bool.noConfusion hroom.1
  obtain ⟨hrip, hrdi, -, hrsp⟩ :=
    (switch_context_roundtrip twoThreads).2 hprep (.single ⟨hcompute, id⟩) hout
  obtain ⟨hcompute', hin⟩ := calling_switch (s := ⟨exec switchContext _, true⟩)
    (j := false) Bool.noConfusion hroom.2
  obtain ⟨hregs, hrsp', -⟩ :=
    (switch_context_roundtrip twoThreads).1 hout (.single ⟨hcompute', id⟩) hin
  exact ⟨_, _, _, _, _, _, hprep, hcompute, hout, ⟨hrip, hrdi, hrsp⟩, hcompute', hin,
    hregs rbx (by decide), hrsp'⟩

end MinOS
