import Mathlib.Data.List.Infix
import MinOS.InterruptControllers
import MinOS.Library.Interleavings

/-!
Interrupts while the kernel runs: the devices, the two controllers, the interrupt flag, and the
handlers of the timer and of the serial ports as far as they use these.
-/

namespace MinOS

open Library.Interleavings Library.Runs Library.Words

inductive IntrStmt where
  | cli
  | sti
  | out (port : BitVec 16) (val : BitVec 8)
  | tick
  | schedule
  | iret
deriving DecidableEq

def initPicStmts : List IntrStmt := initPicWrites.map (fun w => .out w.1 w.2) ++ [.sti]

def timerStmts : List IntrStmt := [.cli, .tick, .out 0x20 0x20, .sti, .schedule, .iret]

def comStmts : List IntrStmt :=
  [.cli, .out 0x20 0x20, .out 0xa0 0x20, .cli, .sti, .cli, .sti, .cli, .sti, .sti, .iret]

def entered (v : ℕ) : Option (List IntrStmt) :=
  match gates.lookup v with
  | some .timerHandler => some timerStmts
  | some .comHandler => some comStmts
  | _ => none

/-- `code` is what each thread has still to do of the handlers that it has been interrupted for, and
`taken` the vectors of all interrupts so far. -/
structure Board (ι : Type) where
  pics : Pics
  intr : Bool
  tick : Word
  current : ι
  code : ι → List IntrStmt
  taken : List ℕ

/-- With `yield` a thread changes the flag and gives up the processor, from the scheduler or from other
code than the handlers, which does not use the controllers. -/
inductive BoardEvent (ι : Type) where
  | raise (irq : ℕ)
  | interrupt
  | stmt
  | yield (i : ι) (intr : Bool)

namespace Board

variable {ι : Type} [DecidableEq ι]

def setCode (b : Board ι) (code : List IntrStmt) : Board ι :=
  { b with code := Function.update b.code b.current code }

def execStmt (b : Board ι) : IntrStmt → Option (Board ι)
  | .cli => some { b with intr := false }
  | .sti => some { b with intr := true }
  | .out port val => some { b with pics := b.pics.out8 port val }
  | .tick => some { b with tick := b.tick + 1 }
  | .schedule => none
  | .iret => some { b with intr := true }

def exec (b : Board ι) : BoardEvent ι → Option (Board ι)
  | .raise irq => if irq < 16 ∧ irq ≠ 2 then some { b with pics := b.pics.raise irq } else none
  | .interrupt =>
    if b.intr then
      b.pics.acknowledge.bind (fun x => (entered x.1).map (fun stmts =>
        { b.setCode (stmts ++ b.code b.current) with pics := x.2, intr := false, taken := b.taken ++ [x.1] }))
    else none
  | .stmt =>
    match b.code b.current with
    | [] => none
    | stmt :: rest => (b.setCode rest).execStmt stmt
  | .yield i intr =>
    match b.code b.current with
    | [] => some { b with intr := intr, current := i }
    | .schedule :: rest => some { b.setCode rest with intr := intr, current := i }
    | _ => none

structure Start (i : ι) (b : Board ι) : Prop where
  current : b.current = i
  intr : b.intr = false
  master : b.pics.master.isr = 0
  slave : b.pics.slave.isr = 0
  code : b.code i = initPicStmts
  others : ∀ j, j ≠ i → b.code j = []
  taken : b.taken = []
  tick : b.tick = 0

end Board

def IntrStmt.Harmless : IntrStmt → Prop
  | .out port val => port = 0xa0 ∧ val = 0x20
  | .tick => False
  | _ => True

instance (stmt : IntrStmt) : Decidable stmt.Harmless := by
  cases stmt <;> unfold IntrStmt.Harmless <;> infer_instance

inductive HandlerPhase (p : Pics) (intr : Bool) (taken : List ℕ) (owed : ℕ) : List IntrStmt → Prop
  | starting {writes : List (BitVec 16 × BitVec 8)} {rest : List IntrStmt} :
      writes <:+ initPicWrites → Configured (writePics p writes) → p.master.isr = 0 → intr = false →
      owed = 0 → (∀ stmt ∈ rest, stmt.Harmless) →
      HandlerPhase p intr taken owed (writes.map (fun w => .out w.1 w.2) ++ rest)
  | idle {code : List IntrStmt} : Configured p → p.master.isr = 0 → owed = 0 →
      (∀ stmt ∈ code, stmt.Harmless) → HandlerPhase p intr taken owed code
  | serving {i : ℕ} {before rest : List IntrStmt} : Configured p → i < 8 → p.master.isr = 1#8 <<< i →
      taken.getLast? = some (32 + i) → intr = false → (∀ stmt ∈ before, stmt = .cli ∨ stmt = .tick) →
      owed = before.count .tick → (∀ stmt ∈ rest, stmt.Harmless) →
      HandlerPhase p intr taken owed (before ++ .out 0x20 0x20 :: rest)

theorem HandlerPhase.of_intr {p : Pics} {taken : List ℕ} {owed : ℕ} {code : List IntrStmt}
    (h : HandlerPhase p true taken owed code) : Configured p ∧ p.master.isr = 0 ∧ owed = 0 ∧
      ∀ stmt ∈ code, stmt.Harmless := by
  cases h with
  | starting hsuffix hconf hisr hintr => cases hintr
  | idle hconf hisr howed hcode => exact ⟨hconf, hisr, howed, hcode⟩
  | serving hconf hi hisr hlast hintr => cases hintr

theorem HandlerPhase.of_head {p : Pics} {intr : Bool} {taken : List ℕ} {owed : ℕ} {code : List IntrStmt}
    (h : HandlerPhase p intr taken owed code) (hhead : code.head? = none ∨ code.head? = some .schedule) :
    Configured p ∧ p.master.isr = 0 ∧ owed = 0 ∧ ∀ stmt ∈ code, stmt.Harmless := by
  cases h with
  | @starting writes rest hsuffix hconf hisr hintr howed hrest =>
    cases writes with
    | nil => exact ⟨hconf, hisr, howed, hrest⟩
    | cons w writes => simp at hhead
  | idle hconf hisr howed hcode => exact ⟨hconf, hisr, howed, hcode⟩
  | @serving i before rest hconf hi hisr hlast hintr hbefore =>
    cases before with
    | nil => simp at hhead
    | cons stmt before => rcases hbefore stmt List.mem_cons_self with rfl | rfl <;> simp at hhead

theorem entered_cases {k : ℕ} (hk : k = 0 ∨ k = 3 ∨ k = 4) : ∃ before rest,
    entered (32 + k) = some (before ++ .out 0x20 0x20 :: rest) ∧ (∀ stmt ∈ before, stmt = .cli ∨ stmt = .tick) ∧
      before.count .tick = (if k = 0 then 1 else 0) ∧ ∀ stmt ∈ rest, stmt.Harmless := by
  rcases hk with rfl | rfl | rfl
  · exact ⟨[.cli, .tick], [.sti, .schedule, .iret], rfl, by decide, by decide, by decide⟩
  · exact ⟨[.cli], _, rfl, by decide, by decide, by decide⟩
  · exact ⟨[.cli], _, rfl, by decide, by decide, by decide⟩

namespace Board

variable {ι : Type} {b c : Board ι} {i : ι}

structure Inv (b : Board ι) : Prop where
  slave : b.pics.slave.isr = 0
  others : ∀ j, j ≠ b.current → ∀ stmt ∈ b.code j, stmt.Harmless
  phase : ∃ owed, b.tick + BitVec.ofNat 64 owed = BitVec.ofNat 64 (b.taken.count 32) ∧
    HandlerPhase b.pics b.intr b.taken owed (b.code b.current)
  taken : ∀ v ∈ b.taken, v = 32 ∨ v = 35 ∨ v = 36

theorem Start.inv (h : Start i b) : b.Inv where
  slave := h.slave
  others := fun j hj stmt hstmt => by
    rw [h.others j (h.current ▸ hj)] at hstmt
    exact absurd hstmt List.not_mem_nil
  phase := by
    refine ⟨0, by rw [h.tick, h.taken]; rfl, ?_⟩
    rw [h.current, h.code, initPicStmts]
    exact .starting (List.suffix_refl _) (Pics.configured_initPic _) h.master h.intr rfl (by decide)
  taken := fun v hv => by
    rw [h.taken] at hv
    exact absurd hv List.not_mem_nil

theorem Inv.raise (h : b.Inv) (irq : ℕ) : ({ b with pics := b.pics.raise irq } : Board ι).Inv := by
  obtain ⟨hmaster, hslave⟩ := Pics.isr_raise irq b.pics
  obtain ⟨owed, hticks, hphase⟩ := h.phase
  refine ⟨hslave.trans h.slave, h.others, ⟨owed, hticks, ?_⟩, h.taken⟩
  have halike := Pics.alike_raise irq b.pics
  change HandlerPhase (b.pics.raise irq) b.intr b.taken owed (b.code b.current)
  generalize b.code b.current = code at hphase
  cases hphase with
  | starting hsuffix hconf hisr hintr howed hrest =>
    exact .starting hsuffix (halike.writePics.configured hconf) (hmaster.trans hisr) hintr howed hrest
  | idle hconf hisr howed hcode => exact .idle (halike.configured hconf) (hmaster.trans hisr) howed hcode
  | serving hconf hi hisr hlast hintr hbefore howed hrest =>
    exact .serving (halike.configured hconf) hi (hmaster.trans hisr) hlast hintr hbefore howed hrest

section Steps

variable [DecidableEq ι]

theorem Inv.next {p : Pics} {intr : Bool} {t : Word} {rest : List IntrStmt} (h : b.Inv)
    (hslave : p.slave.isr = 0) (hphase : ∃ owed, t + BitVec.ofNat 64 owed = BitVec.ofNat 64 (b.taken.count 32) ∧
      HandlerPhase p intr b.taken owed rest) :
    ({ b.setCode rest with pics := p, intr := intr, tick := t } : Board ι).Inv := by
  refine ⟨hslave, fun j hj => ?_, ?_, h.taken⟩
  · have hne : j ≠ b.current := hj
    change ∀ stmt ∈ Function.update b.code b.current rest j, stmt.Harmless
    rw [Function.update_of_ne hne]
    exact h.others j hne
  · change ∃ owed, t + BitVec.ofNat 64 owed = BitVec.ofNat 64 (b.taken.count 32) ∧
      HandlerPhase p intr b.taken owed (Function.update b.code b.current rest b.current)
    rw [Function.update_self]
    exact hphase

theorem Inv.interrupt (h : b.Inv) (hexec : b.exec .interrupt = some c) : c.Inv := by
  simp only [exec, Option.ite_none_right_eq_some, Option.bind_eq_some_iff, Option.map_eq_some_iff] at hexec
  obtain ⟨hintr, x, hx, stmts, hstmts, rfl⟩ := hexec
  obtain ⟨owed, hticks, hphase⟩ := h.phase
  rw [hintr] at hphase
  obtain ⟨hconf, hisr, rfl, hcode⟩ := hphase.of_intr
  obtain ⟨k, hk, hvector, hconf', hisr', hslave⟩ := hconf.acknowledge hisr hx
  obtain ⟨before, rest, hentered, hbefore, hcount, hrest⟩ := entered_cases hk
  rw [hvector, hentered, Option.some.injEq] at hstmts
  subst hstmts
  refine ⟨(congrArg Pic.isr hslave).trans h.slave, fun j hj => ?_, ⟨before.count .tick, ?_, ?_⟩, ?_⟩
  · have hne : j ≠ b.current := hj
    change ∀ stmt ∈ Function.update b.code b.current _ j, stmt.Harmless
    rw [Function.update_of_ne hne]
    exact h.others j hne
  · have hcounts : (b.taken ++ [x.1]).count 32 = b.taken.count 32 + if k = 0 then 1 else 0 := by
      rw [List.count_append, hvector]
      rcases hk with rfl | rfl | rfl <;> rfl
    change b.tick + BitVec.ofNat 64 (before.count .tick) = BitVec.ofNat 64 ((b.taken ++ [x.1]).count 32)
    rw [hcounts, hcount, BitVec.ofNat_add, ← hticks]
    simp
  · change HandlerPhase x.2 false (b.taken ++ [x.1]) (before.count .tick)
      (Function.update b.code b.current (before ++ .out 0x20 0x20 :: rest ++ b.code b.current) b.current)
    rw [Function.update_self, List.append_assoc, List.cons_append]
    refine .serving hconf' (by omega) hisr' (by simp [hvector]) rfl hbefore rfl ?_
    intro stmt hstmt
    rcases List.mem_append.mp hstmt with hstmt | hstmt
    · exact hrest stmt hstmt
    · exact hcode stmt hstmt
  · intro v hv
    rcases List.mem_append.mp hv with hv | hv
    · exact h.taken v hv
    · rw [List.mem_singleton.mp hv, hvector]
      omega

theorem Inv.stmt_idle (h : b.Inv) (hconf : Configured b.pics) (hisr : b.pics.master.isr = 0)
    (htick : b.tick = BitVec.ofNat 64 (b.taken.count 32)) (hcode : ∀ stmt ∈ b.code b.current, stmt.Harmless)
    (hexec : b.exec .stmt = some c) : c.Inv := by
  rw [exec] at hexec
  cases hlist : b.code b.current with
  | nil =>
    rw [hlist] at hexec
    cases hexec
  | cons stmt rest =>
    rw [hlist] at hexec hcode
    obtain ⟨hstmt, hrest⟩ := List.forall_mem_cons.mp hcode
    have hphase : ∀ intr, ∃ owed, b.tick + BitVec.ofNat 64 owed = BitVec.ofNat 64 (b.taken.count 32) ∧
        HandlerPhase b.pics intr b.taken owed rest :=
      fun intr => ⟨0, by rw [htick]; exact BitVec.add_zero _, .idle hconf hisr rfl hrest⟩
    cases stmt with
    | cli =>
      obtain rfl := Option.some.inj hexec
      exact h.next h.slave (hphase false)
    | sti =>
      obtain rfl := Option.some.inj hexec
      exact h.next h.slave (hphase true)
    | out port val =>
      obtain ⟨rfl, rfl⟩ := hstmt
      obtain rfl := Option.some.inj hexec
      have hsame : b.pics.out8 0xa0 0x20 = b.pics := Pics.eoi_alike h.slave
      change ({ b.setCode rest with pics := b.pics.out8 0xa0 0x20 } : Board ι).Inv
      rw [hsame]
      exact h.next h.slave (hphase b.intr)
    | tick => exact hstmt.elim
    | schedule => cases hexec
    | iret =>
      obtain rfl := Option.some.inj hexec
      exact h.next h.slave (hphase true)

theorem Inv.stmt (h : b.Inv) (hexec : b.exec .stmt = some c) : c.Inv := by
  obtain ⟨owed, hticks, hphase⟩ := h.phase
  generalize hlist : b.code b.current = code at hphase
  cases hphase with
  | @starting writes rest hsuffix hconf hisr hintr howed hrest =>
    subst howed
    cases writes with
    | nil =>
      refine h.stmt_idle hconf hisr ?_ (hlist ▸ hrest) hexec
      rw [← hticks]
      exact (BitVec.add_zero _).symm
    | cons w writes =>
      rw [exec, hlist] at hexec
      obtain rfl := Option.some.inj hexec
      have hisr' := Pics.isr_out8 hisr h.slave w.1 w.2
      refine h.next hisr'.2 ⟨0, hticks, ?_⟩
      exact .starting ((List.suffix_cons w writes).trans hsuffix) hconf hisr'.1 hintr rfl hrest
  | idle hconf hisr howed hcode =>
    subst howed
    refine h.stmt_idle hconf hisr ?_ (hlist ▸ hcode) hexec
    rw [← hticks]
    exact (BitVec.add_zero _).symm
  | @serving i before rest hconf hi hisr hlast hintr hbefore howed hrest =>
    subst howed
    cases before with
    | nil =>
      rw [exec, hlist] at hexec
      obtain rfl := Option.some.inj hexec
      refine h.next h.slave ⟨0, hticks, .idle hconf.out8_eoi (Pics.eoi_master hi hisr) rfl hrest⟩
    | cons stmt before =>
      obtain ⟨hstmt, hafter⟩ := List.forall_mem_cons.mp hbefore
      rw [exec, hlist] at hexec
      rcases hstmt with rfl | rfl
      · obtain rfl := Option.some.inj hexec
        exact h.next h.slave ⟨_, hticks, .serving hconf hi hisr hlast rfl hafter rfl hrest⟩
      · obtain rfl := Option.some.inj hexec
        refine h.next h.slave ⟨before.count .tick, ?_, .serving hconf hi hisr hlast hintr hafter rfl hrest⟩
        rw [← hticks, List.count_cons_self, BitVec.add_assoc, BitVec.ofNat_add, BitVec.add_comm 1]
        rfl

theorem Inv.switch {intr : Bool} {rest : List IntrStmt} (h : b.Inv) (hconf : Configured b.pics)
    (hisr : b.pics.master.isr = 0) (htick : b.tick = BitVec.ofNat 64 (b.taken.count 32))
    (hrest : ∀ stmt ∈ rest, stmt.Harmless) (i : ι) :
    ({ b.setCode rest with intr := intr, current := i } : Board ι).Inv := by
  have hall : ∀ j, ∀ stmt ∈ Function.update b.code b.current rest j, stmt.Harmless := by
    intro j
    by_cases hj : j = b.current
    · rw [hj, Function.update_self]
      exact hrest
    · rw [Function.update_of_ne hj]
      exact h.others j hj
  refine ⟨h.slave, fun j _ => hall j, ⟨0, ?_, .idle hconf hisr rfl (hall i)⟩, h.taken⟩
  exact (BitVec.add_zero _).trans htick

theorem Inv.yield {intr : Bool} (h : b.Inv) (hexec : b.exec (.yield i intr) = some c) : c.Inv := by
  obtain ⟨owed, hticks, hphase⟩ := h.phase
  rw [exec] at hexec
  cases hlist : b.code b.current with
  | nil =>
    rw [hlist] at hexec hphase
    obtain rfl := Option.some.inj hexec
    obtain ⟨hconf, hisr, rfl, hcode⟩ := hphase.of_head (.inl rfl)
    have hsame : b.setCode [] = b := by
      rw [setCode, ← hlist, Function.update_eq_self]
    have hswitch : ({ b.setCode [] with intr := intr, current := i } : Board ι).Inv :=
      h.switch hconf hisr ((BitVec.add_zero _).symm.trans hticks) hcode i
    rwa [hsame] at hswitch
  | cons stmt rest =>
    rw [hlist] at hexec hphase
    cases stmt with
    | schedule =>
      obtain rfl := Option.some.inj hexec
      obtain ⟨hconf, hisr, rfl, hcode⟩ := hphase.of_head (.inr rfl)
      exact h.switch hconf hisr ((BitVec.add_zero _).symm.trans hticks) (List.forall_mem_cons.mp hcode).2 i
    | _ => cases hexec

theorem Inv.exec {e : BoardEvent ι} (h : b.Inv) (hexec : b.exec e = some c) : c.Inv := by
  cases e with
  | raise irq =>
    rw [Board.exec, Option.ite_none_right_eq_some, Option.some.injEq] at hexec
    exact hexec.2 ▸ h.raise irq
  | interrupt => exact h.interrupt hexec
  | stmt => exact h.stmt hexec
  | yield i intr => exact h.yield hexec

theorem inv_of_run {es : List (BoardEvent ι)} (hstart : Start i b)
    (hrun : Run (fun b e c => Board.exec b e = some c) b es c) : c.Inv :=
  hrun.invariant hstart.inv (fun h hstep => h.exec hstep)

theorem Inv.exists_interrupt {irq : ℕ} (h : b.Inv) (hintr : b.intr = true)
    (hirq : irq = 0 ∨ irq = 3 ∨ irq = 4) (hirr : b.pics.master.irr.getLsbD irq = true) :
    ∃ k q stmts, (k = 0 ∨ k = 3 ∨ k = 4) ∧ k ≤ irq ∧ entered (32 + k) = some stmts ∧
      b.exec .interrupt = some { b.setCode (stmts ++ b.code b.current) with
        pics := q, intr := false, taken := b.taken ++ [32 + k] } := by
  obtain ⟨owed, -, hphase⟩ := h.phase
  rw [hintr] at hphase
  obtain ⟨hconf, hisr, -, -⟩ := hphase.of_intr
  obtain ⟨k, q, hk, hle, hack⟩ := hconf.exists_acknowledge hisr hirq hirr
  obtain ⟨before, rest, hentered, -⟩ := entered_cases hk
  refine ⟨k, q, _, hk, hle, hentered, ?_⟩
  rw [Board.exec, if_pos hintr, hack, Option.bind_some, hentered, Option.map_some]

/-- Whenever interrupts are on, none is in service, every tick has been counted, and the next request
of the timer or of a serial port that comes is taken at once and has a handler. -/
theorem interrupts_served {es : List (BoardEvent ι)} (hstart : Start i b)
    (hrun : Run (fun b e c => Board.exec b e = some c) b es c) (hintr : c.intr = true) :
    c.pics.master.isr = 0 ∧ c.pics.slave.isr = 0 ∧ c.tick = BitVec.ofNat 64 (c.taken.count 32) ∧
      ∀ irq, irq = 0 ∨ irq = 3 ∨ irq = 4 → c.pics.master.irr.getLsbD irq = true →
        ∃ d k, c.exec .interrupt = some d ∧ k ≤ irq ∧ d.taken = c.taken ++ [32 + k] := by
  have hinv := inv_of_run hstart hrun
  obtain ⟨owed, hticks, hphase⟩ := hinv.phase
  rw [hintr] at hphase
  obtain ⟨hconf, hisr, rfl, hcode⟩ := hphase.of_intr
  refine ⟨hisr, hinv.slave, (BitVec.add_zero _).symm.trans hticks, fun irq hirq hirr => ?_⟩
  obtain ⟨k, q, stmts, -, hle, -, hexec⟩ := hinv.exists_interrupt hintr hirq hirr
  exact ⟨_, k, hexec, hle, rfl⟩

def firmwareBoard : Board ℕ where
  pics := ⟨⟨0, 0, 0xb8, 0x11, 8, 4, 1, .ready⟩, ⟨0, 0, 0xff, 0x11, 0x70, 2, 1, .ready⟩⟩
  intr := false
  tick := 0
  current := 0
  code := fun i => if i = 0 then initPicStmts else []
  taken := []

theorem start_firmwareBoard : Start 0 firmwareBoard :=
  ⟨rfl, rfl, rfl, rfl, rfl, fun _ hj => if_neg hj, rfl, rfl⟩

def tickEvents : List (BoardEvent ℕ) :=
  List.replicate 13 .stmt ++ [.raise 3, .raise 0, .interrupt, .stmt, .stmt, .stmt, .stmt]

theorem interrupts_served_tick : ∃ c, Run (fun b e c => Board.exec b e = some c) firmwareBoard tickEvents c ∧
    c.taken = [32] ∧ c.tick = 1 ∧
      ∃ d k, c.exec .interrupt = some d ∧ k ≤ 3 ∧ d.taken = c.taken ++ [32 + k] := by
  have hvals : (execAll Board.exec firmwareBoard tickEvents).map (fun c =>
      (c.intr, c.taken, c.pics.master.irr.getLsbD 3)) = some (true, [32], true) := by decide +kernel
  obtain ⟨c, hexec, hlogs⟩ := Option.map_eq_some_iff.mp hvals
  obtain ⟨hintr, hlogs⟩ := Prod.mk.inj hlogs
  obtain ⟨htaken, hirr⟩ := Prod.mk.inj hlogs
  have hrun := execAll_run hexec
  obtain ⟨-, -, htick, hserved⟩ := interrupts_served start_firmwareBoard hrun hintr
  refine ⟨c, hrun, htaken, ?_, hserved 3 (.inr (.inl rfl)) hirr⟩
  rw [htick, htaken]
  rfl

/-- An end of interrupt at the master is written for the interrupt taken last, which is in service
alone, and none is afterwards. -/
theorem eoi_last {es : List (BoardEvent ι)} (hstart : Start i b)
    (hrun : Run (fun b e c => Board.exec b e = some c) b es c)
    (hnext : (c.code c.current).head? = some (.out 0x20 0x20)) : ∃ k d, c.taken.getLast? = some (32 + k) ∧
      c.pics.master.isr = 1#8 <<< k ∧ c.exec .stmt = some d ∧ d.pics.master.isr = 0 ∧ c.intr = false := by
  have hinv := inv_of_run hstart hrun
  obtain ⟨owed, hticks, hphase⟩ := hinv.phase
  have hnot : ∀ {code : List IntrStmt}, (∀ stmt ∈ code, stmt.Harmless) →
      code.head? ≠ some (.out 0x20 0x20) := by
    intro code hcode hhead
    have hport : (0x20 : BitVec 16) = 0xa0 := (hcode _ (List.mem_of_mem_head? hhead)).1
    exact absurd hport (by decide)
  generalize hlist : c.code c.current = code at hphase hnext
  cases hphase with
  | @starting writes rest hsuffix hconf hisr hintr howed hrest =>
    cases writes with
    | nil => exact absurd hnext (hnot hrest)
    | cons w writes =>
      have hw : w = (0x20, 0x20) := by
        simp only [List.map_cons, List.cons_append, List.head?_cons, Option.some.injEq,
          IntrStmt.out.injEq] at hnext
        exact Prod.ext hnext.1 hnext.2
      have hmem : w ∈ initPicWrites := hsuffix.subset List.mem_cons_self
      rw [hw] at hmem
      exact absurd hmem (by decide)
  | idle hconf hisr howed hcode => exact absurd hnext (hnot hcode)
  | @serving k before rest hconf hk hisr hlast hintr hbefore =>
    cases before with
    | nil =>
      have hexec : c.exec .stmt = some { c.setCode rest with pics := c.pics.out8 0x20 0x20 } := by
        rw [Board.exec, hlist]
        rfl
      exact ⟨k, _, hlast, hisr, hexec, Pics.eoi_master hk hisr, hintr⟩
    | cons stmt before =>
      rcases hbefore stmt List.mem_cons_self with rfl | rfl <;> simp at hnext

theorem eoi_last_tick : ∃ c k d, Run (fun b e c => Board.exec b e = some c) firmwareBoard
    (tickEvents.take 18) c ∧ c.taken.getLast? = some (32 + k) ∧ c.pics.master.isr = 1#8 <<< k ∧
      c.exec .stmt = some d ∧ d.pics.master.isr = 0 ∧ c.intr = false := by
  have hvals : (execAll Board.exec firmwareBoard (tickEvents.take 18)).map (fun c =>
      (c.code c.current).head?) = some (some (.out 0x20 0x20)) := by decide +kernel
  obtain ⟨c, hexec, hnext⟩ := Option.map_eq_some_iff.mp hvals
  have hrun := execAll_run hexec
  obtain ⟨k, d, hlast⟩ := eoi_last start_firmwareBoard hrun hnext
  exact ⟨c, k, d, hrun, hlast⟩

theorem entered_sti {k : ℕ} (hk : k = 0 ∨ k = 3 ∨ k = 4) : ∃ before rest,
    entered (32 + k) = some (before ++ .sti :: rest) ∧ .schedule ∉ before ∧ rest.count .iret = 1 := by
  rcases hk with rfl | rfl | rfl
  · exact ⟨[.cli, .tick, .out 0x20 0x20], _, rfl, by decide, by decide⟩
  · exact ⟨[.cli, .out 0x20 0x20, .out 0xa0 0x20, .cli], _, rfl, by decide, by decide⟩
  · exact ⟨[.cli, .out 0x20 0x20, .out 0xa0 0x20, .cli], _, rfl, by decide, by decide⟩

theorem exists_run_stmts {stmts rest : List IntrStmt} (hcode : b.code b.current = stmts ++ rest)
    (hstmts : .schedule ∉ stmts) : ∃ es c, Run (fun b e c => Board.exec b e = some c) b es c ∧
      c.current = b.current ∧ c.code c.current = rest := by
  induction stmts generalizing b with
  | nil => exact ⟨[], b, .nil, rfl, hcode⟩
  | cons stmt stmts ih =>
    obtain ⟨hne, hstmts⟩ := not_or.mp (mt List.mem_cons.mpr hstmts)
    have hexec : ∃ c, b.exec .stmt = some c ∧ c.current = b.current ∧ c.code c.current = stmts ++ rest := by
      rw [exec, hcode]
      cases stmt with
      | schedule => exact absurd rfl hne
      | _ => exact ⟨_, rfl, rfl, Function.update_self ..⟩
    obtain ⟨c, hc, hcurrent, hrest⟩ := hexec
    obtain ⟨es, d, hrun, hsame, hd⟩ := ih hrest hstmts
    exact ⟨_, d, .cons hc hrun, hsame.trans hcurrent, hd⟩

theorem Inv.exists_nested (h : b.Inv) (hintr : b.intr = true) :
    ∃ es c, Run (fun b e c => Board.exec b e = some c) b es c ∧ c.current = b.current ∧ c.intr = true ∧
      (c.code c.current).count .iret = (b.code b.current).count .iret + 1 := by
  have hraise : b.exec (.raise 4) = some { b with pics := b.pics.raise 4 } := rfl
  have hirr : (b.pics.raise 4).master.irr.getLsbD 4 = true := by
    simp [Pics.raise, Pic.raise]
  obtain ⟨k, q, stmts, hk, -, hentered, hexec⟩ := (h.raise 4).exists_interrupt hintr (.inr (.inr rfl)) hirr
  obtain ⟨before, rest, hsplit, hbefore, hcount⟩ := entered_sti hk
  rw [hentered, Option.some.injEq] at hsplit
  obtain ⟨d, hd, hsame, hcode⟩ : ∃ d, ({ b with pics := b.pics.raise 4 } : Board ι).exec .interrupt = some d ∧
      d.current = b.current ∧ d.code d.current = before ++ .sti :: (rest ++ b.code b.current) := by
    have hlist : stmts ++ b.code b.current = before ++ .sti :: (rest ++ b.code b.current) := by
      rw [hsplit, List.append_assoc, List.cons_append]
    exact ⟨_, hexec, rfl, (Function.update_self ..).trans hlist⟩
  obtain ⟨es, c, hrun, hcurrent, hcode'⟩ := exists_run_stmts hcode hbefore
  have hsti : c.exec .stmt = some { c.setCode (rest ++ b.code b.current) with intr := true } := by
    rw [Board.exec, hcode']
    rfl
  have hlast : ({ c.setCode (rest ++ b.code b.current) with intr := true } : Board ι).code c.current =
      rest ++ b.code b.current := Function.update_self ..
  refine ⟨_, _, .cons hraise (.cons hd (hrun.snoc hsti)), hcurrent.trans hsame, rfl, ?_⟩
  change List.count .iret
    (({ c.setCode (rest ++ b.code b.current) with intr := true } : Board ι).code c.current) = _
  rw [hlast, List.count_append, hcount, Nat.add_comm]

/-- Handlers nest without a bound: from every state with interrupts on, `n` more can be begun on the stack
of the running thread before any of them returns. -/
theorem handlers_nest {es : List (BoardEvent ι)} (hstart : Start i b)
    (hrun : Run (fun b e c => Board.exec b e = some c) b es c) (hintr : c.intr = true) (n : ℕ) :
    ∃ es' d, Run (fun b e c => Board.exec b e = some c) c es' d ∧ d.current = c.current ∧ d.intr = true ∧
      (d.code d.current).count .iret = (c.code c.current).count .iret + n := by
  induction n with
  | zero => exact ⟨[], c, .nil, rfl, hintr, rfl⟩
  | succ n ih =>
    obtain ⟨es', d, hrun', hcurrent, hd, hcount⟩ := ih
    obtain ⟨more, e, hmore, hsame, he, hnested⟩ := (inv_of_run hstart (hrun.append hrun')).exists_nested hd
    exact ⟨_, e, hrun'.append hmore, hsame.trans hcurrent, he, by rw [hnested, hcount, Nat.add_assoc]⟩

theorem handlers_nest_tick : ∃ c es' d, Run (fun b e c => Board.exec b e = some c) firmwareBoard tickEvents c ∧
    Run (fun b e c => Board.exec b e = some c) c es' d ∧ (d.code d.current).count .iret = 1000 := by
  have hvals : (execAll Board.exec firmwareBoard tickEvents).map (fun c =>
      (c.intr, (c.code c.current).count .iret)) = some (true, 1) := by decide +kernel
  obtain ⟨c, hexec, hlogs⟩ := Option.map_eq_some_iff.mp hvals
  obtain ⟨hintr, hone⟩ := Prod.mk.inj hlogs
  have hrun := execAll_run hexec
  obtain ⟨es', d, hrun', -, -, hcount⟩ := handlers_nest start_firmwareBoard hrun hintr 999
  exact ⟨c, es', d, hrun, hrun', by rw [hcount, hone]⟩

end Steps

end Board

end MinOS
