import Mathlib.Data.BitVec
import Mathlib.Data.List.Flatten
import MinOS.Library.Interleavings

/-!
The serial port: `init_serial`, and threads that print with `puts_serial` and `nputs_serial` while the
port sends what it was given.
-/

namespace MinOS

open Library.Interleavings Library.Runs

structure Sent where
  data : BitVec 8
  divisor : ℕ
  format : BitVec 8
deriving DecidableEq

/-- `fifo` is what has not been sent yet; `status` are the other bits of the line status. -/
structure Uart where
  ier : BitVec 8
  lcr : BitVec 8
  mcr : BitVec 8
  dll : BitVec 8
  dlm : BitVec 8
  status : BitVec 8
  fifo : List (BitVec 8)
  line : List Sent

namespace Uart

def dlab (u : Uart) : Bool := u.lcr.getLsbD 7

/-- A byte for a full buffer is lost. -/
def write (reg : ℕ) (val : BitVec 8) (u : Uart) : Uart :=
  match reg with
  | 0 =>
    if u.dlab then { u with dll := val }
    else if u.fifo.length < 16 then { u with fifo := u.fifo ++ [val] }
    else u
  | 1 => if u.dlab then { u with dlm := val } else { u with ier := val }
  | 2 => if val.getLsbD 2 then { u with fifo := [] } else u
  | 3 => { u with lcr := val }
  | 4 => { u with mcr := val }
  | _ => u

def lineStatus (u : Uart) : BitVec 8 := (u.status &&& 0xdf) ||| if u.fifo = [] then 0x20 else 0

def send (u : Uart) : Uart :=
  match u.fifo with
  | [] => u
  | c :: rest => { u with fifo := rest, line := u.line ++ [⟨c, u.dlm.toNat * 256 + u.dll.toNat, u.lcr⟩] }

def written (u : Uart) : List (BitVec 8) := u.line.map Sent.data ++ u.fifo

structure Configured (u : Uart) : Prop where
  lcr : u.lcr = 0x03
  dll : u.dll = 1
  dlm : u.dlm = 0

end Uart

def port1 : BitVec 16 := 0x3f8
def port2 : BitVec 16 := 0x2f8

def comport (gpd : Bool) : BitVec 16 := if gpd then port2 else port1

def initSerialWrites : List (ℕ × BitVec 8) :=
  [(1, 0x00), (3, 0x80), (0, 0x01), (1, 0x00), (3, 0x03), (2, 0xc7), (4, 0x0b), (1, 0x0d)]

def initSerial (gpd : Bool) (uarts : BitVec 16 → Uart) : BitVec 16 → Uart :=
  Function.update uarts (comport gpd)
    (initSerialWrites.foldl (fun u w => u.write w.1 w.2) (uarts (comport gpd)))

inductive PutsPoint where
  | done
  | start (s : List (BitVec 8))
  | poll (rest : List (BitVec 8))
  | write (c : BitVec 8) (rest : List (BitVec 8))
deriving DecidableEq

namespace PutsPoint

def rest : PutsPoint → List (BitVec 8)
  | .poll rest => rest
  | .write c rest => c :: rest
  | _ => []

def Inside : PutsPoint → Prop
  | .poll _ => True
  | .write _ _ => True
  | _ => False

theorem rest_eq_nil {p : PutsPoint} (h : ¬ p.Inside) : p.rest = [] := by
  cases p with
  | done => rfl
  | start s => rfl
  | poll rest => exact (h trivial).elim
  | write c rest => exact (h trivial).elim

end PutsPoint

structure SerialBoard (ι : Type) where
  comport : BitVec 16
  uarts : BitVec 16 → Uart
  intr : Bool
  current : ι
  points : ι → PutsPoint
  printed : List (List (BitVec 8))

inductive SerialEvent (ι : Type) where
  | send (port : BitVec 16)
  | call (s : List (BitVec 8))
  | stmt
  | other (intr : Bool)
  | switch (i : ι)

namespace SerialBoard

variable {ι : Type} [DecidableEq ι]

def uart (b : SerialBoard ι) : Uart := b.uarts b.comport

def point (b : SerialBoard ι) : PutsPoint := b.points b.current

def move (b : SerialBoard ι) (p : PutsPoint) : SerialBoard ι :=
  { b with points := Function.update b.points b.current p }

def execStmt (b : SerialBoard ι) : Option (SerialBoard ι) :=
  match b.point with
  | .done => none
  | .start s => some { b.move (.poll s) with intr := false, printed := b.printed ++ [s] }
  | .poll [] => some { b.move .done with intr := true }
  | .poll (c :: rest) => some (if b.uart.lineStatus &&& 0x20 = 0 then b else b.move (.write c rest))
  | .write c rest =>
    some { b.move (.poll rest) with uarts := Function.update b.uarts b.comport (b.uart.write 0 c) }

/-- A switch to another thread or to a handler needs the interrupt flag, unless the thread calls the
scheduler itself. -/
def exec (b : SerialBoard ι) : SerialEvent ι → Option (SerialBoard ι)
  | .send port => some { b with uarts := Function.update b.uarts port (b.uarts port).send }
  | .call s => if b.point = .done then some (b.move (.start s)) else none
  | .stmt => b.execStmt
  | .other intr => if b.point = .done then some { b with intr := intr } else none
  | .switch i => if b.intr ∨ b.point = .done then some { b with current := i } else none

structure Start (gpd : Bool) (b : SerialBoard ι) : Prop where
  comport : b.comport = MinOS.comport gpd
  uarts : ∃ uarts, b.uarts = initSerial gpd uarts
  points : ∀ i, b.points i = .done
  printed : b.printed = []

end SerialBoard

namespace Uart

variable {u : Uart}

theorem initSerialWrites_foldl (u : Uart) : initSerialWrites.foldl (fun u w => u.write w.1 w.2) u =
    ⟨0x0d, 0x03, 0x0b, 1, 0, u.status, [], u.line⟩ := by
  have hfirst : u.write 1 0 = if u.dlab then { u with dlm := 0 } else { u with ier := 0 } := rfl
  rw [initSerialWrites, List.foldl_cons, hfirst]
  cases u.dlab <;> simp [write, dlab]

theorem initSerial_comport (gpd : Bool) (uarts : BitVec 16 → Uart) : initSerial gpd uarts (comport gpd) =
    ⟨0x0d, 0x03, 0x0b, 1, 0, (uarts (comport gpd)).status, [], (uarts (comport gpd)).line⟩ := by
  rw [initSerial, Function.update_self, initSerialWrites_foldl]

theorem send_cases (u : Uart) : u.send = u ∨ ∃ c rest, u.fifo = c :: rest ∧
    u.send = { u with fifo := rest, line := u.line ++ [⟨c, u.dlm.toNat * 256 + u.dll.toNat, u.lcr⟩] } := by
  rw [send]
  cases hfifo : u.fifo with
  | nil => exact .inl rfl
  | cons c rest => exact .inr ⟨c, rest, rfl, rfl⟩

theorem written_send : u.send.written = u.written := by
  rcases u.send_cases with h | ⟨c, rest, hfifo, h⟩
  · rw [h]
  · rw [h, written, written, hfifo, List.map_append, List.append_assoc]
    rfl

theorem Configured.send (h : u.Configured) : u.send.Configured := by
  rcases u.send_cases with heq | ⟨c, rest, hfifo, heq⟩
  · rwa [heq]
  · rw [heq]
    exact ⟨h.lcr, h.dll, h.dlm⟩

theorem formats_send {n : ℕ} (h : u.Configured) (hsent : ∀ x ∈ u.line.drop n, x.divisor = 1 ∧ x.format = 0x03)
    (hn : n ≤ u.line.length) : (∀ x ∈ u.send.line.drop n, x.divisor = 1 ∧ x.format = 0x03) ∧
      n ≤ u.send.line.length := by
  rcases u.send_cases with heq | ⟨c, rest, hfifo, heq⟩
  · rw [heq]
    exact ⟨hsent, hn⟩
  · rw [heq]
    refine ⟨fun x hx => ?_, by rw [List.length_append]; omega⟩
    change x ∈ (u.line ++ _).drop n at hx
    rw [List.drop_append_of_le_length hn, List.mem_append, List.mem_singleton] at hx
    rcases hx with hx | rfl
    · exact hsent x hx
    · dsimp only
      rw [h.dll, h.dlm, h.lcr]
      decide

theorem Configured.write_zero (h : u.Configured) (hfifo : u.fifo = []) (c : BitVec 8) :
    u.write 0 c = { u with fifo := [c] } := by
  have hdlab : u.dlab = false := by
    rw [dlab, h.lcr]
    rfl
  rw [write, hdlab, hfifo]
  simp

theorem fifo_eq_nil (h : u.lineStatus &&& 0x20 ≠ 0) : u.fifo = [] := by
  by_contra hne
  apply h
  rw [lineStatus, if_neg hne]
  have hmask : ∀ v : BitVec 8, ((v &&& 0xdf) ||| 0) &&& 0x20 = 0 := by decide
  exact hmask u.status

end Uart

namespace SerialBoard

variable {ι : Type} {b c : SerialBoard ι} {i : ι} {base : List Sent}

structure Inv (base : List Sent) (b : SerialBoard ι) : Prop where
  configured : b.uart.Configured
  written : b.uart.written ++ b.point.rest = base.map Sent.data ++ b.printed.flatten
  formats : ∀ x ∈ b.uart.line.drop base.length, x.divisor = 1 ∧ x.format = 0x03
  before : base.length ≤ b.uart.line.length
  others : ∀ j, j ≠ b.current → ¬ (b.points j).Inside
  intr : b.point.Inside → b.intr = false
  ready : ∀ c rest, b.point = .write c rest → b.uart.fifo = []

theorem Start.inv {gpd : Bool} (h : Start gpd b) : ∃ base, b.uart.line = base ∧ b.Inv base := by
  obtain ⟨hcomport, ⟨uarts, huarts⟩, hpoints, hprinted⟩ := h
  have huart : b.uart = ⟨0x0d, 0x03, 0x0b, 1, 0, (uarts (MinOS.comport gpd)).status, [],
      (uarts (MinOS.comport gpd)).line⟩ := by
    rw [uart, huarts, hcomport]
    exact Uart.initSerial_comport gpd uarts
  have hpoint : b.point = .done := hpoints _
  refine ⟨_, rfl, ⟨by rw [huart]; exact ⟨rfl, rfl, rfl⟩, ?_, ?_, le_rfl, ?_, ?_, ?_⟩⟩
  · rw [hpoint, hprinted, huart]
    simp [Uart.written, PutsPoint.rest]
  · simp
  · exact fun j _ => by rw [hpoints j]; exact not_false
  · rw [hpoint]
    exact False.elim
  · rw [hpoint]
    exact fun _ _ heq => by cases heq

theorem Inv.send (h : b.Inv base) (port : BitVec 16) :
    ({ b with uarts := Function.update b.uarts port (b.uarts port).send } : SerialBoard ι).Inv base := by
  by_cases hport : port = b.comport
  · subst hport
    have huart : uart { b with uarts := Function.update b.uarts b.comport (b.uarts b.comport).send } =
        b.uart.send := Function.update_self ..
    obtain ⟨hformats, hbefore⟩ := Uart.formats_send h.configured h.formats h.before
    refine ⟨by rw [huart]; exact h.configured.send, ?_, by rw [huart]; exact hformats,
      by rw [huart]; exact hbefore, h.others, h.intr, ?_⟩
    · rw [huart, Uart.written_send]
      exact h.written
    · intro c rest hpoint
      rw [huart, Uart.send, h.ready c rest hpoint]
      exact h.ready c rest hpoint
  · have huart : uart { b with uarts := Function.update b.uarts port (b.uarts port).send } = b.uart :=
      Function.update_of_ne (Ne.symm hport) ..
    refine ⟨by rw [huart]; exact h.configured, by rw [huart]; exact h.written, by rw [huart]; exact h.formats,
      by rw [huart]; exact h.before, h.others, h.intr, ?_⟩
    rw [huart]
    exact h.ready

section Steps

variable [DecidableEq ι]

theorem Inv.move {p : PutsPoint} {u : Uart} {intr : Bool} {printed : List (List (BitVec 8))} (h : b.Inv base)
    (hconf : u.Configured) (hline : u.line = b.uart.line)
    (hwritten : u.written ++ p.rest = base.map Sent.data ++ printed.flatten) (hintr : p.Inside → intr = false)
    (hready : ∀ c rest, p = .write c rest → u.fifo = []) :
    ({ b.move p with uarts := Function.update b.uarts b.comport u, intr := intr, printed := printed } :
      SerialBoard ι).Inv base := by
  have huart : uart { b.move p with
      uarts := Function.update b.uarts b.comport u, intr := intr, printed := printed } = u :=
    Function.update_self ..
  have hpoint : point { b.move p with
      uarts := Function.update b.uarts b.comport u, intr := intr, printed := printed } = p :=
    Function.update_self ..
  refine ⟨by rw [huart]; exact hconf, by rw [huart, hpoint]; exact hwritten, ?_, ?_, fun j hj => ?_, ?_, ?_⟩
  · rw [huart, hline]
    exact h.formats
  · rw [huart, hline]
    exact h.before
  · have hne : j ≠ b.current := hj
    change ¬ (Function.update b.points b.current p j).Inside
    rw [Function.update_of_ne hne]
    exact h.others j hne
  · rw [hpoint]
    exact hintr
  · rw [hpoint, huart]
    exact hready

theorem Inv.pass {p : PutsPoint} {intr : Bool} {printed : List (List (BitVec 8))} (h : b.Inv base)
    (hwritten : b.uart.written ++ p.rest = base.map Sent.data ++ printed.flatten)
    (hintr : p.Inside → intr = false)
    (hready : ∀ c rest, p = .write c rest → b.uart.fifo = []) :
    ({ b.move p with intr := intr, printed := printed } : SerialBoard ι).Inv base := by
  have hkeep : Function.update b.uarts b.comport b.uart = b.uarts := Function.update_eq_self ..
  have hmove : ({ b.move p with
      uarts := Function.update b.uarts b.comport b.uart
      intr := intr
      printed := printed } : SerialBoard ι).Inv base :=
    h.move h.configured rfl hwritten hintr hready
  rwa [hkeep] at hmove

theorem Inv.stmt (h : b.Inv base) (hexec : b.execStmt = some c) : c.Inv base := by
  have hwritten := h.written
  have hintr := h.intr
  rw [execStmt] at hexec
  cases hpoint : b.point with
  | done =>
    rw [hpoint] at hexec
    cases hexec
  | start s =>
    rw [hpoint] at hexec hwritten
    obtain rfl := Option.some.inj hexec
    refine h.pass ?_ (fun _ => rfl) (fun _ _ heq => by cases heq)
    rw [List.flatten_append, List.flatten_singleton, ← List.append_assoc, ← hwritten]
    exact congrArg (· ++ s) (List.append_nil _).symm
  | poll rest =>
    rw [hpoint] at hexec hwritten hintr
    cases rest with
    | nil =>
      obtain rfl := Option.some.inj hexec
      exact h.pass hwritten False.elim (fun _ _ heq => by cases heq)
    | cons d rest =>
      by_cases hbusy : b.uart.lineStatus &&& 0x20 = 0
      · dsimp only at hexec
        rw [if_pos hbusy] at hexec
        exact Option.some.inj hexec ▸ h
      · dsimp only at hexec
        rw [if_neg hbusy] at hexec
        obtain rfl := Option.some.inj hexec
        exact h.pass hwritten (fun _ => hintr trivial) (fun _ _ _ => Uart.fifo_eq_nil hbusy)
  | write d rest =>
    rw [hpoint] at hexec hwritten hintr
    obtain rfl := Option.some.inj hexec
    have hfifo := h.ready d rest hpoint
    have huart := h.configured.write_zero hfifo d
    refine h.move ?_ ?_ ?_ (fun _ => hintr trivial) (fun _ _ heq => by cases heq)
    · rw [huart]
      exact ⟨h.configured.lcr, h.configured.dll, h.configured.dlm⟩
    · rw [huart]
    · change _ = base.map Sent.data ++ b.printed.flatten
      rw [huart, ← hwritten, Uart.written, Uart.written, hfifo, List.append_nil, List.append_assoc]
      rfl

theorem Inv.exec {e : SerialEvent ι} (h : b.Inv base) (hexec : b.exec e = some c) : c.Inv base := by
  cases e with
  | send port =>
    obtain rfl := Option.some.inj hexec
    exact h.send port
  | call s =>
    rw [SerialBoard.exec, Option.ite_none_right_eq_some, Option.some.injEq] at hexec
    obtain ⟨hdone, rfl⟩ := hexec
    have hwritten := h.written
    rw [hdone] at hwritten
    exact h.pass hwritten False.elim (fun _ _ heq => by cases heq)
  | stmt => exact h.stmt hexec
  | other intr =>
    rw [SerialBoard.exec, Option.ite_none_right_eq_some, Option.some.injEq] at hexec
    obtain ⟨hdone, rfl⟩ := hexec
    refine ⟨h.configured, h.written, h.formats, h.before, h.others, fun hin => ?_, h.ready⟩
    change b.point.Inside at hin
    rw [hdone] at hin
    exact hin.elim
  | switch i =>
    rw [SerialBoard.exec, Option.ite_none_right_eq_some, Option.some.injEq] at hexec
    obtain ⟨hfree, rfl⟩ := hexec
    -- the thread that gives up the processor is not inside a call, and so none is
    have hout : ¬ b.point.Inside := by
      rcases hfree with hon | hdone
      · exact fun hin => by simp [h.intr hin] at hon
      · rw [hdone]
        exact id
    have hall : ∀ j, ¬ (b.points j).Inside := by
      intro j
      by_cases hj : j = b.current
      · exact hj ▸ hout
      · exact h.others j hj
    have hrest : ∀ j, (b.points j).rest = [] := fun j => PutsPoint.rest_eq_nil (hall j)
    have hwritten := h.written
    rw [point, hrest] at hwritten
    refine ⟨h.configured, ?_, h.formats, h.before, fun j _ => hall j, fun hin => (hall i hin).elim,
      fun d rest heq => ?_⟩
    · change b.uart.written ++ (b.points i).rest = _
      rw [hrest, hwritten]
    · change b.points i = .write d rest at heq
      have hout' := hall i
      rw [heq] at hout'
      exact (hout' trivial).elim

theorem Inv.run {es : List (SerialEvent ι)} (h : b.Inv base)
    (hrun : Run (fun b e c => SerialBoard.exec b e = some c) b es c) : c.Inv base :=
  hrun.invariant h (fun h hstep => h.exec hstep)

theorem exists_drain (b : SerialBoard ι) : ∃ es c, Run (fun b e c => SerialBoard.exec b e = some c) b es c ∧
    c.uart.fifo = [] ∧ c.point = b.point ∧ c.printed = b.printed := by
  induction hfifo : b.uart.fifo generalizing b with
  | nil => exact ⟨[], b, .nil, hfifo, rfl, rfl⟩
  | cons d rest ih =>
    have hsend : (b.uarts b.comport).send.fifo = rest := by
      change b.uart.send.fifo = rest
      rw [Uart.send, hfifo]
    obtain ⟨es, c, hrun, hempty, hpoint, hprinted⟩ :=
      ih { b with uarts := Function.update b.uarts b.comport (b.uarts b.comport).send }
        ((congrArg Uart.fifo (Function.update_self ..)).trans hsend)
    exact ⟨.send b.comport :: es, c, hrun.cons rfl, hempty, hpoint, hprinted⟩

theorem exists_finish_poll {rest : List (BitVec 8)} (hpoint : b.point = .poll rest) :
    ∃ es c, Run (fun b e c => SerialBoard.exec b e = some c) b es c ∧ c.uart.fifo = [] ∧ c.point = .done ∧
      c.printed = b.printed := by
  induction rest generalizing b with
  | nil =>
    have hstmt : b.exec .stmt = some { b.move .done with intr := true } := by
      rw [SerialBoard.exec, execStmt, hpoint]
    obtain ⟨es, c, hrun, hempty, hdone, hprinted⟩ :=
      exists_drain ({ b.move .done with intr := true } : SerialBoard ι)
    exact ⟨.stmt :: es, c, hrun.cons hstmt, hempty, hdone.trans (Function.update_self ..), hprinted⟩
  | cons d rest ih =>
    obtain ⟨es, c, hrun, hempty, hcpoint, hprinted⟩ := exists_drain b
    have hready : c.uart.lineStatus &&& 0x20 ≠ 0 := by
      have hmask : ∀ v : BitVec 8, ((v &&& 0xdf) ||| 0x20) &&& 0x20 ≠ 0 := by decide
      rw [Uart.lineStatus, if_pos hempty]
      exact hmask c.uart.status
    have hpoll : c.exec .stmt = some (c.move (.write d rest)) := by
      rw [SerialBoard.exec, execStmt, hcpoint, hpoint]
      dsimp only
      rw [if_neg hready]
    have hwrite : (c.move (.write d rest)).exec .stmt =
        some { (c.move (.write d rest)).move (.poll rest) with
          uarts := Function.update c.uarts c.comport (c.uart.write 0 d) } := by
      have hat : (c.move (.write d rest)).point = .write d rest := Function.update_self ..
      rw [SerialBoard.exec, execStmt, hat]
      rfl
    obtain ⟨es', c', hrun', hempty', hdone, hprinted'⟩ := @ih
      { (c.move (.write d rest)).move (.poll rest) with
        uarts := Function.update c.uarts c.comport (c.uart.write 0 d) } (Function.update_self ..)
    exact ⟨es ++ .stmt :: .stmt :: es', c', hrun.append ((hrun'.cons hwrite).cons hpoll), hempty', hdone,
      hprinted'.trans hprinted⟩

theorem exists_finish (b : SerialBoard ι) : ∃ es c, Run (fun b e c => SerialBoard.exec b e = some c) b es c ∧
    c.uart.fifo = [] ∧ c.point = .done ∧ b.printed <+: c.printed := by
  cases hpoint : b.point with
  | done =>
    obtain ⟨es, c, hrun, hempty, hdone, hprinted⟩ := exists_drain b
    exact ⟨es, c, hrun, hempty, hdone.trans hpoint, hprinted ▸ List.prefix_refl _⟩
  | start s =>
    have hstmt : b.exec .stmt = some { b.move (.poll s) with intr := false, printed := b.printed ++ [s] } := by
      rw [SerialBoard.exec, execStmt, hpoint]
    obtain ⟨es, c, hrun, hempty, hdone, hprinted⟩ := @exists_finish_poll _
      { b.move (.poll s) with intr := false, printed := b.printed ++ [s] } _ s (Function.update_self ..)
    exact ⟨.stmt :: es, c, hrun.cons hstmt, hempty, hdone, hprinted ▸ List.prefix_append _ _⟩
  | poll rest =>
    obtain ⟨es, c, hrun, hempty, hdone, hprinted⟩ := exists_finish_poll hpoint
    exact ⟨es, c, hrun, hempty, hdone, hprinted ▸ List.prefix_refl _⟩
  | write d rest =>
    have hstmt : b.exec .stmt = some { b.move (.poll rest) with
        uarts := Function.update b.uarts b.comport (b.uart.write 0 d) } := by
      rw [SerialBoard.exec, execStmt, hpoint]
    obtain ⟨es, c, hrun, hempty, hdone, hprinted⟩ := @exists_finish_poll _
      { b.move (.poll rest) with uarts := Function.update b.uarts b.comport (b.uart.write 0 d) } _ rest
      (Function.update_self ..)
    exact ⟨.stmt :: es, c, hrun.cons hstmt, hempty, hdone, hprinted ▸ List.prefix_refl _⟩

/-- The strings that threads and handlers print stand on the line one after the other, each in one
piece and at the speed of `init_serial`, and every call can come to its end. -/
theorem strings_sent {gpd : Bool} {es : List (SerialEvent ι)} (hstart : Start gpd b)
    (hrun : Run (fun b e c => SerialBoard.exec b e = some c) b es c) :
    (∃ rest, c.uart.line.map Sent.data ++ c.uart.fifo ++ rest =
        b.uart.line.map Sent.data ++ c.printed.flatten ∧ (¬ c.point.Inside → rest = [])) ∧
      (∀ x ∈ c.uart.line.drop b.uart.line.length, x.divisor = 1 ∧ x.format = 0x03) ∧
      ∃ es' d, Run (fun b e c => SerialBoard.exec b e = some c) c es' d ∧ d.point = .done ∧
        c.printed <+: d.printed ∧
        d.uart.line.map Sent.data = b.uart.line.map Sent.data ++ d.printed.flatten := by
  obtain ⟨base, rfl, hinv⟩ := hstart.inv
  have hc := hinv.run hrun
  obtain ⟨es', d, hrun', hempty, hdone, hprinted⟩ := exists_finish c
  have hd := (hc.run hrun').written
  rw [hdone, Uart.written, hempty] at hd
  refine ⟨⟨c.point.rest, hc.written, PutsPoint.rest_eq_nil⟩, hc.formats, es', d, hrun', hdone, hprinted, ?_⟩
  simpa [PutsPoint.rest] using hd

end Steps

def resting : SerialBoard ℕ where
  comport := MinOS.comport false
  uarts := initSerial false (fun _ => ⟨0, 0x80, 0, 0, 0, 0, [0x2a], []⟩)
  intr := true
  current := 0
  points := fun _ => .done
  printed := []

theorem start_resting : Start false resting := ⟨rfl, ⟨_, rfl⟩, fun _ => rfl, rfl⟩

def twoStrings : List (SerialEvent ℕ) :=
  [.call [0x61, 0x62], .stmt, .stmt, .stmt, .send 0x3f8, .stmt, .stmt, .stmt, .switch 1, .call [0x63], .stmt,
    .stmt, .send 0x3f8, .stmt, .stmt, .stmt]

theorem strings_sent_two : ∃ c, Run (fun b e c => SerialBoard.exec b e = some c) resting twoStrings c ∧
    c.printed = [[0x61, 0x62], [0x63]] ∧ c.uart.fifo = [0x63] ∧
      (∃ rest, c.uart.line.map Sent.data ++ c.uart.fifo ++ rest =
        resting.uart.line.map Sent.data ++ c.printed.flatten ∧ (¬ c.point.Inside → rest = [])) := by
  have hvals : (execAll SerialBoard.exec resting twoStrings).map (fun c => (c.printed, c.uart.fifo)) =
      some ([[0x61, 0x62], [0x63]], [0x63]) := by decide +kernel
  obtain ⟨c, hexec, hlogs⟩ := Option.map_eq_some_iff.mp hvals
  obtain ⟨hprinted, hfifo⟩ := Prod.mk.inj hlogs
  have hrun := execAll_run hexec
  exact ⟨c, hrun, hprinted, hfifo, (strings_sent start_resting hrun).1⟩

end SerialBoard

end MinOS
