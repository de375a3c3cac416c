import Mathlib.Logic.Relation
import MinOS.Ownership
import MinOS.PipeSharing

namespace MinOS

open Library.Programs Relation

namespace Core

def memcpy (m : Core) (c₁ c₂ : ℕ) : ℕ → Core
  | 0 => m
  | n + 1 => (m.memcpy c₁ c₂ n).setByte (c₁ + n) ((m.memcpy c₁ c₂ n).mem (c₂ + n))

def pipeCall (f : PipeFun) (buf n : ℕ) (m : Core) : Option (ℤ × Core) :=
  m.curThreadPtr.map (fun (t, m) =>
    if (m.pipe t).pstate = f.expects then
      let m := m.setPstate t f.during
      let m := m.memcpy (f.dst (m.pipe t).pipePtr buf) (f.src (m.pipe t).pipePtr buf) n
      (1, m.setPstate t f.leaves)
    else (0, m))

end Core

namespace PipePoint

def Leads (n : ℕ) : PipePoint × Core → PipePoint × Core → Prop :=
  ReflTransGen (fun x y => x.1.next n x.2 = some y)

def pipeByte (n : ℕ) : PipePoint → Option ℕ
  | copy .pread _ _ _ c₂ i => if i < n then some (c₂ + i) else none
  | copy .pwrite _ _ c₁ _ i => if i < n then some (c₁ + i) else none
  | _ => none

def Touches (f : PipeFun) (buf n : ℕ) (m : Core) (a : ℕ) : Prop :=
  ∃ p m', Leads n (.getThread f buf, m) (p, m') ∧ p.pipeByte n = some a

end PipePoint

section Calls

variable {m u : Core} {f : PipeFun} {buf n i a c₁ c₂ : ℕ} {t : ThreadPtr} {r : ℤ}

theorem Core.memcpy_fields (m : Core) (c₁ c₂ n : ℕ) :
    (m.memcpy c₁ c₂ n).kernel = m.kernel ∧ (m.memcpy c₁ c₂ n).intr = m.intr := by
  induction n with
  | zero => exact ⟨rfl, rfl⟩
  | succ n ih => exact ih

theorem Core.curThreadPtr_fields (h : m.curThreadPtr = some (t, u)) :
    u.kernel = m.kernel ∧ u.mem = m.mem := by
  rw [Core.curThreadPtr, Program.run_bind, Code.getCurThreadTid_run] at h
  cases htid : m.kernel.tasks.getCurThreadTid with
  | none => simp [htid] at h
  | some tid =>
    rw [htid, Option.map_some, Option.bind_some, Code.getThreadPtr_run] at h
    obtain ⟨-, rfl⟩ := Prod.mk.inj (Option.some.inj h)
    exact ⟨rfl, rfl⟩

theorem Core.pipe_setPstate (m : Core) (t : ThreadPtr) (pstate : PipeState) :
    (m.setPstate t pstate).pipe t = { m.pipe t with pstate := pstate } := by
  simp [Core.setPstate, Core.pipe, Core.pstruct, Kernel.setPipe]

theorem Core.pipe_congr {m' : Core} (h : m'.kernel = m.kernel) (t : ThreadPtr) : m'.pipe t = m.pipe t := by
  rw [Core.pipe, Core.pstruct, h, Core.pipe, Core.pstruct]

theorem Core.pipeCall_of_expects (hcur : m.curThreadPtr = some (t, u))
    (hstate : (m.pipe t).pstate = f.expects) : m.pipeCall f buf n =
      some (1, ((u.setPstate t f.during).memcpy (f.dst (m.pipe t).pipePtr buf)
        (f.src (m.pipe t).pipePtr buf) n).setPstate t f.leaves) := by
  have hpipe := Core.pipe_congr (Core.curThreadPtr_fields hcur).1 t
  have hptr : ((u.setPstate t f.during).pipe t).pipePtr = (m.pipe t).pipePtr := by
    rw [Core.pipe_setPstate, hpipe]
  rw [Core.pipeCall, hcur, Option.map_some]
  dsimp only
  rw [hpipe, if_pos hstate, hptr]

theorem Core.pipeCall_of_ne (hcur : m.curThreadPtr = some (t, u))
    (hstate : (m.pipe t).pstate ≠ f.expects) : m.pipeCall f buf n = some (0, u) := by
  have hpipe := Core.pipe_congr (Core.curThreadPtr_fields hcur).1 t
  rw [Core.pipeCall, hcur, Option.map_some]
  dsimp only
  rw [hpipe, if_neg hstate]

namespace PipePoint

theorem copy_leads (m : Core) (hi : i ≤ n) :
    Leads n (.copy f buf t c₁ c₂ 0, m) (.copy f buf t c₁ c₂ i, m.memcpy c₁ c₂ i) := by
  induction i with
  | zero => exact .refl
  | succ i ih =>
    apply (ih (by omega)).tail
    exact if_pos (show i < n by omega)

theorem getThread_leads (hcur : m.curThreadPtr = some (t, u)) (hstate : (m.pipe t).pstate = f.expects)
    (hi : i ≤ n) : Leads n (.getThread f buf, m)
      (.copy f buf t (f.dst (m.pipe t).pipePtr buf) (f.src (m.pipe t).pipePtr buf) i,
        (u.setPstate t f.during).memcpy (f.dst (m.pipe t).pipePtr buf) (f.src (m.pipe t).pipePtr buf) i) := by
  have hpipe := Core.pipe_congr (Core.curThreadPtr_fields hcur).1 t
  have htest : PipePoint.next n (.getThread f buf) m = some (.test f buf t, u) := by
    rw [PipePoint.next, hcur, Option.map_some]
  have hclaim : PipePoint.next n (.test f buf t) u = some (.claim f buf t, u) := by
    rw [PipePoint.next, hpipe, if_pos hstate]
  have hcopy : PipePoint.next n (.memcpy f buf t) (u.setPstate t f.during) =
      some (.copy f buf t (f.dst (m.pipe t).pipePtr buf) (f.src (m.pipe t).pipePtr buf) 0,
        u.setPstate t f.during) := by
    rw [PipePoint.next, Core.pipe_setPstate, hpipe]
  exact .trans (.head htest (.head hclaim (.head rfl (.single hcopy)))) (copy_leads _ hi)

theorem pipeCall_leads {m' : Core} (h : m.pipeCall f buf n = some (r, m')) :
    Leads n (.getThread f buf, m) (.ret f buf r, m') := by
  obtain ⟨⟨t, u⟩, hcur, -⟩ := Option.map_eq_some_iff.mp h
  by_cases hstate : (m.pipe t).pstate = f.expects
  · rw [Core.pipeCall_of_expects hcur hstate] at h
    obtain ⟨rfl, rfl⟩ := Prod.mk.inj (Option.some.inj h)
    have hend : ∀ m', PipePoint.next n (.copy f buf t (f.dst (m.pipe t).pipePtr buf)
        (f.src (m.pipe t).pipePtr buf) n) m' = some (.release f buf t, m') :=
      fun m' => if_neg (lt_irrefl n)
    exact ((getThread_leads hcur hstate (le_refl n)).tail (hend _)).tail rfl
  · rw [Core.pipeCall_of_ne hcur hstate] at h
    obtain ⟨rfl, rfl⟩ := Prod.mk.inj (Option.some.inj h)
    have hpipe := Core.pipe_congr (Core.curThreadPtr_fields hcur).1 t
    have htest : PipePoint.next n (.getThread f buf) m = some (.test f buf t, u) := by
      rw [PipePoint.next, hcur, Option.map_some]
    have hret : PipePoint.next n (.test f buf t) u = some (.ret f buf 0, u) := by
      rw [PipePoint.next, hpipe, if_neg hstate]
    exact .head htest (.single hret)

def Along (f : PipeFun) (m : Core) (t : ThreadPtr) : PipePoint × Core → Prop
  | (.getThread g _, m') => g = f ∧ m' = m
  | (.test g _ t', m') => g = f ∧ t' = t ∧ m'.pipe t = m.pipe t
  | (.claim g _ t', m') | (.memcpy g _ t', m') =>
    g = f ∧ t' = t ∧ (m.pipe t).pstate = f.expects ∧ (m'.pipe t).pipePtr = (m.pipe t).pipePtr
  | (.copy g buf _ c₁ c₂ _, _) => g = f ∧ (m.pipe t).pstate = f.expects ∧
      c₁ = f.dst (m.pipe t).pipePtr buf ∧ c₂ = f.src (m.pipe t).pipePtr buf
  | _ => True

theorem Along.step (hcur : m.curThreadPtr = some (t, u)) {x y : PipePoint × Core} (h : Along f m t x)
    (hnext : x.1.next n x.2 = some y) : Along f m t y := by
  obtain ⟨p, m'⟩ := x
  cases p with
  | idle => simp [PipePoint.next] at hnext
  | getThread g buf =>
    obtain ⟨rfl, rfl⟩ := h
    rw [PipePoint.next, hcur] at hnext
    obtain rfl := Option.some.inj hnext
    exact ⟨rfl, rfl, Core.pipe_congr (Core.curThreadPtr_fields hcur).1 t⟩
  | test g buf t' =>
    obtain ⟨rfl, rfl, hpipe⟩ := h
    simp only [PipePoint.next, hpipe] at hnext
    split_ifs at hnext with hstate
    · obtain rfl := Option.some.inj hnext
      exact ⟨rfl, rfl, hstate, by rw [hpipe]⟩
    · obtain rfl := Option.some.inj hnext
      trivial
  | claim g buf t' =>
    obtain ⟨rfl, rfl, hstate, hptr⟩ := h
    obtain rfl := Option.some.inj hnext
    exact ⟨rfl, rfl, hstate, by rw [Core.pipe_setPstate, hptr]⟩
  | memcpy g buf t' =>
    obtain ⟨rfl, rfl, hstate, hptr⟩ := h
    obtain rfl := Option.some.inj hnext
    exact ⟨rfl, hstate, by rw [hptr], by rw [hptr]⟩
  | copy g buf t' c₁ c₂ i =>
    simp only [PipePoint.next] at hnext
    split_ifs at hnext with hi
    · obtain rfl := Option.some.inj hnext
      exact h
    · obtain rfl := Option.some.inj hnext
      trivial
  | release g buf t' =>
    obtain rfl := Option.some.inj hnext
    trivial
  | ret g buf r =>
    obtain rfl := Option.some.inj hnext
    trivial

theorem Along.leads (hcur : m.curThreadPtr = some (t, u)) {x y : PipePoint × Core} (h : Along f m t x)
    (hleads : Leads n x y) : Along f m t y := by
  induction hleads with
  | refl => exact h
  | tail _ hnext ih => exact ih.step hcur hnext

theorem touches_iff (hcur : m.curThreadPtr = some (t, u)) : Touches f buf n m a ↔
    (m.pipe t).pstate = f.expects ∧ ∃ i, i < n ∧ a = (m.pipe t).pipePtr + i := by
  constructor
  · rintro ⟨p, m', hleads, hbyte⟩
    have hstart : Along f m t (.getThread f buf, m) := ⟨rfl, rfl⟩
    have halong := hstart.leads hcur hleads
    cases p with
    | copy g buf' t' c₁ c₂ i =>
      obtain ⟨rfl, hstate, rfl, rfl⟩ := halong
      refine ⟨hstate, i, ?_⟩
      cases g with
      | pread =>
        simp only [pipeByte, Option.ite_none_right_eq_some, Option.some.injEq] at hbyte
        exact ⟨hbyte.1, hbyte.2.symm⟩
      | pwrite =>
        simp only [pipeByte, Option.ite_none_right_eq_some, Option.some.injEq] at hbyte
        exact ⟨hbyte.1, hbyte.2.symm⟩
    | _ => simp [pipeByte] at hbyte
  · rintro ⟨hstate, i, hi, rfl⟩
    refine ⟨_, _, getThread_leads hcur hstate hi.le, ?_⟩
    cases f with
    | pread => exact if_pos hi
    | pwrite => exact if_pos hi

end PipePoint

end Calls

/-- `gen_pipe` has allocated a buffer for the pipe structure `ps`, and nobody has freed it. -/
def Owned.HasBuffer (s : Owned) (ps : ℕ) : Prop :=
  ps ∈ s.piped ∧ ∃ b ∈ s.live, (s.kernel.pipes ps).pipePtr = b.addr + blkSize ∧
    blkSize * (b.units - 1) = npipeQueue

structure PipeCallSafe (s : Owned) (f : PipeFun) (buf n ps : ℕ) (m : Core) : Prop where
  inside : ∀ a, PipePoint.Touches f buf n m a → s.HasBuffer ps ∧
    (s.kernel.pipes ps).pipePtr ≤ a ∧ (a : ℤ) < (s.kernel.pipes ps).pipePtr + npipeQueue
  refuses : ¬ (s.HasBuffer ps ∧ n ≤ npipeQueue) →
    ∃ u, m.pipeCall f buf n = some (0, u) ∧ u.kernel = m.kernel ∧ u.mem = m.mem

theorem pipe_call_safe_iff {s : Owned} {m u : Core} {f : PipeFun} {buf n : ℕ} {t : ThreadPtr}
    (hk : m.kernel = s.kernel) (hcur : m.curThreadPtr = some (t, u)) :
    PipeCallSafe s f buf n (m.pstruct t) m ↔
      ((m.pipe t).pstate = f.expects → s.HasBuffer (m.pstruct t) ∧ n ≤ npipeQueue) := by
  have hpipe : s.kernel.pipes (m.pstruct t) = m.pipe t := by rw [← hk, Core.pipe]
  constructor
  · intro hsafe hstate
    by_contra hfit
    obtain ⟨v, hcall, -⟩ := hsafe.refuses hfit
    rw [Core.pipeCall_of_expects hcur hstate] at hcall
    have hret := (Prod.mk.inj (Option.some.inj hcall)).1
    exact absurd hret (by decide)
  · intro hcond
    constructor
    · intro a htouch
      obtain ⟨hstate, i, hi, rfl⟩ := (PipePoint.touches_iff hcur).mp htouch
      obtain ⟨hbuffer, hn⟩ := hcond hstate
      rw [hpipe]
      exact ⟨hbuffer, by omega, by omega⟩
    · intro hfit
      have hstate : (m.pipe t).pstate ≠ f.expects := fun h => hfit (hcond h)
      obtain ⟨hkernel, hmem⟩ := Core.curThreadPtr_fields hcur
      exact ⟨u, Core.pipeCall_of_ne hcur hstate, hkernel, hmem⟩

end MinOS
