import Mathlib.Logic.Relation
import MinOS.Library.Programs

/-!
Programs that share their state with an environment, which takes any number of steps of its own
before each statement, and rules for what holds when such a program returns.
-/

namespace Library.Programs

variable {σ α β : Type}

def Program.spin (test : σ → Bool) : ℕ → Program σ Unit
  | 0 => .single (fun _ => none)
  | fuel + 1 => do
    let b ← .single (fun s => some (test s, s))
    if b then Program.spin test fuel else pure ()

def Exec (env : σ → σ → Prop) : Program σ α → σ → α → σ → Prop
  | .ret a, s, b, t => a = b ∧ Relation.ReflTransGen env s t
  | .stmt f rest, s, b, t => ∃ u x, Relation.ReflTransGen env s u ∧ f u = some x ∧
      Exec env (rest x.1) x.2 b t

def Stable (env : σ → σ → Prop) (P : σ → Prop) : Prop := ∀ s t, P s → env s t → P t

def Triple (env : σ → σ → Prop) (P : σ → Prop) (p : Program σ α) (Q : α → σ → Prop) : Prop :=
  ∀ s a t, P s → Exec env p s a t → Q a t

variable {env : σ → σ → Prop} {P P' : σ → Prop} {p : Program σ α} {next : α → Program σ β}
  {Q Q' : α → σ → Prop} {R : β → σ → Prop} {s t u : σ} {f : σ → Option (α × σ)} {test : σ → Bool}

theorem Stable.reach (h : Stable env P) (hs : P s) (hreach : Relation.ReflTransGen env s t) : P t := by
  induction hreach with
  | refl => exact hs
  | tail _ hstep ih => exact h _ _ ih hstep

theorem Stable.and (h : Stable env P) (h' : Stable env P') : Stable env (fun s => P s ∧ P' s) :=
  fun s t hs hstep => ⟨h s t hs.1 hstep, h' s t hs.2 hstep⟩

theorem Exec.bind_iff {b : β} : Exec env (p >>= next) s b t ↔
    ∃ a u, Exec env p s a u ∧ Exec env (next a) u b t := by
  induction p generalizing s with
  | ret a =>
    constructor
    · exact fun h => ⟨a, s, ⟨rfl, .refl⟩, h⟩
    · rintro ⟨_, u, ⟨rfl, hreach⟩, h⟩
      change Exec env (next a) s b t
      -- steps before the first statement of `next a` count as its own
      cases hnext : next a with
      | ret c =>
        rw [hnext] at h
        exact ⟨h.1, hreach.trans h.2⟩
      | stmt f rest =>
        rw [hnext] at h
        obtain ⟨v, x, hv, hx, hrest⟩ := h
        exact ⟨v, x, hreach.trans hv, hx, hrest⟩
  | stmt f rest ih =>
    have hstep : (Program.stmt f rest >>= next) = .stmt f (fun b => rest b >>= next) := rfl
    rw [hstep]
    constructor
    · rintro ⟨v, x, hv, hx, hrest⟩
      obtain ⟨a, u, ha, hu⟩ := (ih x.1).mp hrest
      exact ⟨a, u, ⟨v, x, hv, hx, ha⟩, hu⟩
    · rintro ⟨a, u, ⟨v, x, hv, hx, ha⟩, hu⟩
      exact ⟨v, x, hv, hx, (ih x.1).mpr ⟨a, u, ha, hu⟩⟩

theorem Exec.of_run {a : α} (h : p.run s = some (a, t)) : Exec env p s a t := by
  induction p generalizing s with
  | ret b =>
    obtain ⟨rfl, rfl⟩ := Prod.mk.inj (Option.some.inj h)
    exact ⟨rfl, .refl⟩
  | stmt f rest ih =>
    obtain ⟨x, hx, hrest⟩ := Option.bind_eq_some_iff.mp h
    exact ⟨s, x, .refl, hx, ih x.1 hrest⟩

namespace Triple

theorem ret {a : α} (hP : Stable env P) (h : ∀ s, P s → Q a s) : Triple env P (.ret a) Q := by
  rintro s _ t hs ⟨rfl, hreach⟩
  exact h t (hP.reach hs hreach)

theorem pure {a : α} (hP : Stable env P) (h : ∀ s, P s → Q a s) :
    Triple env P (Pure.pure a : Program σ α) Q := ret hP h

theorem single (hP : Stable env P) (hQ : ∀ a, Stable env (Q a))
    (h : ∀ s a t, P s → f s = some (a, t) → Q a t) : Triple env P (.single f) Q := by
  rintro s _ t hs ⟨u, x, hu, hx, rfl, ht⟩
  exact (hQ _).reach (h u x.1 x.2 (hP.reach hs hu) hx) ht

theorem bind (hp : Triple env P p Q) (hnext : ∀ a, Triple env (Q a) (next a) R) :
    Triple env P (p >>= next) R := by
  intro s b t hs hexec
  obtain ⟨a, u, ha, hu⟩ := Exec.bind_iff.mp hexec
  exact hnext a u b t (hp s a u hs ha) hu

theorem mono (h : Triple env P p Q) (hP : ∀ s, P' s → P s) (hQ : ∀ a s, Q a s → Q' a s) :
    Triple env P' p Q' :=
  fun s a t hs hexec => hQ a t (h s a t (hP s hs) hexec)

theorem spin (hP : Stable env P) (hP' : Stable env P') (h : ∀ s, P s → test s = false → P' s)
    (fuel : ℕ) : Triple env P (.spin test fuel) (fun _ => P') := by
  induction fuel with
  | zero =>
    rintro s a t - ⟨u, x, -, hx, -⟩
    cases hx
  | succ fuel ih =>
    have hread : Triple env P (.single (fun s => some (test s, s)))
        (fun b s => (b = true → P s) ∧ (b = false → P' s)) := by
      refine single hP ?_ ?_
      · intro b s t hs hstep
        exact ⟨fun hb => hP s t (hs.1 hb) hstep, fun hb => hP' s t (hs.2 hb) hstep⟩
      · rintro s _ _ hs hx
        obtain ⟨rfl, rfl⟩ := Prod.mk.inj (Option.some.inj hx)
        exact ⟨fun _ => hs, h s hs⟩
    refine hread.bind ?_
    intro b
    cases b with
    | true => exact ih.mono (fun s hs => hs.1 rfl) (fun _ _ hs => hs)
    | false =>
      exact (pure (Q := fun _ => P') hP' (fun _ hs => hs)).mono (fun s hs => hs.2 rfl) (fun _ _ hs => hs)

end Triple

end Library.Programs
