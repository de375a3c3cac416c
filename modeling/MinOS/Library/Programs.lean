import Mathlib.Data.List.Basic

namespace Library.Programs

/-- A statement changes the state and yields a value that the rest of the program goes on from; it
has no result where its behaviour is undefined. -/
inductive Program (σ α : Type) : Type 1
  | ret (a : α)
  | stmt {β : Type} (f : σ → Option (β × σ)) (rest : β → Program σ α)

namespace Program

variable {σ α β : Type}

def bind : Program σ α → (α → Program σ β) → Program σ β
  | ret a, next => next a
  | stmt f rest, next => stmt f (fun b => (rest b).bind next)

instance : Monad (Program σ) where
  pure := ret
  bind := bind

def single (f : σ → Option (α × σ)) : Program σ α := stmt f ret

def run : Program σ α → σ → Option (α × σ)
  | ret a, s => some (a, s)
  | stmt f rest, s => (f s).bind (fun x => (rest x.1).run x.2)

def path : Program σ α → σ → List σ
  | ret _, _ => []
  | stmt f rest, s =>
    match f s with
    | some x => x.2 :: (rest x.1).path x.2
    | none => []

def Always (P : σ → Prop) (p : Program σ α) (s : σ) : Prop := ∀ t ∈ p.path s, P t

variable {P : σ → Prop} {p : Program σ α} {next : α → Program σ β} {s t : σ}

@[simp] theorem run_pure (a : α) : (pure a : Program σ α).run s = some (a, s) := rfl

@[simp] theorem run_single (f : σ → Option (α × σ)) : (single f).run s = f s := by
  cases hf : f s <;> simp [single, run, hf]

@[simp] theorem run_bind : (p >>= next).run s = (p.run s).bind (fun x => (next x.1).run x.2) := by
  induction p generalizing s with
  | ret a => rfl
  | stmt f rest ih =>
    have hstep : (stmt f rest >>= next).run s = (f s).bind (fun x => (rest x.1 >>= next).run x.2) := rfl
    rw [hstep, run, Option.bind_assoc]
    simp only [ih]

@[simp] theorem always_pure (a : α) : Always P (pure a : Program σ α) s := by
  intro t ht
  cases ht

@[simp] theorem always_single (f : σ → Option (α × σ)) :
    Always P (single f) s ↔ ∀ x, f s = some x → P x.2 := by
  cases hf : f s <;> simp [Always, single, path, hf]

theorem path_bind : (p >>= next).path s =
    p.path s ++ ((p.run s).map (fun x => (next x.1).path x.2)).getD [] := by
  induction p generalizing s with
  | ret a => rfl
  | stmt f rest ih =>
    cases hf : f s with
    | none =>
      have hstep : (stmt f rest >>= next).path s = [] := by
        change (stmt f (fun b => rest b >>= next)).path s = []
        rw [path, hf]
      rw [hstep, path, run, hf]
      rfl
    | some x =>
      have hstep : (stmt f rest >>= next).path s = x.2 :: (rest x.1 >>= next).path x.2 := by
        change (stmt f (fun b => rest b >>= next)).path s = _
        rw [path, hf]
      rw [hstep, ih, path, run, hf]
      rfl

theorem always_bind : Always P (p >>= next) s ↔
    Always P p s ∧ ∀ a t, p.run s = some (a, t) → Always P (next a) t := by
  simp only [Always, path_bind, List.forall_mem_append]
  cases hrun : p.run s with
  | none => simp
  | some x =>
    simp only [Option.map_some, Option.getD_some, Option.some.injEq]
    constructor
    · rintro ⟨hp, hnext⟩
      refine ⟨hp, ?_⟩
      rintro a t rfl
      exact hnext
    · rintro ⟨hp, hnext⟩
      exact ⟨hp, hnext x.1 x.2 rfl⟩

end Program

end Library.Programs
