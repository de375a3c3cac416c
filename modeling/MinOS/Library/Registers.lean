import Mathlib.Data.Set.Insert

namespace Library.Registers

variable {R V σ : Type*}

structure Controller (R V σ : Type*) where
  read : R → σ → V × σ
  write : R → V → σ → σ

structure Session (R V σ : Type*) where
  device : σ
  writes : List (R × V)

namespace Session

abbrev Result (R V σ : Type*) := Except (Session R V σ) (Session R V σ)

def read (c : Controller R V σ) (r : R) (s : Session R V σ) : V × Session R V σ :=
  ((c.read r s.device).1, { s with device := (c.read r s.device).2 })

def write (c : Controller R V σ) (r : R) (v : V) (s : Session R V σ) : Session R V σ :=
  ⟨c.write r v s.device, s.writes ++ [(r, v)]⟩

def modify (c : Controller R V σ) (r : R) (f : V → V) (s : Session R V σ) : Session R V σ :=
  let (v, s) := s.read c r
  s.write c r (f v)

def poll [DecidableEq V] (c : Controller R V σ) (r : R) (v : V) (body : Session R V σ → Session R V σ) :
    ℕ → Session R V σ → Result R V σ
  | 0, s => .error s
  | n + 1, s =>
    let (w, s) := s.read c r
    if w = v then .ok s else poll c r v body n (body s)

def forEach (p : ℕ → Prop) [DecidablePred p] (turn : ℕ → Session R V σ → Result R V σ) :
    ℕ → Session R V σ → Result R V σ
  | 0, s => .ok s
  | n + 1, s => (forEach p turn n s).bind (fun s => if p n then turn n s else .ok s)

def written (s : Session R V σ) : Set R := {r | ∃ v, (r, v) ∈ s.writes}

structure Writes (W : Set R) (program : Session R V σ → Result R V σ) : Prop where
  ok : ∀ {s t}, program s = .ok t → t.written = s.written ∪ W
  error : ∀ {s t}, program s = .error t → t.written ⊆ s.written ∪ W

variable {c : Controller R V σ} {r : R} {v : V} {s t : Session R V σ} {n : ℕ} {W W' : Set R}
  {f g : Session R V σ → Result R V σ}

@[simp] theorem written_read (c : Controller R V σ) (r : R) (s : Session R V σ) :
    (s.read c r).2.written = s.written := rfl

@[simp] theorem written_write (c : Controller R V σ) (r : R) (v : V) (s : Session R V σ) :
    (s.write c r v).written = s.written ∪ {r} := by
  ext q
  simp [written, write, exists_or, or_comm]

@[simp] theorem written_modify (c : Controller R V σ) (r : R) (f : V → V) (s : Session R V σ) :
    (s.modify c r f).written = s.written ∪ {r} := by
  simp [modify]

theorem Writes.of_written {step : Session R V σ → Session R V σ}
    (h : ∀ s, (step s).written = s.written ∪ W) : Writes W (fun s => .ok (step s)) where
  ok hok := by
    obtain rfl := Except.ok.inj hok
    exact h _
  error herr := nomatch herr

theorem Writes.bind (hf : Writes W f) (hg : Writes W' g) : Writes (W ∪ W') (fun s => (f s).bind g) where
  ok := by
    intro s t hok
    cases hfs : f s with
    | error u => simp [hfs, Except.bind] at hok
    | ok u =>
      rw [hfs] at hok
      rw [hg.ok hok, hf.ok hfs, Set.union_assoc]
  error := by
    intro s t herr
    cases hfs : f s with
    | error u =>
      rw [hfs] at herr
      obtain rfl : u = t := Except.error.inj herr
      exact (hf.error hfs).trans (Set.union_subset_union_right _ Set.subset_union_left)
    | ok u =>
      rw [hfs] at herr
      refine (hg.error herr).trans ?_
      rw [hf.ok hfs, Set.union_assoc]

theorem Writes.of_eq (hf : Writes W f) (h : W = W') : Writes W' f := h ▸ hf

theorem writes_poll [DecidableEq V] {body : Session R V σ → Session R V σ}
    (hbody : ∀ s, (body s).written = s.written) (n : ℕ) : Writes ∅ (poll c r v body n) := by
  constructor
  · intro s t hok
    induction n generalizing s with
    | zero => cases hok
    | succ n ih =>
      rw [poll] at hok
      dsimp only at hok
      split_ifs at hok with hv
      · obtain rfl := Except.ok.inj hok
        simp
      · rw [ih hok, hbody, written_read]
  · intro s t herr
    induction n generalizing s with
    | zero =>
      obtain rfl := Except.error.inj herr
      simp
    | succ n ih =>
      rw [poll] at herr
      dsimp only at herr
      split_ifs at herr with hv
      have hrest := ih herr
      rwa [hbody, written_read] at hrest

theorem writes_forEach {p : ℕ → Prop} [DecidablePred p] {turn : ℕ → Session R V σ → Result R V σ}
    {A : ℕ → Set R} (h : ∀ i, Writes (A i) (turn i)) (n : ℕ) :
    Writes {r | ∃ i, i < n ∧ p i ∧ r ∈ A i} (forEach p turn n) := by
  induction n with
  | zero =>
    have hnone : Writes ∅ (fun s : Session R V σ => .ok (id s)) := .of_written (by simp)
    exact hnone.of_eq (by simp)
  | succ n ih =>
    have hturn : Writes {r | p n ∧ r ∈ A n} (fun s => if p n then turn n s else .ok s) := by
      by_cases hp : p n
      · simpa only [hp, if_true, true_and, Set.ofPred_mem_eq] using h n
      · simp only [hp, if_false, false_and]
        exact Writes.of_written (by simp)
    refine (ih.bind hturn).of_eq (Set.ext (fun r => ?_))
    simp only [Set.mem_union, Set.mem_ofPred_eq, Nat.lt_succ_iff_lt_or_eq]
    constructor
    · rintro (⟨i, hi, hr⟩ | hr)
      · exact ⟨i, .inl hi, hr⟩
      · exact ⟨n, .inr rfl, hr⟩
    · rintro ⟨i, hi | rfl, hr⟩
      · exact .inl ⟨i, hi, hr⟩
      · exact .inr hr

end Session

end Library.Registers
