import MinOS.Library.Tilings

namespace Library.Tilings

structure Separated (spans : List Span) : Prop where
  pos : ∀ s ∈ spans, 0 < s.length
  apart : spans.Pairwise (fun s t => s.start + s.length < t.start)

def Covered (spans : List Span) (a : ℕ) : Prop := ∃ s ∈ spans, s.covers a = true

variable {s t : Span} {ss ts : List Span} {a : ℕ}

theorem covered_iff_cover : Covered ss a ↔ 0 < cover ss a := List.countP_pos_iff.symm

namespace Separated

theorem tail (h : Separated (s :: ss)) : Separated ss :=
  ⟨fun t ht => h.pos t (List.mem_cons_of_mem _ ht), (List.pairwise_cons.mp h.apart).2⟩

theorem covered_head (h : Separated (s :: ss)) (ha : a ≤ s.start + s.length) :
    Covered (s :: ss) a ↔ s.start ≤ a ∧ a < s.start + s.length := by
  constructor
  · rintro ⟨t, ht, hat⟩
    rw [covers_iff] at hat
    rcases List.mem_cons.mp ht with rfl | ht
    · exact hat
    · have := (List.pairwise_cons.mp h.apart).1 t ht
      omega
  · intro hin
    exact ⟨s, List.mem_cons_self .., by simpa using hin⟩

theorem covered_tail (h : Separated (s :: ss)) :
    Covered ss a ↔ Covered (s :: ss) a ∧ s.start + s.length ≤ a := by
  constructor
  · rintro ⟨t, ht, hat⟩
    have := (List.pairwise_cons.mp h.apart).1 t ht
    rw [covers_iff] at hat
    exact ⟨⟨t, List.mem_cons_of_mem _ ht, by simpa using hat⟩, by omega⟩
  · rintro ⟨⟨t, ht, hat⟩, hle⟩
    rcases List.mem_cons.mp ht with rfl | ht
    · rw [covers_iff] at hat
      omega
    · exact ⟨t, ht, hat⟩

theorem head_eq (hs : Separated (s :: ss)) (ht : Separated (t :: ts))
    (h : ∀ a, Covered (s :: ss) a ↔ Covered (t :: ts) a) : s = t := by
  have hs0 := hs.pos s (List.mem_cons_self ..)
  have ht0 := ht.pos t (List.mem_cons_self ..)
  have hstart : s.start = t.start := by
    rcases Nat.lt_trichotomy s.start t.start with hlt | heq | hlt
    · have hcov := (h s.start).mp ((hs.covered_head (by omega)).mpr (by omega))
      have := (ht.covered_head (by omega)).mp hcov
      omega
    · exact heq
    · have hcov := (h t.start).mpr ((ht.covered_head (by omega)).mpr (by omega))
      have := (hs.covered_head (by omega)).mp hcov
      omega
  have hlength : s.length = t.length := by
    rcases Nat.lt_trichotomy s.length t.length with hlt | heq | hlt
    · have hcov := (h (s.start + s.length)).mpr ((ht.covered_head (by omega)).mpr (by omega))
      have := (hs.covered_head (le_refl _)).mp hcov
      omega
    · exact heq
    · have hcov := (h (t.start + t.length)).mp ((hs.covered_head (by omega)).mpr (by omega))
      have := (ht.covered_head (le_refl _)).mp hcov
      omega
  cases s
  cases t
  simp_all

theorem unique (hs : Separated ss) (ht : Separated ts) (h : ∀ a, Covered ss a ↔ Covered ts a) :
    ss = ts := by
  induction ss generalizing ts with
  | nil =>
    cases ts with
    | nil => rfl
    | cons t ts =>
      have ht0 := ht.pos t (List.mem_cons_self ..)
      obtain ⟨_, hnil, -⟩ := (h t.start).mpr ((ht.covered_head (by omega)).mpr (by omega))
      cases hnil
  | cons s ss ih =>
    cases ts with
    | nil =>
      have hs0 := hs.pos s (List.mem_cons_self ..)
      obtain ⟨_, hnil, -⟩ := (h s.start).mp ((hs.covered_head (by omega)).mpr (by omega))
      cases hnil
    | cons t ts =>
      obtain rfl := head_eq hs ht h
      rw [ih hs.tail ht.tail]
      intro a
      rw [hs.covered_tail, ht.covered_tail, h a]

end Separated

theorem Separated.apart_of_ne (h : Separated ss) (hs : s ∈ ss) (ht : t ∈ ss) (hne : s ≠ t) :
    s.start + s.length < t.start ∨ t.start + t.length < s.start := by
  have hpair : ss.Pairwise (fun s t => s.start + s.length < t.start ∨ t.start + t.length < s.start) :=
    h.apart.imp Or.inl
  have : Std.Symm (fun s t : Span => s.start + s.length < t.start ∨ t.start + t.length < s.start) :=
    ⟨fun _ _ h => Or.symm h⟩
  exact hpair.forall hs ht hne

theorem Separated.start_iff (h : Separated ss) :
    Covered ss a ∧ (a = 0 ∨ ¬ Covered ss (a - 1)) ↔ ∃ s ∈ ss, s.start = a := by
  constructor
  · rintro ⟨⟨s, hs, hcov⟩, hfirst⟩
    refine ⟨s, hs, ?_⟩
    rw [covers_iff] at hcov
    by_contra hne
    rcases hfirst with rfl | hfirst
    · omega
    · apply hfirst
      refine ⟨s, hs, ?_⟩
      rw [covers_iff]
      omega
  · rintro ⟨s, hs, rfl⟩
    have hpos := h.pos s hs
    refine ⟨⟨s, hs, by rw [covers_iff]; omega⟩, ?_⟩
    by_cases h0 : s.start = 0
    · exact .inl h0
    · right
      rintro ⟨t, ht, hcov⟩
      rw [covers_iff] at hcov
      have hne : s ≠ t := by
        rintro rfl
        omega
      have := h.apart_of_ne hs ht hne
      omega

def runs (p : ℕ → Bool) (n : ℕ) : ℕ :=
  (List.range n).countP (fun i => p i && (i == 0 || !p (i - 1)))

theorem runs_eq {p : ℕ → Bool} {n : ℕ} (h : Separated ss) (hle : ∀ s ∈ ss, s.start + s.length ≤ n)
    (hp : ∀ i, i < n → (p i = true ↔ Covered ss i)) : runs p n = ss.length := by
  have hstarts : (ss.map Span.start).Nodup := by
    apply List.Pairwise.map (R := fun s t => s.start + s.length < t.start)
    · intro s t hst
      omega
    · exact h.apart
  have hperm : ((List.range n).filter (fun i => p i && (i == 0 || !p (i - 1)))).Perm
      (ss.map Span.start) := by
    rw [List.perm_ext_iff_of_nodup (List.nodup_range.filter _) hstarts]
    intro i
    have hiff := h.start_iff (a := i)
    by_cases hi : i < n
    · have hcur := hp i hi
      have hprev := hp (i - 1) (by omega)
      simp only [List.mem_filter, List.mem_range, hi, true_and, Bool.and_eq_true, Bool.or_eq_true,
        beq_iff_eq, Bool.not_eq_true', hcur, List.mem_map, ← hiff]
      rw [← hprev, Bool.not_eq_true]
    · have hnone : ¬ ∃ s ∈ ss, s.start = i := by
        rintro ⟨s, hs, rfl⟩
        have := hle s hs
        have := h.pos s hs
        omega
      simp [hi, hnone]
  rw [runs, List.countP_eq_length_filter, hperm.length_eq, List.length_map]

end Library.Tilings
