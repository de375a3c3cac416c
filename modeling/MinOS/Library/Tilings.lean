import Mathlib.Algebra.BigOperators.Group.List.Basic
import Mathlib.Algebra.BigOperators.Ring.Finset
import Mathlib.Order.Interval.Finset.Nat
import Mathlib.Tactic.SplitIfs

/-!
Tilings of an interval of addresses by spans. `Tiles` counts the spans over each
address, so it does not depend on the order of the spans, and cutting a span in
two or joining two neighbours is an equation between counts.
-/

namespace Library.Tilings

structure Span where
  start : ℕ
  length : ℕ
deriving DecidableEq

def Span.covers (s : Span) (a : ℕ) : Bool := decide (s.start ≤ a ∧ a < s.start + s.length)

def Span.Disjoint (s t : Span) : Prop :=
  s.start + s.length ≤ t.start ∨ t.start + t.length ≤ s.start

def cover (spans : List Span) (a : ℕ) : ℕ := spans.countP (fun s => s.covers a)

def Tiles (spans : List Span) (lo hi : ℕ) : Prop :=
  ∀ a, cover spans a = if lo ≤ a ∧ a < hi then 1 else 0

@[simp] theorem covers_iff (s : Span) (a : ℕ) :
    s.covers a = true ↔ s.start ≤ a ∧ a < s.start + s.length := by
  simp [Span.covers]

@[simp] theorem cover_nil (a : ℕ) : cover [] a = 0 := rfl

@[simp] theorem cover_cons (s : Span) (spans : List Span) (a : ℕ) :
    cover (s :: spans) a = cover spans a + if s.covers a then 1 else 0 := by
  rw [cover, List.countP_cons, cover]

@[simp] theorem cover_append (ss ts : List Span) (a : ℕ) :
    cover (ss ++ ts) a = cover ss a + cover ts a := by
  simp [cover]

theorem cover_perm {ss ts : List Span} (h : ss.Perm ts) (a : ℕ) : cover ss a = cover ts a :=
  h.countP_eq _

theorem cover_pos {spans : List Span} {s : Span} (hs : s ∈ spans) {a : ℕ} (ha : s.covers a = true) :
    0 < cover spans a :=
  List.countP_pos_iff.mpr ⟨s, hs, ha⟩

theorem cover_join (start m n a : ℕ) :
    cover [⟨start, m⟩, ⟨start + m, n⟩] a = cover [⟨start, m + n⟩] a := by
  simp only [cover_cons, cover_nil, covers_iff]
  split_ifs <;> omega

theorem Tiles.of_cover {ss ts : List Span} {lo hi : ℕ} (h : Tiles ss lo hi)
    (hc : ∀ a, cover ts a = cover ss a) : Tiles ts lo hi :=
  fun a => (hc a).trans (h a)

theorem Tiles.within {spans : List Span} {lo hi : ℕ} (h : Tiles spans lo hi) {s : Span}
    (hs : s ∈ spans) (hpos : 0 < s.length) : lo ≤ s.start ∧ s.start + s.length ≤ hi := by
  have hin : ∀ a, s.covers a = true → lo ≤ a ∧ a < hi := by
    intro a ha
    have hp := cover_pos hs ha
    rw [h a] at hp
    by_contra hout
    rw [if_neg hout] at hp
    omega
  have hfirst := hin s.start (by simp [hpos])
  have hlast := hin (s.start + s.length - 1) (by simp only [covers_iff]; omega)
  omega

theorem Tiles.pairwise {spans : List Span} {lo hi : ℕ} (h : Tiles spans lo hi)
    (hpos : ∀ s ∈ spans, 0 < s.length) : spans.Pairwise Span.Disjoint := by
  have hone : ∀ a, cover spans a ≤ 1 := by
    intro a
    rw [h a]
    split_ifs <;> omega
  clear h
  induction spans with
  | nil => exact .nil
  | cons s spans ih =>
    refine .cons ?_ (ih (fun t ht => hpos t (List.mem_cons_of_mem _ ht)) ?_)
    · intro t ht
      by_contra hmeet
      simp only [Span.Disjoint, not_or, not_le] at hmeet
      have hs := hpos s (by simp)
      have ht' := hpos t (List.mem_cons_of_mem _ ht)
      -- the later of the two starts lies in both spans
      have hboth : s.covers (max s.start t.start) = true ∧ t.covers (max s.start t.start) = true := by
        simp only [covers_iff]; omega
      have hp := cover_pos ht hboth.2
      have hle := hone (max s.start t.start)
      rw [cover_cons, if_pos hboth.1] at hle
      omega
    · intro a
      have hle := hone a
      rw [cover_cons] at hle
      omega

theorem Tiles.exists_cover {spans : List Span} {lo hi a : ℕ} (h : Tiles spans lo hi)
    (hlo : lo ≤ a) (hhi : a < hi) : ∃ s ∈ spans, s.covers a = true := by
  have hp : 0 < cover spans a := by rw [h a, if_pos ⟨hlo, hhi⟩]; omega
  exact List.countP_pos_iff.mp hp

theorem Tiles.disjoint {spans : List Span} {lo hi : ℕ} (h : Tiles spans lo hi)
    (hpos : ∀ s ∈ spans, 0 < s.length) {s t : Span} (hs : s ∈ spans) (ht : t ∈ spans) (hne : s ≠ t) :
    s.Disjoint t := by
  have : Std.Symm Span.Disjoint := ⟨fun _ _ h => Or.symm h⟩
  exact (h.pairwise hpos).forall hs ht hne

theorem Tiles.start_cases {spans : List Span} {lo hi : ℕ} (h : Tiles spans lo hi)
    (hpos : ∀ s ∈ spans, 0 < s.length) {s : Span} (hs : s ∈ spans) :
    s.start = lo ∨ ∃ t ∈ spans, t.start < s.start ∧ t.start + t.length = s.start := by
  have hin := h.within hs (hpos s hs)
  by_cases hlo : s.start = lo
  · exact .inl hlo
  · obtain ⟨t, ht, hcover⟩ := h.exists_cover (a := s.start - 1) (by omega) (by have := hpos s hs; omega)
    rw [covers_iff] at hcover
    have hne : t ≠ s := by
      rintro rfl
      omega
    have hapart := h.disjoint hpos ht hs hne
    unfold Span.Disjoint at hapart
    exact .inr ⟨t, ht, by omega, by omega⟩

theorem Tiles.exists_start {spans : List Span} {lo hi a : ℕ} (h : Tiles spans lo hi)
    (hpos : ∀ s ∈ spans, 0 < s.length) (hlo : lo ≤ a) (hhi : a < hi)
    (ha : a = lo ∨ ∃ s ∈ spans, s.start + s.length = a) : ∃ t ∈ spans, t.start = a := by
  obtain ⟨t, ht, hcover⟩ := h.exists_cover hlo hhi
  rw [covers_iff] at hcover
  refine ⟨t, ht, ?_⟩
  rcases ha with rfl | ⟨s, hs, rfl⟩
  · have hin := h.within ht (hpos t ht)
    omega
  · have hne : t ≠ s := by
      rintro rfl
      omega
    have hapart := h.disjoint hpos ht hs hne
    unfold Span.Disjoint at hapart
    have hlen := hpos s hs
    omega

theorem Tiles.subset {ss ts : List Span} {lo hi : ℕ} {f : ℕ → ℕ} (hss : Tiles ss lo hi)
    (hts : Tiles ts lo hi) (hs : ∀ s ∈ ss, s.length = f s.start) (ht : ∀ t ∈ ts, t.length = f t.start)
    (hspos : ∀ s ∈ ss, 0 < s.length) (htpos : ∀ t ∈ ts, 0 < t.length) : ss ⊆ ts := by
  intro s hmem
  induction hstart : s.start using Nat.strong_induction_on generalizing s with
  | _ a ih =>
    have hin := hss.within hmem (hspos s hmem)
    have hlen := hspos s hmem
    have hends : a = lo ∨ ∃ t ∈ ts, t.start + t.length = a := by
      rcases hss.start_cases hspos hmem with hlo | ⟨t, htmem, hlt, hend⟩
      · exact .inl (hstart.symm.trans hlo)
      · exact .inr ⟨t, ih t.start (by omega) htmem rfl, hend.trans hstart⟩
    obtain ⟨t, htmem, hteq⟩ := hts.exists_start htpos (by omega) (by omega) hends
    have heq : t = s := by
      obtain ⟨u, m⟩ := t
      obtain ⟨v, n⟩ := s
      have hm := ht _ htmem
      have hn := hs _ hmem
      dsimp only at hm hn hteq hstart
      rw [hm, hn, hteq, hstart]
    exact heq ▸ htmem

theorem sum_cover {spans : List Span} {lo hi : ℕ}
    (hin : ∀ s ∈ spans, lo ≤ s.start ∧ s.start + s.length ≤ hi) :
    (spans.map Span.length).sum = ∑ a ∈ Finset.Ico lo hi, cover spans a := by
  induction spans with
  | nil => simp
  | cons s spans ih =>
    have hs := hin s (by simp)
    have hlen : s.length = ∑ a ∈ Finset.Ico lo hi, if s.covers a then 1 else 0 := by
      rw [← Finset.card_filter]
      have hset : (Finset.Ico lo hi).filter (fun a => s.covers a = true) =
          Finset.Ico s.start (s.start + s.length) := by
        ext a
        simp only [Finset.mem_filter, Finset.mem_Ico, covers_iff]
        omega
      rw [hset, Nat.card_Ico]
      omega
    simp only [List.map_cons, List.sum_cons, cover_cons, Finset.sum_add_distrib]
    rw [← ih (fun t ht => hin t (List.mem_cons_of_mem _ ht)), ← hlen, Nat.add_comm]

theorem Tiles.sum_length {spans : List Span} {lo hi : ℕ} (h : Tiles spans lo hi)
    (hpos : ∀ s ∈ spans, 0 < s.length) : (spans.map Span.length).sum = hi - lo := by
  rw [sum_cover (fun s hs => h.within hs (hpos s hs)), Finset.sum_congr rfl (g := fun _ => 1)]
  · simp
  · intro a ha
    rw [h a, if_pos (Finset.mem_Ico.mp ha)]

def Consecutive : List Span → ℕ → ℕ → Prop
  | [], lo, hi => lo = hi
  | s :: spans, lo, hi => s.start = lo ∧ Consecutive spans (lo + s.length) hi

theorem Consecutive.le {spans : List Span} {lo hi : ℕ} (h : Consecutive spans lo hi) : lo ≤ hi := by
  induction spans generalizing lo with
  | nil => exact le_of_eq h
  | cons s spans ih =>
    have := ih h.2
    omega

theorem Consecutive.tiles {spans : List Span} {lo hi : ℕ} (h : Consecutive spans lo hi) :
    Tiles spans lo hi := by
  induction spans generalizing lo with
  | nil =>
    intro a
    have hempty : ¬ (lo ≤ a ∧ a < hi) := by
      rw [show lo = hi from h]
      omega
    rw [cover_nil, if_neg hempty]
  | cons s spans ih =>
    obtain ⟨hstart, hrest⟩ := h
    have hle := hrest.le
    intro a
    rw [cover_cons, ih hrest a]
    simp only [covers_iff, hstart]
    split_ifs <;> omega

theorem consecutive_cuts {f : ℕ → ℕ} (hf : Monotone f) (n : ℕ) :
    Consecutive ((List.range n).map (fun k => ⟨f k, f (k + 1) - f k⟩)) (f 0) (f n) := by
  induction n generalizing f with
  | zero => rfl
  | succ n ih =>
    have hstep : f 0 + (f 1 - f 0) = f 1 := Nat.add_sub_cancel' (hf (Nat.zero_le 1))
    have hrest := ih (f := fun k => f (k + 1)) (fun i j hij => hf (Nat.succ_le_succ hij))
    rw [List.range_succ_eq_map, List.map_cons, List.map_map]
    refine ⟨rfl, ?_⟩
    rw [hstep]
    exact hrest

end Library.Tilings
