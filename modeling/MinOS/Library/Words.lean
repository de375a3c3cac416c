import Mathlib.Algebra.Ring.Nat
import Mathlib.Data.List.Basic

/-!
A byte-addressed memory with 64-bit addresses, little-endian 64-bit loads and stores,
and stacks that grow downwards. Regions may wrap round the end of the address space.
-/

namespace Library.Words

abbrev Word := BitVec 64
abbrev Memory := Word → BitVec 8

def load64 (m : Memory) (a : Word) : Word :=
  m (a + 7) ++ m (a + 6) ++ m (a + 5) ++ m (a + 4) ++ m (a + 3) ++ m (a + 2) ++ m (a + 1) ++ m a

def store64 (m : Memory) (a v : Word) : Memory := fun x =>
  if (x - a).toNat < 8 then v.extractLsb' (8 * (x - a).toNat) 8 else m x

def InRegion (a : Word) (n : ℕ) (x : Word) : Prop := (x - a).toNat < n

instance (a : Word) (n : ℕ) (x : Word) : Decidable (InRegion a n x) :=
  inferInstanceAs (Decidable (_ < _))

variable {m m' : Memory} {a b v w x : Word} {n k : ℕ}

theorem InRegion.shift (h : InRegion (a + BitVec.ofNat 64 k) n x) (hk : k + n ≤ 2 ^ 64) :
    InRegion a (k + n) x := by
  unfold InRegion at *
  bv_omega

theorem InRegion.mono (h : InRegion a n x) (hn : n ≤ k) : InRegion a k x :=
  Nat.lt_of_lt_of_le h hn

theorem store64_other (h : ¬ InRegion a 8 x) : store64 m a v x = m x := if_neg h

theorem load64_congr (h : ∀ x, InRegion a 8 x → m' x = m x) : load64 m' a = load64 m a := by
  have hbyte : ∀ i : Word, i.toNat < 8 → m' (a + i) = m (a + i) := by
    intro i hi
    exact h _ (by unfold InRegion; bv_omega)
  have hzero : m' a = m a := by simpa using hbyte 0 (by decide)
  simp only [load64, hzero, hbyte 7 (by decide), hbyte 6 (by decide), hbyte 5 (by decide),
    hbyte 4 (by decide), hbyte 3 (by decide), hbyte 2 (by decide), hbyte 1 (by decide)]

theorem load64_store64 : load64 (store64 m a v) a = v := by
  have hbyte : ∀ i : Word, i.toNat < 8 → store64 m a v (a + i) = v.extractLsb' (8 * i.toNat) 8 := by
    intro i hi
    have hsub : a + i - a = i := by bv_omega
    rw [store64, hsub, if_pos hi]
  have hzero : store64 m a v a = v.extractLsb' 0 8 := by simpa using hbyte 0 (by decide)
  simp only [load64, hzero, hbyte 7 (by decide), hbyte 6 (by decide), hbyte 5 (by decide),
    hbyte 4 (by decide), hbyte 3 (by decide), hbyte 2 (by decide), hbyte 1 (by decide)]
  ext i hi
  have hbit : ∀ j, j = i → v.getLsbD j = v[i] := by
    rintro _ rfl
    exact BitVec.getLsbD_eq_getElem hi
  simp only [BitVec.getElem_append, BitVec.getElem_extractLsb', BitVec.reduceToNat]
  split_ifs <;> exact hbit _ (by omega)

def Holds (m : Memory) (a : Word) : List Word → Prop
  | [] => True
  | w :: ws => load64 m a = w ∧ Holds m (a + 8) ws

def pushAll (m : Memory) (a : Word) : List Word → Memory
  | [] => m
  | w :: ws => pushAll (store64 m (a - 8) w) (a - 8) ws

variable {vs ws : List Word}

theorem holds_append : Holds m a (vs ++ ws) ↔
    Holds m a vs ∧ Holds m (a + BitVec.ofNat 64 (8 * vs.length)) ws := by
  induction vs generalizing a with
  | nil => simp [Holds]
  | cons v vs ih =>
    have haddr : a + 8 + BitVec.ofNat 64 (8 * vs.length) =
        a + BitVec.ofNat 64 (8 * (vs.length + 1)) := by bv_omega
    simp only [List.cons_append, Holds, ih, haddr, List.length_cons, and_assoc]

theorem Holds.congr (h : Holds m a ws) (hlen : 8 * ws.length ≤ 2 ^ 64)
    (hm : ∀ x, InRegion a (8 * ws.length) x → m' x = m x) : Holds m' a ws := by
  induction ws generalizing a with
  | nil => trivial
  | cons w ws ih =>
    rw [List.length_cons] at hlen hm
    refine ⟨?_, ih h.2 (by omega) (fun x hx => hm x ?_)⟩
    · rw [← h.1]
      exact load64_congr (fun x hx => hm x (hx.mono (by omega)))
    · have hshift := InRegion.shift (k := 8) hx (by omega)
      exact hshift.mono (by omega)

theorem Holds.push (h : Holds m a ws) (hlen : 8 * (ws.length + 1) ≤ 2 ^ 64) :
    Holds (store64 m (a - 8) w) (a - 8) (w :: ws) := by
  refine ⟨load64_store64, ?_⟩
  rw [BitVec.sub_add_cancel]
  refine h.congr (by omega) (fun x hx => store64_other ?_)
  unfold InRegion at *
  bv_omega

theorem exists_holds (m : Memory) (a : Word) (n : ℕ) : ∃ ws, ws.length = n ∧ Holds m a ws := by
  induction n generalizing a with
  | zero => exact ⟨[], rfl, trivial⟩
  | succ n ih =>
    obtain ⟨ws, hlen, h⟩ := ih (a + 8)
    exact ⟨load64 m a :: ws, by rw [List.length_cons, hlen], rfl, h⟩

theorem holds_nil : Holds m a [] := trivial

theorem pushAll_holds (ws : List Word) (h : Holds m a vs) (hlen : 8 * (ws.length + vs.length) ≤ 2 ^ 64) :
    Holds (pushAll m a ws) (a - BitVec.ofNat 64 (8 * ws.length)) (ws.reverse ++ vs) := by
  induction ws generalizing m a vs with
  | nil => simpa [pushAll] using h
  | cons w ws ih =>
    rw [List.length_cons] at hlen
    have hrest := ih (h.push (w := w) (by omega)) (by rw [List.length_cons]; omega)
    have haddr : a - 8 - BitVec.ofNat 64 (8 * ws.length) =
        a - BitVec.ofNat 64 (8 * (ws.length + 1)) := by bv_omega
    rw [haddr] at hrest
    simpa [pushAll] using hrest

theorem pushAll_other (hlen : 8 * ws.length ≤ 2 ^ 64)
    (hx : ¬ InRegion (a - BitVec.ofNat 64 (8 * ws.length)) (8 * ws.length) x) :
    pushAll m a ws x = m x := by
  induction ws generalizing m a with
  | nil => rfl
  | cons w ws ih =>
    rw [List.length_cons] at hlen hx
    rw [pushAll, ih (by omega)]
    · refine store64_other (fun hin => hx ?_)
      unfold InRegion at *
      bv_omega
    · refine fun hin => hx ?_
      unfold InRegion at *
      bv_omega

theorem pushAll_congr (hm : m' x = m x) (a : Word) (ws : List Word) :
    pushAll m' a ws x = pushAll m a ws x := by
  induction ws generalizing a m m' with
  | nil => exact hm
  | cons w ws ih =>
    refine ih ?_ (a - 8)
    unfold store64
    split_ifs
    · rfl
    · exact hm

def pushBoth (m : Memory) (a b : Word) : List Word → Memory
  | [] => m
  | w :: ws => pushBoth (store64 (store64 m (b - 8) w) (a - 8) w) (a - 8) (b - 8) ws

theorem pushBoth_left (hlen : 8 * ws.length ≤ 2 ^ 64)
    (hx : ¬ InRegion (b - BitVec.ofNat 64 (8 * ws.length)) (8 * ws.length) x) :
    pushBoth m a b ws x = pushAll m a ws x := by
  induction ws generalizing m a b with
  | nil => rfl
  | cons w ws ih =>
    rw [List.length_cons] at hlen hx
    have hhead : ¬ InRegion (b - 8) 8 x := by
      refine fun hin => hx ?_
      unfold InRegion at *
      bv_omega
    rw [pushBoth, ih (by omega), pushAll]
    · refine pushAll_congr ?_ _ _
      unfold store64
      split_ifs with _ hb
      · rfl
      · exact absurd hb hhead
      · rfl
    · refine fun hin => hx ?_
      unfold InRegion at *
      bv_omega

theorem pushBoth_right (hlen : 8 * ws.length ≤ 2 ^ 64)
    (hx : ¬ InRegion (a - BitVec.ofNat 64 (8 * ws.length)) (8 * ws.length) x) :
    pushBoth m a b ws x = pushAll m b ws x := by
  induction ws generalizing m a b with
  | nil => rfl
  | cons w ws ih =>
    rw [List.length_cons] at hlen hx
    have hhead : ¬ InRegion (a - 8) 8 x := by
      refine fun hin => hx ?_
      unfold InRegion at *
      bv_omega
    rw [pushBoth, ih (by omega), pushAll]
    · exact pushAll_congr (store64_other hhead) _ _
    · refine fun hin => hx ?_
      unfold InRegion at *
      bv_omega

theorem pushBoth_holds (ws : List Word) (hlen : 8 * ws.length ≤ 2 ^ 64)
    (hapart : ∀ x, InRegion (a - BitVec.ofNat 64 (8 * ws.length)) (8 * ws.length) x →
      ¬ InRegion (b - BitVec.ofNat 64 (8 * ws.length)) (8 * ws.length) x) :
    Holds (pushBoth m a b ws) (a - BitVec.ofNat 64 (8 * ws.length)) ws.reverse ∧
      Holds (pushBoth m a b ws) (b - BitVec.ofNat 64 (8 * ws.length)) ws.reverse := by
  have hholds : ∀ c, Holds (pushAll m c ws) (c - BitVec.ofNat 64 (8 * ws.length)) ws.reverse := by
    intro c
    have h := pushAll_holds (m := m) (a := c) ws holds_nil (by simpa using hlen)
    rwa [List.append_nil] at h
  constructor
  · refine (hholds a).congr (by simpa using hlen) (fun x hx => pushBoth_left hlen (hapart x ?_))
    simpa using hx
  · refine (hholds b).congr (by simpa using hlen) (fun x hx => pushBoth_right hlen (fun ha => ?_))
    exact hapart x ha (by simpa using hx)

end Library.Words
