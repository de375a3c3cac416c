import Mathlib.Data.Fintype.Card
import Mathlib.Data.Set.Finite.Basic
import Mathlib.Logic.Relation

namespace Library.Reachability

open Relation

variable {P : Type*} {Next : P → P → Prop} {Good : P → Prop} {p q : P}

inductive Explored (Next : P → P → Prop) (Good : P → Prop) : P → Prop
  | intro {p : P} (good : Good p) (next : ∀ q, Next p q → Explored Next Good q) :
      Explored Next Good p

def Sound (Next : P → P → Prop) (Good : P → Prop) (p : P) : Prop :=
  ∀ q, ReflTransGen Next p q → Good q ∧ ¬ TransGen Next q q

namespace Explored

theorem good (h : Explored Next Good p) : Good p := by
  cases h with
  | intro hgood _ => exact hgood

theorem next (h : Explored Next Good p) (hq : Next p q) : Explored Next Good q := by
  cases h with
  | intro _ hnext => exact hnext q hq

theorem reached (h : Explored Next Good p) (hq : ReflTransGen Next p q) :
    Explored Next Good q := by
  induction hq with
  | refl => exact h
  | tail _ hnext ih => exact ih.next hnext

theorem not_transGen (h : Explored Next Good p) : ¬ TransGen Next p p := by
  induction h with
  | @intro p _ _ ih =>
    intro hcycle
    obtain ⟨q, hq, hback⟩ := TransGen.head'_iff.mp hcycle
    exact ih q hq (.tail' hback hq)

end Explored

theorem Sound.next (h : Sound Next Good p) (hq : Next p q) : Sound Next Good q :=
  fun r hr => h r (.head hq hr)

theorem Sound.explored (hfinite : {p | Good p}.Finite) (h : Sound Next Good p) :
    Explored Next Good p := by
  let Reached := {q // ReflTransGen Next p q}
  have : Finite Reached := (hfinite.subset fun q hq => (h q hq).1).to_subtype
  let Below : Reached → Reached → Prop := fun q r => TransGen Next r.1 q.1
  have : IsTrans Reached Below := ⟨fun _ _ _ hqr hrs => hrs.trans hqr⟩
  have : Std.Irrefl Below := ⟨fun q hq => (h q.1 q.2).2 hq⟩
  have hall : ∀ q : Reached, Explored Next Good q.1 := by
    intro q
    induction q using (Finite.wellFounded_of_trans_of_irrefl Below).induction with
    | _ q ih =>
      refine .intro (h q.1 q.2).1 (fun r hr => ?_)
      exact ih ⟨r, q.2.tail hr⟩ (.single hr)
  exact hall ⟨p, .refl⟩

theorem explored_iff_sound (hfinite : {p | Good p}.Finite) :
    Explored Next Good p ↔ Sound Next Good p := by
  constructor
  · intro h q hq
    exact ⟨(h.reached hq).good, (h.reached hq).not_transGen⟩
  · exact Sound.explored hfinite

end Library.Reachability
