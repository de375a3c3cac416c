import Mathlib.Data.List.Induction

namespace Library.Channels

inductive Event (α β : Type*) where
  | put (a : α)
  | get (b : β)

variable {α β : Type*}

def Event.isPut : Event α β → Bool
  | put _ => true
  | get _ => false

/-- What has happened to a channel that was empty at first, and the message that is in it; for a
message `a` anything can come out that `fits a`. -/
inductive Exchange (fits : α → β → Prop) : List (Event α β) → Option α → Prop
  | nil : Exchange fits [] none
  | put {es : List (Event α β)} (a : α) : Exchange fits es none → Exchange fits (es ++ [.put a]) (some a)
  | get {es : List (Event α β)} {a : α} {b : β} :
      Exchange fits es (some a) → fits a b → Exchange fits (es ++ [.get b]) none

namespace Exchange

variable {fits : α → β → Prop} {es : List (Event α β)} {a : α} {b : β} {o : Option α} {e : Event α β}
  {i : ℕ}

theorem length_mod (h : Exchange fits es o) : es.length % 2 = if o.isSome then 1 else 0 := by
  induction h with
  | nil => rfl
  | put a _ ih =>
    simp only [List.length_append, List.length_singleton, Option.isSome_none, Option.isSome_some,
      Bool.false_eq_true, if_false, if_true] at ih ⊢
    omega
  | get _ _ ih =>
    simp only [List.length_append, List.length_singleton, Option.isSome_none, Option.isSome_some,
      Bool.false_eq_true, if_false, if_true] at ih ⊢
    omega

theorem getElem?_snoc {x : Event α β} (h : (es ++ [x])[i]? = some e) :
    es[i]? = some e ∨ i = es.length ∧ x = e := by
  rw [List.getElem?_append] at h
  split_ifs at h with hi
  · exact .inl h
  · rw [List.getElem?_singleton] at h
    split_ifs at h with h0
    exact .inr ⟨by omega, Option.some.inj h⟩

theorem alternates (h : Exchange fits es o) (he : es[i]? = some e) : e.isPut = decide (i % 2 = 0) := by
  induction h with
  | nil => simp at he
  | put a h ih =>
    have hlen := h.length_mod
    rcases getElem?_snoc he with hold | ⟨rfl, rfl⟩
    · exact ih hold
    · simp only [Option.isSome_none, Bool.false_eq_true, if_false] at hlen
      simp [Event.isPut, hlen]
  | get h _ ih =>
    have hlen := h.length_mod
    rcases getElem?_snoc he with hold | ⟨rfl, rfl⟩
    · exact ih hold
    · simp only [Option.isSome_some, if_true] at hlen
      simp [Event.isPut, hlen]

theorem put_inv (h : Exchange fits (es ++ [.put a]) o) : Exchange fits es none ∧ o = some a := by
  generalize hall : es ++ [.put a] = all at h
  cases h with
  | nil => simp at hall
  | put a' h' =>
    obtain ⟨hes, hlast⟩ := List.append_inj' hall rfl
    simp only [List.cons.injEq, Event.put.injEq, and_true] at hlast
    subst hes hlast
    exact ⟨h', rfl⟩
  | get _ _ =>
    obtain ⟨-, hlast⟩ := List.append_inj' hall rfl
    simp at hlast

theorem get_inv (h : Exchange fits (es ++ [.get b]) o) : ∃ a, Exchange fits es (some a) ∧ fits a b := by
  generalize hall : es ++ [.get b] = all at h
  cases h with
  | nil => simp at hall
  | put a' _ =>
    obtain ⟨-, hlast⟩ := List.append_inj' hall rfl
    simp at hlast
  | @get es' a' b' h' hfits =>
    obtain ⟨hes, hlast⟩ := List.append_inj' hall rfl
    simp only [List.cons.injEq, Event.get.injEq, and_true] at hlast
    subst hes hlast
    exact ⟨a', h', hfits⟩

theorem of_append {es' : List (Event α β)} (h : Exchange fits (es ++ es') o) :
    ∃ o', Exchange fits es o' := by
  induction es' using List.reverseRecOn generalizing o with
  | nil => exact ⟨o, by simpa using h⟩
  | append_singleton es' e ih =>
    rw [← List.append_assoc] at h
    cases e with
    | put a =>
      obtain ⟨h', -⟩ := h.put_inv
      exact ih h'
    | get b =>
      obtain ⟨a, h', -⟩ := h.get_inv
      exact ih h'

theorem fits_next {es' : List (Event α β)} (h : Exchange fits (es ++ .put a :: .get b :: es') o) :
    fits a b := by
  have hsplit : es ++ .put a :: .get b :: es' = es ++ [.put a] ++ [.get b] ++ es' := by simp
  rw [hsplit] at h
  obtain ⟨_, h⟩ := h.of_append
  obtain ⟨a', hput, hfits⟩ := h.get_inv
  obtain rfl := Option.some.inj hput.put_inv.2
  exact hfits

end Exchange

end Library.Channels
