import MinOS.CommandDecoding

namespace MinOS

open Library.Integers Library.Words Library.Arrays Library.Fields

def LowestFree (slots : BitVec 32) (k : ℕ) : Prop :=
  k < 32 ∧ slots.getLsbD k = false ∧ ∀ j, j < k → slots.getLsbD j = true

section Slots

variable {slots : BitVec 32} {i j k n : ℕ}

theorem LowestFree.unique (h : LowestFree slots k) (h' : LowestFree slots j) : k = j := by
  rcases Nat.lt_trichotomy k j with hlt | heq | hlt
  · exact absurd (h'.2.2 k hlt) (by simp [h.2.1])
  · exact heq
  · exact absurd (h.2.2 j hlt) (by simp [h'.2.1])

end Slots

section Frame

variable {cmdTblBase : Word} {port : HbaPort} {params : CmdParams} {s u : DriverState} {k : ℕ} {slot : ℤ}
  {x : Word}

end Frame

section Example

end Example

end MinOS
