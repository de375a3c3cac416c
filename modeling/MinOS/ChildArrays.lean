import Mathlib.Data.List.Find
import MinOS.ThreadTable

namespace MinOS

variable {t : Thread} {i j : ℕ} {tid v : ℤ}

theorem find_reverse_range {n : ℕ} {f : ℕ → Bool} (hj : j < n) (hf : f j = true)
    (hlast : ∀ k, j < k → k < n → f k = false) : (List.range n).reverse.find? f = some j := by
  induction n with
  | zero => omega
  | succ n ih =>
    rw [List.range_succ, List.reverse_append]
    by_cases hjn : j = n
    · subst hjn
      simp [hf]
    · have hn := hlast n (by omega) (by omega)
      simp only [List.reverse_cons, List.reverse_nil, List.nil_append, List.singleton_append,
        List.find?_cons, hn]
      exact ih (by omega) (fun k hjk hk => hlast k hjk (by omega))

theorem findCtid_of_empty (h : ∀ k, k < nthreadChild → t.ctid k = -1) : findCtid t = -1 := by
  have hnone : (List.range nthreadChild).reverse.find? (fun i => decide (t.ctid i ≠ -1)) = none := by
    rw [List.find?_eq_none]
    intro k hk
    simp [h k (List.mem_range.mp (List.mem_reverse.mp hk))]
  rw [findCtid, hnone]

theorem findCtid_eq_last (hj : j < nthreadChild) (hne : t.ctid j ≠ -1)
    (hlast : ∀ k, j < k → k < nthreadChild → t.ctid k = -1) : findCtid t = t.ctid j := by
  rw [findCtid, find_reverse_range hj (by simpa using hne) (fun k hjk hk => by simp [hlast k hjk hk])]

theorem clearCtid_ctid (t : Thread) (tid : ℤ) (k : ℕ) : (clearCtid t tid).2.ctid k = t.ctid k ∨
    (clearCtid t tid).2.ctid k = -1 ∧ t.ctid k = tid := by
  unfold clearCtid
  split_ifs
  · exact .inl rfl
  · split
    · rename_i i hi
      have htid : t.ctid i = tid := by simpa using List.find?_some hi
      by_cases hk : k = i
      · subst hk
        exact .inr ⟨Function.update_self .., htid⟩
      · exact .inl (Function.update_of_ne hk ..)
    · exact .inl rfl

theorem clearCtid_of_absent (h : ∀ k, k < nthreadChild → t.ctid k ≠ tid) : (clearCtid t tid).2 = t := by
  unfold clearCtid
  split_ifs
  · rfl
  · split
    · rename_i i hi
      exact absurd (by simpa using List.find?_some hi) (h i (List.mem_range.mp (List.mem_of_find?_eq_some hi)))
    · rfl

theorem setCtid_slot (h0 : 0 ≤ tid) (hj : findChildSlot t (-1) = some j) :
    j < nthreadChild ∧ t.ctid j = -1 ∧ (setCtid t tid).2.ctid = Function.update t.ctid j tid := by
  refine ⟨List.mem_range.mp (List.mem_of_find?_eq_some hj), by simpa using List.find?_some hj, ?_⟩
  rw [setCtid, if_neg (by omega), hj]

theorem setCtid_full (h : findChildSlot t (-1) = none) : (setCtid t tid).2 = t := by
  unfold setCtid
  split_ifs
  · rfl
  · rw [h]

namespace Thread

def Filled (t : Thread) : Prop := ∀ i j, i < j → j < nthreadChild → t.ctid i = -1 → t.ctid j = -1

theorem Filled.of_empty (h : ∀ k, k < nthreadChild → t.ctid k = -1) : t.Filled :=
  fun _ j _ hj _ => h j hj

theorem Filled.set (h : t.Filled) (h0 : 0 ≤ tid) : (setCtid t tid).2.Filled := by
  cases hslot : findChildSlot t (-1) with
  | none => rwa [setCtid_full hslot]
  | some j =>
    obtain ⟨-, hfree, hset⟩ := setCtid_slot h0 hslot
    have hbefore : ∀ k, k < j → t.ctid k ≠ -1 := by
      have hmin := (List.find?_range_eq_some.mp hslot).2.2
      simpa using hmin
    intro i k hik hk hi
    rw [hset] at hi ⊢
    by_cases hij : i = j
    · rw [hij, Function.update_self] at hi
      omega
    · rw [Function.update_of_ne hij] at hi
      have hji : j < i := by
        by_contra hle
        exact hbefore i (by omega) hi
      rw [Function.update_of_ne (by omega)]
      exact h i k hik hk hi

theorem Filled.findCtid_set (h : t.Filled) (h0 : 0 ≤ tid) (hfree : findChildSlot t (-1) ≠ none) :
    findCtid (setCtid t tid).2 = tid := by
  obtain ⟨j, hslot⟩ := Option.ne_none_iff_exists'.mp hfree
  obtain ⟨hj, hwas, hset⟩ := setCtid_slot h0 hslot
  have hself : (setCtid t tid).2.ctid j = tid := by rw [hset, Function.update_self]
  rw [findCtid_eq_last hj (by rw [hself]; omega) (fun k hjk hk => ?_), hself]
  rw [hset, Function.update_of_ne (by omega)]
  exact h j k hjk hk hwas

end Thread

end MinOS
