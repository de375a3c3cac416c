import Mathlib.Data.Nat.Find
import MinOS.Library.RoundRobin
import MinOS.ThreadTableInvariant

namespace MinOS

open Library.Integers Library.RoundRobin

namespace Tasks

/-- The loop of `thread_scheduler`, a turn for each unit of fuel, with the slots it has examined.
The result is `none` when the fuel runs out or the slot is outside of `threads`. -/
def schedulerLoop (s : Tasks) (old : ℤ) : ℕ → ℤ → ℤ → List ℤ → Option (ℤ × List ℤ)
  | 0, _, _, _ => none
  | fuel + 1, cur, i, seen =>
    if cur = old then
      let k := (int32 (cur + i)).tmod threadNum
      if 0 ≤ k ∧ k < threadNum then
        if (s.thread k.toNat).state = .runnable then some (k, seen ++ [k])
        else schedulerLoop s old fuel cur (int32 (i + 1)) (seen ++ [k])
      else none
    else some (cur, seen)

def Runnable (s : Tasks) (i : ℤ) : Prop := (s.thread i.toNat).state = .runnable

instance (s : Tasks) (i : ℤ) : Decidable (s.Runnable i) :=
  inferInstanceAs (Decidable ((s.thread i.toNat).state = .runnable))

variable {s : Tasks} {c k : ℤ}

theorem schedulerLoop_turn {fuel : ℕ} {i : ℤ} {seen : List ℤ} (hc : 0 ≤ c) (hcn : c < threadNum)
    (hi : 0 ≤ i) (hin : i ≤ threadNum) :
    s.schedulerLoop c (fuel + 1) c i seen =
      if s.Runnable ((c + i) % threadNum) then
        some ((c + i) % threadNum, seen ++ [(c + i) % threadNum])
      else s.schedulerLoop c fuel c (i + 1) (seen ++ [(c + i) % threadNum]) := by
  simp only [threadNum] at hcn hin
  have hslot : (int32 (c + i)).tmod threadNum = (c + i) % threadNum := by
    rw [int32_eq (by omega) (by omega), Int.tmod_eq_emod_of_nonneg (by omega)]
  have hnext : int32 (i + 1) = i + 1 := int32_eq (by omega) (by omega)
  have hin' : 0 ≤ (c + i) % threadNum ∧ (c + i) % threadNum < threadNum := by
    simp only [threadNum]
    omega
  rw [schedulerLoop, if_pos rfl, hslot, hnext]
  dsimp only
  rw [if_pos hin']
  rfl

theorem schedulerLoop_eq {d : ℕ} {seen : List ℤ} {i : ℤ} {fuel : ℕ} (hc : 0 ≤ c)
    (hcn : c < threadNum) (hi : 0 ≤ i) (hdn : i + d ≤ threadNum) (hfuel : d < fuel)
    (hbefore : ∀ e : ℕ, e < d → ¬ s.Runnable ((c + (i + e)) % threadNum))
    (hat : s.Runnable ((c + (i + d)) % threadNum)) :
    s.schedulerLoop c fuel c i seen = some ((c + (i + d)) % threadNum,
      seen ++ (List.range (d + 1)).map (fun e : ℕ => (c + (i + e)) % threadNum)) := by
  induction d generalizing seen i fuel with
  | zero =>
    obtain ⟨fuel, rfl⟩ : ∃ f, fuel = f + 1 := ⟨fuel - 1, by omega⟩
    rw [schedulerLoop_turn hc hcn hi (by omega)]
    simp only [Nat.cast_zero, Int.add_zero] at hat ⊢
    rw [if_pos hat]
    simp
  | succ d ih =>
    obtain ⟨fuel, rfl⟩ : ∃ f, fuel = f + 1 := ⟨fuel - 1, by omega⟩
    have hshift : ∀ e : ℕ, i + 1 + e = i + (e + 1 : ℕ) := by
      intro e
      push_cast
      omega
    have hfirst := hbefore 0 (by omega)
    rw [Nat.cast_zero, Int.add_zero] at hfirst
    rw [schedulerLoop_turn hc hcn hi (by omega), if_neg hfirst,
      ih (by omega) (by push_cast at hdn ⊢; omega) (by omega)
        (fun e he => (hshift e) ▸ hbefore (e + 1) (by omega)) ((hshift d) ▸ hat),
      hshift d, List.append_assoc]
    congr 3
    rw [List.range_succ_eq_map (n := d + 1), List.map_cons, List.map_map]
    simp only [Nat.cast_zero, Int.add_zero, List.singleton_append, List.cons.injEq, true_and]
    apply List.map_congr_left
    intro e _
    rw [hshift e]
    rfl

theorem exists_next (hrun : ∃ i : ℤ, 0 ≤ i ∧ i < threadNum ∧ s.Runnable i) :
    ∃ d : ℕ, 0 < d ∧ d ≤ threadNum ∧ s.Runnable ((c + d) % threadNum) ∧
      (∀ e : ℕ, 0 < e → e < d → ¬ s.Runnable ((c + e) % threadNum)) ∧
      Next threadNum s.Runnable c ((c + d) % threadNum) := by
  have hn : (0 : ℤ) < threadNum := by decide
  have hturn : ∀ i : ℤ, 0 ≤ i → i < threadNum → s.Runnable i →
      ∃ e : ℕ, 0 < e ∧ (e : ℤ) = turns threadNum c i ∧ s.Runnable ((c + e) % threadNum) := by
    intro i hi hin hready
    have hpos := turns_pos (c := c) (a := i) hn
    obtain ⟨e, he⟩ : ∃ e : ℕ, (e : ℤ) = turns threadNum c i :=
      ⟨(turns threadNum c i).toNat, by omega⟩
    refine ⟨e, by omega, he, ?_⟩
    rw [he, add_turns_emod, Int.emod_eq_of_lt hi hin]
    exact hready
  obtain ⟨i, hi, hin, hready⟩ := hrun
  obtain ⟨e, hepos, he, hslot⟩ := hturn i hi hin hready
  classical
  have hex : ∃ e : ℕ, 0 < e ∧ s.Runnable ((c + e) % threadNum) := ⟨e, hepos, hslot⟩
  obtain ⟨hdpos, hd⟩ := Nat.find_spec hex
  have hmin : ∀ e : ℕ, 0 < e → s.Runnable ((c + e) % threadNum) → Nat.find hex ≤ e := by
    intro e he hslot
    exact Nat.find_min' hex ⟨he, hslot⟩
  have hdn : Nat.find hex ≤ threadNum := by
    have := hmin e hepos hslot
    have := turns_le (c := c) (a := i) hn
    omega
  refine ⟨Nat.find hex, hdpos, hdn, hd, fun e he hlt hslot => ?_, ?_⟩
  · have := hmin e he hslot
    omega
  · refine ⟨Int.emod_nonneg _ hn.ne', Int.emod_lt_of_pos _ hn, hd, fun a ha han hready => ?_⟩
    obtain ⟨e, hepos, he, hslot⟩ := hturn a ha han hready
    have := hmin e hepos hslot
    rw [turns_add (by omega) (by omega), ← he]
    omega

theorem nextThread_eq {d : ℕ} (hc : 0 ≤ s.curThreadIndex) (hd : 0 < d) (hdn : d ≤ threadNum)
    (hat : s.Runnable ((s.curThreadIndex + d) % threadNum))
    (hbefore : ∀ e : ℕ, 0 < e → e < d → ¬ s.Runnable ((s.curThreadIndex + e) % threadNum)) :
    s.nextThread = some ((s.curThreadIndex + d) % threadNum).toNat := by
  have hslot : ∀ e : ℕ, decide ((s.thread ((s.curThreadIndex + e).tmod threadNum).toNat).state =
      .runnable) = decide ((s.thread ((s.curThreadIndex + e) % threadNum).toNat).state = .runnable) := by
    intro e
    rw [tmod_threadNum (by omega)]
  rw [nextThread, List.find?_map]
  have hfind : (List.range' 1 threadNum).find? ((fun i => decide ((s.thread i).state = .runnable)) ∘
      fun i : ℕ => ((s.curThreadIndex + i).tmod threadNum).toNat) = some d := by
    rw [List.find?_range'_eq_some]
    refine ⟨?_, by rw [List.mem_range'_1]; omega, fun e he hed => ?_⟩
    · rw [Function.comp_apply, hslot]
      exact decide_eq_true hat
    · rw [Function.comp_apply, hslot]
      simpa [Runnable] using hbefore e (by omega) hed
  rw [hfind, Option.map_some, tmod_threadNum (by omega)]

/-- Calls of `thread_scheduler` one after the other: `before n` is the table that the call `n` finds
and `after n` the one it leaves. In between anything may change but `cur_thread_index`. -/
structure Calls (N : ℕ) (before after : ℕ → Tasks) : Prop where
  schedules : ∀ n < N, (before n).threadScheduler = some (after n)
  keeps : ∀ n, n + 1 < N → (before (n + 1)).curThreadIndex = (after n).curThreadIndex

theorem threadScheduler_next (hc : 0 ≤ s.curThreadIndex) (hcn : s.curThreadIndex < threadNum)
    (hrun : ∃ i : ℤ, 0 ≤ i ∧ i < threadNum ∧ s.Runnable i) :
    ∃ k seen, s.schedulerLoop s.curThreadIndex threadNum s.curThreadIndex 1 [] = some (k, seen) ∧
      seen.length ≤ threadNum ∧ (∀ i ∈ seen, 0 ≤ i ∧ i < threadNum) ∧
      s.threadScheduler = some { s with curThreadIndex := k } ∧
      Next threadNum s.Runnable s.curThreadIndex k := by
  obtain ⟨d, hd, hdn, hat, hbefore, hnext⟩ := exists_next (c := s.curThreadIndex) hrun
  obtain ⟨e, rfl⟩ : ∃ e, d = e + 1 := ⟨d - 1, by omega⟩
  have hshift : ∀ j : ℕ, (1 : ℤ) + j = (j + 1 : ℕ) := by
    intro j
    push_cast
    omega
  have hloop : s.schedulerLoop s.curThreadIndex threadNum s.curThreadIndex 1 [] =
      some ((s.curThreadIndex + (1 + e)) % threadNum,
        [] ++ (List.range (e + 1)).map (fun j : ℕ => (s.curThreadIndex + (1 + j)) % threadNum)) := by
    apply schedulerLoop_eq hc hcn (by decide) (by omega) (by omega)
    · exact fun j hj => (hshift j).symm ▸ hbefore (j + 1) (by omega) (by omega)
    · exact (hshift e).symm ▸ hat
  rw [hshift e, List.nil_append] at hloop
  refine ⟨_, _, hloop, by simpa using hdn, fun i hi => ?_, ?_, hnext⟩
  · obtain ⟨j, -, rfl⟩ := List.mem_map.mp hi
    simp only [threadNum]
    omega
  · have hplace : (0 : ℤ) ≤ (s.curThreadIndex + (e + 1 : ℕ)) % threadNum := hnext.nonneg
    rw [threadScheduler, nextThread_eq hc hd hdn hat hbefore, Option.map_some,
      Int.toNat_of_nonneg hplace]

theorem Calls.next {N : ℕ} {before after : ℕ → Tasks} (h : Calls N before after)
    (hc : 0 ≤ (before 0).curThreadIndex) (hcn : (before 0).curThreadIndex < threadNum)
    (hrun : ∀ n < N, ∃ i : ℤ, 0 ≤ i ∧ i < threadNum ∧ (before n).Runnable i) {n : ℕ} (hn : n < N) :
    Next threadNum (before n).Runnable (before n).curThreadIndex (after n).curThreadIndex := by
  have hstep : ∀ m < N, 0 ≤ (before m).curThreadIndex → (before m).curThreadIndex < threadNum →
      Next threadNum (before m).Runnable (before m).curThreadIndex (after m).curThreadIndex := by
    intro m hm hlo hhi
    obtain ⟨k, -, -, -, -, hpick, hnext⟩ := threadScheduler_next hlo hhi (hrun m hm)
    rw [h.schedules m hm, Option.some.injEq] at hpick
    rw [hpick]
    exact hnext
  induction n with
  | zero => exact hstep 0 hn hc hcn
  | succ n ih =>
    have hprev := ih (by omega)
    have hkeep := h.keeps n hn
    exact hstep (n + 1) hn (hkeep ▸ hprev.nonneg) (hkeep ▸ hprev.lt)

theorem scheduler_rotation :
    (∀ s : Tasks, 0 ≤ s.curThreadIndex → s.curThreadIndex < threadNum →
      (∃ i : ℤ, 0 ≤ i ∧ i < threadNum ∧ s.Runnable i) →
      ∃ k seen, s.schedulerLoop s.curThreadIndex threadNum s.curThreadIndex 1 [] = some (k, seen) ∧
        seen.length ≤ threadNum ∧ (∀ i ∈ seen, 0 ≤ i ∧ i < threadNum) ∧
        s.threadScheduler = some { s with curThreadIndex := k } ∧
        Next threadNum s.Runnable s.curThreadIndex k) ∧
      ∀ (N : ℕ) (before after : ℕ → Tasks), Calls N before after →
        0 ≤ (before 0).curThreadIndex → (before 0).curThreadIndex < threadNum →
        ∀ a b : ℤ, a ≠ b → 0 ≤ a → a < threadNum → 0 ≤ b → b < threadNum →
        (∀ n < N, (before n).Runnable a ∧ (before n).Runnable b) →
        ∀ i j, i < j → j < N → (after i).curThreadIndex = a → (after j).curThreadIndex = a →
          ∃ l, i < l ∧ l < j ∧ (after l).curThreadIndex = b := by
  refine ⟨fun s hc hcn hrun => threadScheduler_next hc hcn hrun, ?_⟩
  intro N before after hcalls hc hcn a b hne ha han hb hbn hready i j hij hjN hi hj
  apply @alternate threadNum a b (fun n => (before (n + 1)).Runnable)
    (fun n => (after n).curThreadIndex) i j hne ha han hb hbn ?_
    (fun m _ hm => hready (m + 1) (by omega)) hij hi hj
  intro m _ hm
  have hnext := hcalls.next hc hcn (fun n hn => ⟨a, ha, han, (hready n hn).1⟩) (n := m + 1) (by omega)
  rwa [hcalls.keeps m (by omega)] at hnext

def twoThreads (cur : ℤ) : Tasks where
  threads i := .at (i + 1)
  before := .at 0
  obj p := if p = .at 4 ∨ p = .at 8 then { emptyThread with state := .runnable } else emptyThread
  tidIndexDict _ := -1
  tidGlobal := 0
  curThreadIndex := cur

theorem scheduler_rotation_example :
    (∃ k seen, (twoThreads 3).schedulerLoop 3 threadNum 3 1 [] = some (k, seen) ∧
      Next threadNum (twoThreads 3).Runnable 3 k) ∧
      ∃ l, 0 < l ∧ l < 2 ∧ (twoThreads (if l % 2 = 0 then 7 else 3)).curThreadIndex = 3 := by
  constructor
  · obtain ⟨k, seen, hloop, -, -, -, hnext⟩ := scheduler_rotation.1 (twoThreads 3) (by decide)
      (by decide) ⟨7, by decide, by decide, by decide⟩
    exact ⟨k, seen, hloop, hnext⟩
  · have hcalls : Calls 3 (fun n => twoThreads (if n % 2 = 0 then 3 else 7))
        (fun n => twoThreads (if n % 2 = 0 then 7 else 3)) := by
      refine ⟨fun n hn => ?_, fun n _ => ?_⟩
      · have hpick : ∀ c d : ℤ, (twoThreads c).nextThread = some d.toNat → 0 ≤ d →
            (twoThreads c).threadScheduler = some (twoThreads d) := by
          intro c d hnext hd
          rw [threadScheduler, hnext, Option.map_some, Int.toNat_of_nonneg hd]
          rfl
        by_cases hpar : n % 2 = 0
        · simp only [hpar, if_true]
          exact hpick 3 7 (by decide +kernel) (by decide)
        · simp only [hpar, if_false]
          exact hpick 7 3 (by decide +kernel) (by decide)
      · by_cases hpar : n % 2 = 0
        · simp [hpar, Nat.add_mod, twoThreads]
        · have hodd : (n + 1) % 2 = 0 := by omega
          simp [hpar, hodd, twoThreads]
    refine scheduler_rotation.2 3 _ _ hcalls (by decide) (by decide) 7 3 (by decide) (by decide)
      (by decide) (by decide) (by decide) (fun n _ => ?_) 0 2 (by decide) (by decide) rfl rfl
    exact ⟨by simp [Runnable, thread, twoThreads], by simp [Runnable, thread, twoThreads]⟩

end Tasks

end MinOS
