import Mathlib.Data.List.Find
import MinOS.ThreadTable

namespace MinOS

open Library.Integers

namespace Tasks

def staticTasks (before : ThreadPtr) (obj : ThreadPtr → Thread) : Tasks where
  threads _ := .at 0
  before := before
  obj := Function.update obj .emptyThread emptyThread
  tidIndexDict i := if i = 0 then -1 else 0
  tidGlobal := 0
  curThreadIndex := 0

def Live (s : Tasks) (i : ℕ) : Prop := i < threadNum ∧ (s.thread i).state ≠ .dead

/-- Unused entries of the dictionary are `0` or `-1`, and `0` is also a tid: that of the first
thread, which sits in the first entry. -/
structure Consistent (s : Tasks) : Prop where
  empty_dead : (s.obj .emptyThread).state = .dead
  index : ∀ i, s.Live i → (s.thread i).index = i
  tid : ∀ i, s.Live i → s.tidIndexDict i = (s.thread i).tid
  tid_nonneg : ∀ i, s.Live i → 0 ≤ (s.thread i).tid
  tid_zero : ∀ i, s.Live i → (s.thread i).tid = 0 → i = 0
  dict_lt : ∀ i, i < threadNum → s.tidIndexDict i < max s.tidGlobal 1
  tid_lt : ∀ i, s.Live i → (s.thread i).tid < s.tidGlobal
  dict_inj : ∀ i k, i < threadNum → k < threadNum → s.tidIndexDict i = s.tidIndexDict k →
    0 < s.tidIndexDict i → i = k
  ptr_inj : ∀ i k, i < threadNum → k < threadNum → s.threads i = s.threads k →
    s.threads i ≠ .emptyThread → i = k
  ptr_ne_null : ∀ i, i < threadNum → s.threads i ≠ .at 0

variable {s t : Tasks} {i k : ℕ} {p : ThreadPtr}

theorem find_range_eq {n : ℕ} {f : ℕ → Bool} (hi : i < n) (hf : f i = true)
    (hmin : ∀ j < i, f j = false) : (List.range n).find? f = some i := by
  rw [List.find?_range_eq_some]
  exact ⟨hf, List.mem_range.mpr hi, fun j hj => by simp [hmin j hj]⟩

theorem tmod_threadNum {c : ℤ} {i : ℕ} (h : 0 ≤ c + i) :
    ((c + i).tmod threadNum).toNat = ((c + i) % threadNum).toNat := by
  rw [Int.tmod_eq_emod_of_nonneg h]

theorem nextThread_cases (hcur : -1 ≤ s.curThreadIndex) :
    s.nextThread = none ∧ (∀ i, i < threadNum → (s.thread i).state ≠ .runnable) ∨
      ∃ i, s.nextThread = some i ∧ i < threadNum ∧ (s.thread i).state = .runnable := by
  cases h : s.nextThread with
  | none =>
    refine .inl ⟨rfl, fun i hi => ?_⟩
    have hnone := List.find?_eq_none.mp h
    -- the entry `i` is looked at when the loop counter is `k`
    obtain ⟨k, hk, hki⟩ : ∃ k, k ∈ List.range' 1 threadNum ∧
        ((s.curThreadIndex + k) % threadNum).toNat = i := by
      simp only [List.mem_range'_1, threadNum] at hi ⊢
      exact ⟨((i - s.curThreadIndex - 1) % 40).toNat + 1, by omega, by omega⟩
    have hno := hnone i (List.mem_map.mpr ⟨k, hk, ?_⟩)
    · simpa using hno
    · rw [List.mem_range'_1] at hk
      rw [tmod_threadNum (by omega), hki]
  | some i =>
    refine .inr ⟨i, rfl, ?_, by simpa using List.find?_some h⟩
    obtain ⟨k, hk, rfl⟩ := List.mem_map.mp (List.mem_of_find?_eq_some h)
    rw [List.mem_range'_1] at hk
    rw [tmod_threadNum (by omega)]
    simp only [threadNum]
    omega

theorem getCurThreadTid_index (hcur : s.curThreadIndex = i) (hi : i < threadNum) :
    s.getCurThreadTid = some (s.tidIndexDict i) := by
  rw [getCurThreadTid, if_pos (by omega), hcur, Int.toNat_natCast]

namespace Consistent

theorem ptr_ne (hc : s.Consistent) (hl : s.Live i) : s.threads i ≠ .emptyThread := by
  intro he
  exact hl.2 (by rw [thread, he]; exact hc.empty_dead)

theorem tid_inj (hc : s.Consistent) (hi : s.Live i) (hk : s.Live k)
    (h : (s.thread i).tid = (s.thread k).tid) : i = k := by
  by_cases hz : (s.thread i).tid = 0
  · rw [hc.tid_zero i hi hz, hc.tid_zero k hk (h ▸ hz)]
  · refine hc.dict_inj i k hi.1 hk.1 ?_ ?_
    · rw [hc.tid i hi, hc.tid k hk, h]
    · rw [hc.tid i hi]
      have := hc.tid_nonneg i hi
      omega

theorem searchIndexFromTid_eq (hc : s.Consistent) (hi : s.Live i) :
    s.searchIndexFromTid (s.thread i).tid = i := by
  have hfirst : (List.range threadNum).find?
      (fun j => decide (s.tidIndexDict j = (s.thread i).tid)) = some i := by
    refine find_range_eq hi.1 (by simp [hc.tid i hi]) (fun j hj => ?_)
    simp only [decide_eq_false_iff_not, ← hc.tid i hi]
    intro hji
    have hnn := hc.tid_nonneg i hi
    by_cases hz : (s.thread i).tid = 0
    · have := hc.tid_zero i hi hz
      omega
    · have := hc.dict_inj j i (by have := hi.1; omega) hi.1 hji (by rw [hji, hc.tid i hi]; omega)
      omega
  rw [searchIndexFromTid, hfirst]

theorem getCurThreadTid_eq (hc : s.Consistent) (hcur : s.curThreadIndex = i) (hi : s.Live i) :
    s.getCurThreadTid = some (s.thread i).tid := by
  rw [getCurThreadTid_index hcur hi.1, hc.tid i hi]

theorem getThreadPtr_eq (hc : s.Consistent) (hi : s.Live i) :
    s.getThreadPtr (s.thread i).tid = s.threads i := by
  rw [getThreadPtr, hc.searchIndexFromTid_eq hi, if_neg (by omega), Int.toNat_natCast]

end Consistent

theorem thread_setObj_of_ne (t : Thread) (h : s.threads i ≠ p) :
    (s.setObj p t).thread i = s.thread i :=
  Function.update_of_ne h ..

theorem thread_setObj_self (t : Thread) (h : s.threads i = p) : (s.setObj p t).thread i = t := by
  subst h
  exact Function.update_self ..

theorem obj_setObj_self (s : Tasks) (p : ThreadPtr) (t : Thread) : (s.setObj p t).obj p = t :=
  Function.update_self ..

theorem thread_enter_self (s : Tasks) (p : ThreadPtr) (state : ThreadState) (i : ℕ) (ptid : ℤ) :
    (s.enter p state i ptid).thread i =
      { s.obj p with state := state, index := i, ptid := ptid, tid := s.tidGlobal } := by
  simp [thread, enter]

theorem thread_enter_other {state : ThreadState} {ptid : ℤ} (hk : k ≠ i) (hp : s.threads k ≠ p) :
    (s.enter p state i ptid).thread k = s.thread k := by
  simp [thread, enter, hk, hp]

structure Fresh (s : Tasks) (p : ThreadPtr) : Prop where
  ne_empty : p ≠ .emptyThread
  ne_null : p ≠ .at 0
  not_mem : ∀ i, i < threadNum → s.threads i ≠ p

theorem findDead_setObj (hp : s.Fresh p) (content : Thread) :
    (s.setObj p content).findDead = s.findDead := by
  refine List.find?_congr (fun k hk => ?_)
  rw [thread_setObj_of_ne content (hp.not_mem k (List.mem_range.mp hk))]

theorem Fresh.setObj (hp : s.Fresh p) (content : Thread) : (s.setObj p content).Fresh p :=
  ⟨hp.ne_empty, hp.ne_null, hp.not_mem⟩

theorem Fresh.live_setObj (hp : s.Fresh p) (content : Thread) (hk : s.Live k) :
    (s.setObj p content).Live k :=
  ⟨hk.1, thread_setObj_of_ne content (hp.not_mem k hk.1) ▸ hk.2⟩

theorem findDead_cases (s : Tasks) : s.findDead = none ∧ (∀ i, i < threadNum → s.Live i) ∨
    ∃ i, s.findDead = some i ∧ i < threadNum ∧ (s.thread i).state = .dead ∧ ∀ k, k < i → s.Live k := by
  cases h : s.findDead with
  | none =>
    refine .inl ⟨rfl, fun i hi => ⟨hi, ?_⟩⟩
    have := List.find?_eq_none.mp h i (List.mem_range.mpr hi)
    simpa using this
  | some i =>
    obtain ⟨hdead, hi, hmin⟩ := List.find?_range_eq_some.mp h
    rw [List.mem_range] at hi
    exact .inr ⟨i, rfl, hi, by simpa using hdead, fun k hk => ⟨by omega, by simpa using hmin k hk⟩⟩

namespace Consistent

theorem of_same (hc : s.Consistent)
    (hptr : ∀ k, k < threadNum → t.threads k = s.threads k ∨ t.threads k = .emptyThread)
    (hdict : t.tidIndexDict = s.tidIndexDict) (hglobal : t.tidGlobal = s.tidGlobal)
    (hempty : (t.obj .emptyThread).state = .dead)
    (hlive : ∀ k, t.Live k → s.Live k ∧ (t.thread k).index = (s.thread k).index ∧
      (t.thread k).tid = (s.thread k).tid) : t.Consistent := by
  refine ⟨hempty, fun k hk => ?_, fun k hk => ?_, fun k hk => ?_, fun k hk => ?_, ?_, fun k hk => ?_, ?_,
    fun j k hj hk hjk hne => ?_, fun k hk => ?_⟩
  · rw [(hlive k hk).2.1]
    exact hc.index k (hlive k hk).1
  · rw [hdict, (hlive k hk).2.2]
    exact hc.tid k (hlive k hk).1
  · rw [(hlive k hk).2.2]
    exact hc.tid_nonneg k (hlive k hk).1
  · rw [(hlive k hk).2.2]
    exact hc.tid_zero k (hlive k hk).1
  · rw [hdict, hglobal]
    exact hc.dict_lt
  · rw [hglobal, (hlive k hk).2.2]
    exact hc.tid_lt k (hlive k hk).1
  · rw [hdict]
    exact hc.dict_inj
  · have hjs := (hptr j hj).resolve_right hne
    have hks := (hptr k hk).resolve_right (hjk ▸ hne)
    rw [hjs, hks] at hjk
    exact hc.ptr_inj j k hj hk hjk (hjs ▸ hne)
  · rcases hptr k hk with h | h
    · rw [h]
      exact hc.ptr_ne_null k hk
    · simp [h]

theorem setObj_outside (hc : s.Consistent) (hne : p ≠ .emptyThread)
    (hout : ∀ i, i < threadNum → s.threads i ≠ p) (t : Thread) : (s.setObj p t).Consistent := by
  refine hc.of_same (fun _ _ => .inl rfl) rfl rfl ?_ (fun k hk => ?_)
  · have hempty : (s.setObj p t).obj .emptyThread = s.obj .emptyThread :=
      Function.update_of_ne hne.symm ..
    rw [hempty]
    exact hc.empty_dead
  · have hsame := thread_setObj_of_ne t (hout k hk.1)
    exact ⟨⟨hk.1, hsame ▸ hk.2⟩, by rw [hsame], by rw [hsame]⟩

theorem setObj_fresh (hc : s.Consistent) (hp : s.Fresh p) (t : Thread) : (s.setObj p t).Consistent :=
  hc.setObj_outside hp.ne_empty hp.not_mem t

theorem setObj_fields (hc : s.Consistent) (p : ThreadPtr) (t : Thread)
    (hstate : t.state = (s.obj p).state) (hindex : t.index = (s.obj p).index)
    (htid : t.tid = (s.obj p).tid) : (s.setObj p t).Consistent := by
  have hsame : ∀ q, ((s.setObj p t).obj q).state = (s.obj q).state ∧
      ((s.setObj p t).obj q).index = (s.obj q).index ∧ ((s.setObj p t).obj q).tid = (s.obj q).tid := by
    intro q
    by_cases hq : q = p
    · subst hq
      simp [setObj, hstate, hindex, htid]
    · simp [setObj, hq]
  refine hc.of_same (fun _ _ => .inl rfl) rfl rfl ((hsame _).1.trans hc.empty_dead) (fun k hk => ?_)
  obtain ⟨hs, hi, ht⟩ := hsame (s.threads k)
  exact ⟨⟨hk.1, fun hd => hk.2 (hs.trans hd)⟩, hi, ht⟩

theorem setObj_state (hc : s.Consistent) (hi : s.Live i) (state : ThreadState) :
    (s.setObj (s.threads i) { s.thread i with state := state }).Consistent := by
  refine hc.of_same (fun _ _ => .inl rfl) rfl rfl ?_ (fun k hk => ?_)
  · have hempty : (s.setObj (s.threads i) { s.thread i with state := state }).obj .emptyThread =
        s.obj .emptyThread := Function.update_of_ne (hc.ptr_ne hi).symm ..
    rw [hempty]
    exact hc.empty_dead
  · by_cases hki : s.threads k = s.threads i
    · obtain rfl := hc.ptr_inj k i hk.1 hi.1 hki (hki ▸ hc.ptr_ne hi)
      rw [thread_setObj_self _ rfl]
      exact ⟨hi, rfl, rfl⟩
    · have hsame := thread_setObj_of_ne { s.thread i with state := state } hki
      exact ⟨⟨hk.1, hsame ▸ hk.2⟩, by rw [hsame], by rw [hsame]⟩

theorem clear_slot (hc : s.Consistent) (i : ℕ) :
    Consistent { s with threads := Function.update s.threads i .emptyThread } := by
  let t : Tasks := { s with threads := Function.update s.threads i .emptyThread }
  have hptr : ∀ k, k ≠ i → t.threads k = s.threads k := fun k hk => Function.update_of_ne hk ..
  have hptri : t.threads i = .emptyThread := Function.update_self ..
  have hlive : ∀ k, t.Live k → s.Live k ∧ t.thread k = s.thread k := by
    intro k hk
    have hki : k ≠ i := by
      rintro rfl
      refine hk.2 ?_
      rw [thread, hptri]
      exact hc.empty_dead
    have hsame : t.thread k = s.thread k := by rw [thread, hptr k hki]; rfl
    exact ⟨⟨hk.1, hsame ▸ hk.2⟩, hsame⟩
  refine hc.of_same (t := t) (fun k hk => ?_) rfl rfl hc.empty_dead (fun k hk => ?_)
  · by_cases hki : k = i
    · exact .inr (hki ▸ hptri)
    · exact .inl (hptr k hki)
  · obtain ⟨hl, hsame⟩ := hlive k hk
    exact ⟨hl, by rw [hsame], by rw [hsame]⟩

theorem clear_dict (hc : s.Consistent) (hi : ¬ s.Live i) :
    Consistent { s with tidIndexDict := Function.update s.tidIndexDict i (-1) } := by
  let t : Tasks := { s with tidIndexDict := Function.update s.tidIndexDict i (-1) }
  have hdict : ∀ k, k ≠ i → t.tidIndexDict k = s.tidIndexDict k := fun k hk => Function.update_of_ne hk ..
  have hdicti : t.tidIndexDict i = -1 := Function.update_self ..
  refine ⟨hc.empty_dead, hc.index, fun k hk => ?_, hc.tid_nonneg, hc.tid_zero, fun k hk => ?_, hc.tid_lt,
    fun j k hj hk hjk hpos => ?_, hc.ptr_inj, hc.ptr_ne_null⟩
  · have hki : k ≠ i := by rintro rfl; exact hi hk
    exact (hdict k hki).trans (hc.tid k hk)
  · by_cases hki : k = i
    · rw [hki]
      change t.tidIndexDict i < _
      omega
    · exact (hdict k hki) ▸ hc.dict_lt k hk
  · change t.tidIndexDict j = t.tidIndexDict k at hjk
    change 0 < t.tidIndexDict j at hpos
    have hji : j ≠ i := by rintro rfl; omega
    have hki : k ≠ i := by rintro rfl; omega
    rw [hdict j hji] at hjk hpos
    rw [hdict k hki] at hjk
    exact hc.dict_inj j k hj hk hjk hpos

theorem enter (hc : s.Consistent) (hp : s.Fresh p) {state : ThreadState} {ptid : ℤ}
    (hmin : ∀ k, k < i → s.Live k) (h0 : 0 ≤ s.tidGlobal)
    (hlt : s.tidGlobal + 1 < 2 ^ 31) : (s.enter p state i ptid).Consistent := by
  have hnext : int32 (s.tidGlobal + 1) = s.tidGlobal + 1 := int32_eq (by omega) hlt
  have hself := thread_enter_self s p state i ptid
  have hother : ∀ k, k < threadNum → k ≠ i → (s.enter p state i ptid).thread k = s.thread k :=
    fun k hk hne => thread_enter_other hne (hp.not_mem k hk)
  have hlive : ∀ k, k ≠ i → (s.enter p state i ptid).Live k → s.Live k :=
    fun k hne hk => ⟨hk.1, hother k hk.1 hne ▸ hk.2⟩
  have hdict : ∀ k, k ≠ i → (s.enter p state i ptid).tidIndexDict k = s.tidIndexDict k :=
    fun k hne => Function.update_of_ne hne ..
  have hptr : ∀ k, k ≠ i → (s.enter p state i ptid).threads k = s.threads k :=
    fun k hne => Function.update_of_ne hne ..
  have hdicti : (s.enter p state i ptid).tidIndexDict i = s.tidGlobal := Function.update_self ..
  have hptri : (s.enter p state i ptid).threads i = p := Function.update_self ..
  have hglobal : (s.enter p state i ptid).tidGlobal = s.tidGlobal + 1 := hnext
  refine ⟨?_, fun k hk => ?_, fun k hk => ?_, fun k hk => ?_, fun k hk => ?_, fun k hk => ?_,
    fun k hk => ?_, fun j k hj hk hjk hpos => ?_, fun j k hj hk hjk hne => ?_, fun k hk => ?_⟩
  · have hempty : (s.enter p state i ptid).obj .emptyThread = s.obj .emptyThread :=
      Function.update_of_ne hp.ne_empty.symm ..
    rw [hempty]
    exact hc.empty_dead
  · by_cases hki : k = i
    · rw [hki, hself]
    · rw [hother k hk.1 hki]
      exact hc.index k (hlive k hki hk)
  · by_cases hki : k = i
    · rw [hki, hself, hdicti]
    · rw [hother k hk.1 hki, hdict k hki]
      exact hc.tid k (hlive k hki hk)
  · by_cases hki : k = i
    · rw [hki, hself]
      exact h0
    · rw [hother k hk.1 hki]
      exact hc.tid_nonneg k (hlive k hki hk)
  · by_cases hki : k = i
    · rw [hki, hself]
      intro hz
      -- the first registration finds the first entry free
      by_contra hi0
      have hl := hmin 0 (by omega)
      have := hc.tid_lt 0 hl
      have := hc.tid_nonneg 0 hl
      have : s.tidGlobal = 0 := hz
      omega
    · rw [hother k hk.1 hki]
      exact hc.tid_zero k (hlive k hki hk)
  · rw [hglobal]
    by_cases hki : k = i
    · rw [hki, hdicti]
      omega
    · have := hc.dict_lt k hk
      rw [hdict k hki]
      omega
  · rw [hglobal]
    by_cases hki : k = i
    · rw [hki, hself]
      exact Int.lt_succ _
    · have := hc.tid_lt k (hlive k hki hk)
      rw [hother k hk.1 hki]
      omega
  · by_cases hji : j = i
    · by_cases hki : k = i
      · rw [hji, hki]
      · rw [hji, hdicti] at hpos
        rw [hji, hdicti, hdict k hki] at hjk
        have := hc.dict_lt k hk
        omega
    · rw [hdict j hji] at hpos hjk
      by_cases hki : k = i
      · rw [hki, hdicti] at hjk
        have := hc.dict_lt j hj
        omega
      · rw [hdict k hki] at hjk
        exact hc.dict_inj j k hj hk hjk hpos
  · by_cases hji : j = i
    · by_cases hki : k = i
      · rw [hji, hki]
      · rw [hji, hptri, hptr k hki] at hjk
        exact absurd hjk.symm (hp.not_mem k hk)
    · rw [hptr j hji] at hne hjk
      by_cases hki : k = i
      · rw [hki, hptri] at hjk
        exact absurd hjk (hp.not_mem j hj)
      · rw [hptr k hki] at hjk
        exact hc.ptr_inj j k hj hk hjk hne
  · by_cases hki : k = i
    · rw [hki, hptri]
      exact hp.ne_null
    · rw [hptr k hki]
      exact hc.ptr_ne_null k hk

theorem getThreadPtr_ne_null (hc : s.Consistent) (hi : s.Live i) :
    s.getThreadPtr (s.thread i).tid ≠ .at 0 := by
  rw [hc.getThreadPtr_eq hi]
  exact hc.ptr_ne_null i hi.1

theorem changeState_eq (hc : s.Consistent) (hi : s.Live i) (state : ThreadState) :
    s.changeState (s.thread i).tid state =
      (1, s.setObj (s.threads i) { s.thread i with state := state }) := by
  rw [changeState, hc.getThreadPtr_eq hi, if_neg (hc.ptr_ne_null i hi.1)]
  rfl

theorem init (before : ThreadPtr) (obj : ThreadPtr → Thread) :
    (staticTasks before obj).threadsInit.Consistent := by
  have hdead : ∀ k, ¬ (staticTasks before obj).threadsInit.Live k := by
    rintro k ⟨hk, hl⟩
    exact hl (by simp [thread, threadsInit, staticTasks, hk, emptyThread])
  refine ⟨?_, fun k hk => absurd hk (hdead k), fun k hk => absurd hk (hdead k),
    fun k hk => absurd hk (hdead k), fun k hk => absurd hk (hdead k), fun k _ => ?_,
    fun k hk => absurd hk (hdead k), fun j k _ _ _ hpos => ?_, fun j k hj _ _ hne => ?_, fun k hk => ?_⟩
  · simp [threadsInit, staticTasks, emptyThread]
  · simp only [threadsInit, staticTasks]
    split_ifs <;> omega
  · simp only [threadsInit, staticTasks] at hpos
    split_ifs at hpos <;> omega
  · simp [threadsInit, staticTasks, hj] at hne
  · simp [threadsInit, staticTasks, hk]

theorem register (hc : s.Consistent) (hp : s.Fresh p) {state : ThreadState} {j : ℤ}
    (h0 : 0 ≤ s.tidGlobal) (hlt : s.tidGlobal + 1 < 2 ^ 31) (hfree : s.findDead ≠ none)
    (h : Tasks.register state s p = some (j, t)) :
    t.Consistent ∧ t.tidGlobal = s.tidGlobal + 1 ∧ ∀ k, s.Live k → t.threads k = s.threads k := by
  rcases s.findDead_cases with ⟨hnone, -⟩ | ⟨i, hi, -, hdead, hmin⟩
  · exact absurd hnone hfree
  · simp only [Tasks.register, hi, Option.map_eq_some_iff, Prod.mk.injEq] at h
    obtain ⟨ptid, -, -, rfl⟩ := h
    refine ⟨hc.enter hp hmin h0 hlt, int32_eq (by omega) hlt, fun k hk => ?_⟩
    refine Function.update_of_ne ?_ ..
    rintro rfl
    exact hk.2 hdead

theorem unregister (hc : s.Consistent) (hi : s.Live i) (h : s.unregister (s.threads i) = some t) :
    t.Consistent ∧ t.tidGlobal = s.tidGlobal := by
  have hindex : (s.obj (s.threads i)).index = i := hc.index i hi
  have hin : (0 : ℤ) ≤ i ∧ (i : ℤ) < threadNum := ⟨by omega, by exact_mod_cast hi.1⟩
  have hclear : ∀ (t : Thread) (c : ℤ), (clearCtid t c).2.state = t.state ∧
      (clearCtid t c).2.index = t.index ∧ (clearCtid t c).2.tid = t.tid := by
    intro t c
    unfold clearCtid
    split_ifs
    · exact ⟨rfl, rfl, rfl⟩
    · split <;> exact ⟨rfl, rfl, rfl⟩
  simp only [Tasks.unregister, hindex, if_pos hin, Int.toNat_natCast, Option.some.injEq] at h
  have hslot := hc.clear_slot i
  generalize hs' : { s with threads := Function.update s.threads i .emptyThread } = s' at h hslot
  have hgone : s'.threads i = .emptyThread := by
    rw [← hs']
    exact Function.update_self ..
  have hobj : s'.obj = s.obj := by rw [← hs']
  obtain ⟨hstate, hindex', htid⟩ := hclear (s'.obj (s'.getThreadPtr (s.obj (s.threads i)).ptid))
    (s.obj (s.threads i)).tid
  have hparent := hslot.setObj_fields _ _ hstate hindex' htid
  rw [hobj] at hparent
  subst h
  refine ⟨hparent.clear_dict (i := i) (fun hl => hl.2 ?_), by rw [← hs']; rfl⟩
  exact (congrArg (fun q => Thread.state (Tasks.obj _ q)) hgone).trans hparent.empty_dead

end Consistent

end Tasks

end MinOS
