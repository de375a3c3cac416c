import MinOS.ThreadTableInvariant

namespace MinOS

namespace Tasks

def waiting (s : Tasks) : List ℤ :=
  ((List.range threadNum).filter (fun i => decide ((s.thread i).state = .wait))).map
    (fun i => (s.thread i).tid)

def setState (s : Tasks) (i : ℕ) (state : ThreadState) : Tasks :=
  s.setObj (s.threads i) { s.thread i with state := state }

def Running (s : Tasks) (c : ℕ) : Prop :=
  s.curThreadIndex = c ∧ c < threadNum ∧ (s.thread c).state = .runnable

variable {s t : Tasks} {i k c : ℕ} {tid : ℤ} {p : ThreadPtr}

theorem mem_waiting : tid ∈ s.waiting ↔
    ∃ i, i < threadNum ∧ (s.thread i).state = .wait ∧ (s.thread i).tid = tid := by
  simp [waiting, and_assoc]

namespace Running

theorem live (h : s.Running c) : s.Live c := ⟨h.2.1, by rw [h.2.2]; decide⟩

theorem getCurThreadTid (h : s.Running c) (hc : s.Consistent) :
    s.getCurThreadTid = some (s.thread c).tid :=
  hc.getCurThreadTid_eq h.1 h.live

theorem not_waiting (h : s.Running c) (hc : s.Consistent) : (s.thread c).tid ∉ s.waiting := by
  intro hw
  obtain ⟨i, hi, hstate, htid⟩ := mem_waiting.mp hw
  obtain rfl := hc.tid_inj ⟨hi, by rw [hstate]; decide⟩ h.live htid
  rw [h.2.2] at hstate
  cases hstate

end Running

theorem thread_setState_self (s : Tasks) (i : ℕ) (state : ThreadState) :
    (s.setState i state).thread i = { s.thread i with state := state } :=
  thread_setObj_self _ rfl

namespace Consistent

theorem thread_setState_other (hc : s.Consistent) (hi : s.Live i) (hk : k < threadNum)
    (hne : k ≠ i) (state : ThreadState) : (s.setState i state).thread k = s.thread k := by
  apply thread_setObj_of_ne
  intro he
  exact hne (hc.ptr_inj k i hk hi.1 he (he ▸ hc.ptr_ne hi))

theorem mem_waiting_block (hc : s.Consistent) (hi : s.Live i) :
    tid ∈ (s.setState i .wait).waiting ↔ tid = (s.thread i).tid ∨ tid ∈ s.waiting := by
  simp only [mem_waiting]
  constructor
  · rintro ⟨k, hk, hstate, rfl⟩
    by_cases hki : k = i
    · subst hki
      rw [thread_setState_self]
      exact .inl rfl
    · rw [hc.thread_setState_other hi hk hki] at hstate ⊢
      exact .inr ⟨k, hk, hstate, rfl⟩
  · rintro (rfl | ⟨k, hk, hstate, rfl⟩)
    · exact ⟨i, hi.1, by rw [thread_setState_self], by rw [thread_setState_self]⟩
    · by_cases hki : k = i
      · subst hki
        exact ⟨k, hk, by rw [thread_setState_self], by rw [thread_setState_self]⟩
      · have hsame := hc.thread_setState_other hi hk hki .wait
        exact ⟨k, hk, by rw [hsame]; exact hstate, by rw [hsame]⟩

theorem mem_waiting_wake (hc : s.Consistent) (hi : s.Live i) :
    tid ∈ (s.setState i .runnable).waiting ↔ tid ∈ s.waiting ∧ tid ≠ (s.thread i).tid := by
  simp only [mem_waiting]
  constructor
  · rintro ⟨k, hk, hstate, rfl⟩
    by_cases hki : k = i
    · subst hki
      rw [thread_setState_self] at hstate
      cases hstate
    · rw [hc.thread_setState_other hi hk hki] at hstate ⊢
      refine ⟨⟨k, hk, hstate, rfl⟩, fun he => hki ?_⟩
      exact hc.tid_inj ⟨hk, by rw [hstate]; decide⟩ hi he
  · rintro ⟨⟨k, hk, hstate, rfl⟩, hne⟩
    have hki : k ≠ i := by
      rintro rfl
      exact hne rfl
    have hsame := hc.thread_setState_other hi hk hki .runnable
    exact ⟨k, hk, by rw [hsame]; exact hstate, by rw [hsame]⟩

theorem live_setState (hc : s.Consistent) (hi : s.Live i) {state : ThreadState}
    (hstate : state ≠ .dead) : (s.setState i state).Live k ↔ s.Live k := by
  by_cases hk : k < threadNum
  · by_cases hki : k = i
    · subst hki
      simp [Live, thread_setState_self, hstate, hi.2, hk]
    · simp [Live, hc.thread_setState_other hi hk hki]
  · simp [Live, hk]

theorem schedule (hc : s.Consistent) (cur : ℤ) : Consistent { s with curThreadIndex := cur } :=
  hc.of_same (fun _ _ => .inl rfl) rfl rfl hc.empty_dead (fun _ hk => ⟨hk, rfl, rfl⟩)

end Consistent

theorem threadRun_cases {ptid : ℤ} (hout : ∀ k, k < threadNum → s.threads k ≠ p)
    (hcur : s.getCurThreadTid = some ptid) (content : Thread) :
    (∀ k, k < threadNum → s.Live k) ∧
        (s.setObj p content).threadRun p = some (s.setObj p content) ∨
      ∃ i, i < threadNum ∧ ¬ s.Live i ∧ (∀ k, k < i → s.Live k) ∧ (s.setObj p content).threadRun p =
        some ((s.setObj p content).enter p .runnable i ptid) := by
  have hlive : ∀ k, k < threadNum → ((s.setObj p content).Live k ↔ s.Live k) := by
    intro k hk
    simp only [Live, thread_setObj_of_ne content (hout k hk)]
  have hcur' : (s.setObj p content).getCurThreadTid = some ptid := hcur
  rcases (s.setObj p content).findDead_cases with ⟨hnone, hall⟩ | ⟨i, hi, hlt, hdead, hmin⟩
  · refine .inl ⟨fun k hk => (hlive k hk).mp (hall k hk), ?_⟩
    simp only [Tasks.threadRun, Tasks.register, hnone, Option.map_some]
  · refine .inr ⟨i, hlt, fun hl => ?_, fun k hk => (hlive k (by omega)).mp (hmin k hk), ?_⟩
    · exact ((hlive i hlt).mpr hl).2 hdead
    · simp only [Tasks.threadRun, Tasks.register, hi, hcur', Option.map_some]

theorem enter_live {ptid : ℤ} (hout : ∀ k, k < threadNum → s.threads k ≠ p) (hi : i < threadNum)
    (content : Thread) : ((s.setObj p content).enter p .runnable i ptid).Live k ↔ k = i ∨ s.Live k := by
  by_cases hki : k = i
  · subst hki
    simp [Live, thread_enter_self, hi]
  · by_cases hk : k < threadNum
    · have hsame : ((s.setObj p content).enter p .runnable i ptid).thread k = s.thread k :=
        (thread_enter_other (s := s.setObj p content) hki (hout k hk)).trans
          (thread_setObj_of_ne content (hout k hk))
      simp [Live, hsame, hki]
    · simp [Live, hk, hki]

theorem threadScheduler_running (hcur : s.curThreadIndex = c) (h : s.threadScheduler = some t) :
    ∃ i : ℕ, t = { s with curThreadIndex := i } ∧ t.Running i := by
  rcases nextThread_cases (s := s) (by omega) with ⟨hnone, -⟩ | ⟨i, hnext, hi, hstate⟩
  · rw [threadScheduler, hnone] at h
    cases h
  · rw [threadScheduler, hnext, Option.map_some] at h
    obtain rfl := Option.some.inj h
    exact ⟨i, rfl, rfl, hi, hstate⟩

theorem exists_threadScheduler (hcur : s.curThreadIndex = c) (hi : i < threadNum)
    (hstate : (s.thread i).state = .runnable) : ∃ t, s.threadScheduler = some t := by
  rcases nextThread_cases (s := s) (by omega) with ⟨-, hno⟩ | ⟨k, hnext, -⟩
  · exact absurd hstate (hno i hi)
  · exact ⟨_, by rw [threadScheduler, hnext, Option.map_some]⟩

end Tasks

end MinOS
