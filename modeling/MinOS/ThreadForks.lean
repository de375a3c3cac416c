import MinOS.ThreadStates
import MinOS.Threads

namespace MinOS

open Library.Integers

namespace Tasks

variable {s t : Tasks} {c i k : ℕ} {p : ThreadPtr} {content : Thread} {stack threadExec : ℕ}

/-- The thread in entry `c` runs in the frame that `thread_exec` has on the stack of the thread in
entry `i`. `switch_fork` hands `rbp` on as it is, so a forked thread, and every thread forked by it,
returns into the frames of the thread that `create_thread` has made: `root` gives the tid of that
thread. -/
def Houses (s : Tasks) (root : ℤ → ℤ) (i c : ℕ) : Prop :=
  s.Live i ∧ (s.thread i).tid = root (s.thread c).tid

def EndsAt (s : Tasks) (i : ℕ) (t : Tasks) : Prop := s.Live i ∧ s.unregister (s.threads i) = some t

/-- The thread in entry `c` ends: `thread_exec` hands `thread_end` the structure that its frame
names, that of the thread in entry `i`. -/
def Exits (s : Tasks) (root : ℤ → ℤ) (i c : ℕ) (t : Tasks) : Prop := s.Houses root i c ∧ s.EndsAt i t

theorem Consistent.houses_unique (hc : s.Consistent) {root : ℤ → ℤ} (hi : s.Houses root i c)
    (hk : s.Houses root k c) : i = k :=
  hc.tid_inj hi.1 hk.1 (hi.2.trans hk.2.symm)

structure Added (s t : Tasks) (p : ThreadPtr) (i : ℕ) (new : Thread) : Prop where
  consistent : t.Consistent
  tidGlobal : t.tidGlobal = s.tidGlobal + 1
  cur : t.curThreadIndex = s.curThreadIndex
  lt : i < threadNum
  dead : ¬ s.Live i
  threads : t.threads = Function.update s.threads i p
  live : ∀ k, t.Live k ↔ k = i ∨ s.Live k
  new : t.thread i = new
  other : ∀ k, s.Live k → t.thread k = s.thread k

theorem threadRun_added {ptid : ℤ} (hc : s.Consistent) (hcur : s.getCurThreadTid = some ptid)
    (hp : s.Fresh p) (h0 : 0 ≤ s.tidGlobal) (hlt : s.tidGlobal + 1 < 2 ^ 31)
    (h : (s.setObj p content).threadRun p = some t) : t = s.setObj p content ∨ ∃ i, Added s t p i
      { content with state := .runnable, index := i, ptid := ptid, tid := s.tidGlobal } := by
  rcases threadRun_cases hp.not_mem hcur content with ⟨-, hrun⟩ | ⟨i, hi, hdead, hmin, hrun⟩
  · exact .inl (Option.some.inj (h.symm.trans hrun))
  · obtain rfl := Option.some.inj (h.symm.trans hrun)
    have hglobal : int32 (s.tidGlobal + 1) = s.tidGlobal + 1 := int32_eq (by omega) hlt
    refine .inr ⟨i, ?_, hglobal, rfl, hi, hdead, rfl, fun k => enter_live hp.not_mem hi content, ?_,
      fun k hk => ?_⟩
    · exact (hc.setObj_fresh hp content).enter (hp.setObj content)
        (fun k hk => hp.live_setObj content (hmin k hk)) h0 hlt
    · rw [thread_enter_self]
      simp [setObj]
    · have hki : k ≠ i := by
        rintro rfl
        exact hdead hk
      exact (thread_enter_other (s := s.setObj p content) hki (hp.not_mem k hk.1)).trans
        (thread_setObj_of_ne content (hp.not_mem k hk.1))

def childThread (s : Tasks) (c i stack threadExec : ℕ) (content : Thread) : Thread :=
  { content with
    stack := stack
    stackBtm := stack + stackLength
    rsp := stack + stackLength
    rip := threadExec
    funcInfo := (s.thread c).funcInfo
    state := .runnable
    tid := s.tidGlobal
    ptid := (s.thread c).tid
    ctid := fun _ => -1
    index := i
    sidPtr := (s.thread c).sidPtr
    pstruct := (s.thread c).pstruct }

structure Forked (s t : Tasks) (p : ThreadPtr) (c i : ℕ) (child : Thread) : Prop where
  consistent : t.Consistent
  tidGlobal : t.tidGlobal = s.tidGlobal + 1
  cur : t.curThreadIndex = i
  lt : i < threadNum
  dead : ¬ s.Live i
  threads : t.threads = Function.update s.threads i p
  live : ∀ k, t.Live k ↔ k = i ∨ s.Live k
  child : t.thread i = child
  parent : t.thread c = (setCtid (s.thread c) s.tidGlobal).2
  other : ∀ k, s.Live k → k ≠ c → t.thread k = s.thread k

theorem setCtid_fields (t : Thread) (tid : ℤ) : (setCtid t tid).2.state = t.state ∧
    (setCtid t tid).2.index = t.index ∧ (setCtid t tid).2.tid = t.tid ∧
    (setCtid t tid).2.stack = t.stack ∧ (setCtid t tid).2.sidPtr = t.sidPtr ∧
    (setCtid t tid).2.pstruct = t.pstruct := by
  unfold setCtid
  split_ifs
  · simp
  · split <;> simp

theorem clearCtid_fields (t : Thread) (tid : ℤ) : (clearCtid t tid).2.state = t.state ∧
    (clearCtid t tid).2.index = t.index ∧ (clearCtid t tid).2.tid = t.tid ∧
    (clearCtid t tid).2.stack = t.stack ∧ (clearCtid t tid).2.sidPtr = t.sidPtr ∧
    (clearCtid t tid).2.pstruct = t.pstruct := by
  unfold clearCtid
  split_ifs
  · simp
  · split <;> simp

theorem exists_findDead (hp : s.Fresh p) (hfree : ∃ k, k < threadNum ∧ ¬ s.Live k) :
    ∃ i, (∀ x, (s.setObj p x).findDead = some i) ∧ i < threadNum ∧ ¬ s.Live i ∧
      ∀ k, k < i → s.Live k := by
  rcases s.findDead_cases with ⟨-, hall⟩ | ⟨i, hi, hlt, hdead, hmin⟩
  · obtain ⟨k, hk, hd⟩ := hfree
    exact absurd (hall k hk) hd
  · exact ⟨i, fun x => (findDead_setObj hp x).trans hi, hlt, fun hl => hl.2 hdead, hmin⟩

theorem forkThread_forked (hc : s.Consistent) (hcur : s.curThreadIndex = c) (hl : s.Live c)
    (hp : s.Fresh p) (hfree : ∃ k, k < threadNum ∧ ¬ s.Live k) (h0 : 0 ≤ s.tidGlobal)
    (hlt : s.tidGlobal + 1 < 2 ^ 31) (h : (s.setObj p content).forkThread p stack threadExec = some t) :
    ∃ i, Forked s t p c i (s.childThread c i stack threadExec content) := by
  have hptr : s.threads c ≠ p := hp.not_mem c hl.1
  have htid : ∀ x, (s.setObj p x).getCurThreadTid = some (s.thread c).tid := by
    intro x
    have hdict : (s.setObj p x).getCurThreadTid = s.getCurThreadTid := rfl
    rw [hdict, hc.getCurThreadTid_eq hcur hl]
  have hget : (s.setObj p content).getThreadPtr (s.thread c).tid = s.threads c := hc.getThreadPtr_eq hl
  obtain ⟨i, hi, hlt', hdead, hmin⟩ := exists_findDead hp hfree
  -- the child before it is registered
  let x : Thread := { content with
    stack := stack
    stackBtm := stack + stackLength
    rsp := stack + stackLength
    rip := threadExec
    funcInfo := (s.thread c).funcInfo
    sidPtr := (s.thread c).sidPtr
    pstruct := (s.thread c).pstruct
    ctid := fun _ => -1 }
  have hgen : (s.setObj p content).threadGenForFork p (s.threads c) stack threadExec = s.setObj p x := by
    have hself : (s.setObj p content).obj p = content := Function.update_self ..
    have hparent : (s.setObj p content).obj (s.threads c) = s.thread c := thread_setObj_of_ne _ hptr
    simp only [threadGenForFork, hself, hparent, x]
    simp only [setObj, Function.update_idem]
  let u := (s.setObj p x).enter p .sleep i (s.thread c).tid
  let v := u.setObj (s.threads c) (setCtid (s.thread c) s.tidGlobal).2
  have hreg : (s.setObj p x).threadRegister p = some ((i : ℤ), u) := by
    simp only [threadRegister, register, hi x, htid, Option.map_some, u]
  have hup : u.obj p =
      { x with state := .sleep, index := i, ptid := (s.thread c).tid, tid := s.tidGlobal } := by
    simp [u, enter, setObj]
  have huc : u.obj (s.threads c) = s.thread c := by
    simp [u, enter, setObj, hptr, thread]
  have hvp : v.obj p = u.obj p := Function.update_of_ne hptr.symm ..
  obtain rfl : t = { v.setObj p { v.obj p with state := .runnable } with curThreadIndex := i } := by
    simp only [forkThread, htid, Option.bind_eq_bind, Option.bind_some, hget, hgen, hreg, hup, huc] at h
    exact (Option.some.inj h).symm
  have hu : u.Consistent := (hc.setObj_fresh hp x).enter (hp.setObj x)
    (fun k hk => hp.live_setObj x (hmin k hk)) h0 hlt
  obtain ⟨hstate, hindex, htid', -⟩ := setCtid_fields (s.thread c) s.tidGlobal
  have hv : v.Consistent := hu.setObj_fields (s.threads c) _ (by rw [huc]; exact hstate)
    (by rw [huc]; exact hindex) (by rw [huc]; exact htid')
  have hpi : v.threads i = p := Function.update_self ..
  have hvi : v.Live i := by
    refine ⟨hlt', ?_⟩
    rw [thread, hpi, hvp, hup]
    simp
  have hci : c ≠ i := by
    rintro rfl
    exact hdead hl
  let w : Tasks := { v.setObj p { v.obj p with state := .runnable } with curThreadIndex := i }
  have hwi : w.thread i = s.childThread c i stack threadExec content := by
    have hself : w.thread i = { v.obj p with state := .runnable } := by
      change (Function.update v.obj p _) (v.threads i) = _
      rw [hpi, Function.update_self]
    rw [hself, hvp, hup]
    rfl
  have hold : ∀ k, k < threadNum → k ≠ i → w.thread k = v.obj (s.threads k) := by
    intro k hk hki
    have hthread : w.threads k = s.threads k := Function.update_of_ne hki ..
    rw [thread, hthread]
    exact Function.update_of_ne (hp.not_mem k hk) ..
  have hwc : w.thread c = (setCtid (s.thread c) s.tidGlobal).2 := by
    rw [hold c hl.1 hci]
    exact Function.update_self ..
  have hother : ∀ k, k < threadNum → k ≠ i → s.threads k ≠ s.threads c → w.thread k = s.thread k := by
    intro k hk hki hne
    have hvk : v.obj (s.threads k) = u.obj (s.threads k) := Function.update_of_ne hne ..
    rw [hold k hk hki, hvk]
    simp [u, enter, setObj, hp.not_mem k hk, thread]
  have hglobal : int32 (s.tidGlobal + 1) = s.tidGlobal + 1 := int32_eq (by omega) hlt
  refine ⟨i, ?_, hglobal, rfl, hlt', hdead, rfl, fun k => ?_, hwi, hwc, fun k hk hne => ?_⟩
  · have hset := (hv.setObj_state hvi .runnable).schedule i
    rw [thread, hpi] at hset
    exact hset
  · by_cases hk : k < threadNum
    · by_cases hki : k = i
      · subst hki
        simp only [true_or, iff_true]
        exact ⟨hk, by rw [hwi]; simp [childThread]⟩
      · by_cases hkc : s.threads k = s.threads c
        · have hsame : (w.thread k).state = (s.thread k).state := by
            rw [hold k hk hki, hkc, thread, hkc]
            exact (congrArg Thread.state (Function.update_self ..)).trans hstate
          simp only [hki, false_or]
          exact ⟨fun h => ⟨hk, hsame ▸ h.2⟩, fun h => ⟨hk, hsame.symm ▸ h.2⟩⟩
        · have hsame := hother k hk hki hkc
          simp only [hki, false_or]
          exact ⟨fun h => ⟨hk, hsame ▸ h.2⟩, fun h => ⟨hk, hsame.symm ▸ h.2⟩⟩
    · exact ⟨fun h => absurd h.1 hk, fun h => h.elim (fun he => absurd (he ▸ hlt') hk) (fun h => absurd h.1 hk)⟩
  · have hki : k ≠ i := by
      rintro rfl
      exact hdead hk
    exact hother k hk.1 hki (fun he => hne (hc.ptr_inj k c hk.1 hl.1 he (hc.ptr_ne hk)))

structure Ended (s t : Tasks) (i : ℕ) : Prop where
  consistent : t.Consistent
  tidGlobal : t.tidGlobal = s.tidGlobal
  cur : t.curThreadIndex = s.curThreadIndex
  threads : t.threads = Function.update s.threads i .emptyThread
  live : ∀ k, t.Live k ↔ s.Live k ∧ k ≠ i
  obj : ∀ q, t.obj q = s.obj q ∨ t.obj q = (clearCtid (s.obj q) (s.thread i).tid).2

namespace Ended

theorem thread (h : Ended s t i) (hk : k ≠ i) : t.thread k = s.thread k ∨
    t.thread k = (clearCtid (s.thread k) (s.thread i).tid).2 := by
  have hptr : t.threads k = s.threads k := by
    rw [h.threads]
    exact Function.update_of_ne hk ..
  rw [Tasks.thread, hptr]
  exact h.obj (s.threads k)

theorem tid (h : Ended s t i) (hk : k ≠ i) : (t.thread k).tid = (s.thread k).tid := by
  rcases h.thread hk with he | he
  · rw [he]
  · rw [he]
    exact (clearCtid_fields ..).2.2.1

end Ended

theorem EndsAt.ended (hend : s.EndsAt i t) (hc : s.Consistent) : Ended s t i := by
  obtain ⟨hi, h⟩ := hend
  obtain ⟨ht, hglobal⟩ := hc.unregister hi h
  have hindex : (s.obj (s.threads i)).index = i := hc.index i hi
  have hin : (0 : ℤ) ≤ i ∧ (i : ℤ) < threadNum := ⟨by omega, by exact_mod_cast hi.1⟩
  simp only [unregister, hindex, if_pos hin, Int.toNat_natCast, Option.some.injEq] at h
  generalize hs' : { s with threads := Function.update s.threads i .emptyThread } = s' at h
  have hobj' : s'.obj = s.obj := by rw [← hs']
  have hthreads' : s'.threads = Function.update s.threads i .emptyThread := by rw [← hs']
  have hobj : ∀ q, t.obj q = s.obj q ∨ t.obj q = (clearCtid (s.obj q) (s.thread i).tid).2 := by
    intro q
    have hupdate : t.obj = Function.update s.obj (s'.getThreadPtr (s.obj (s.threads i)).ptid)
        (clearCtid (s.obj (s'.getThreadPtr (s.obj (s.threads i)).ptid)) (s.thread i).tid).2 := by
      rw [← h]
      simp only [setObj, hobj', Tasks.thread]
    by_cases hq : q = s'.getThreadPtr (s.obj (s.threads i)).ptid
    · rw [hupdate, hq]
      exact .inr (Function.update_self ..)
    · rw [hupdate]
      exact .inl (Function.update_of_ne hq ..)
  have hthreads : t.threads = Function.update s.threads i .emptyThread := by
    rw [← hthreads', ← h]
    rfl
  have hcur : t.curThreadIndex = s.curThreadIndex := by
    rw [← h, ← hs']
    rfl
  refine ⟨ht, hglobal, hcur, hthreads, fun k => ?_, hobj⟩
  by_cases hki : k = i
  · subst hki
    have hgone : t.threads k = .emptyThread := by
      rw [hthreads]
      exact Function.update_self ..
    simp only [ne_eq, not_true_eq_false, and_false, iff_false]
    exact fun hl => hl.2 (by rw [Tasks.thread, hgone]; exact ht.empty_dead)
  · have hstate : (t.thread k).state = (s.thread k).state := by
      have hptr : t.threads k = s.threads k := by
        rw [hthreads]
        exact Function.update_of_ne hki ..
      rw [Tasks.thread, hptr]
      rcases hobj (s.threads k) with he | he
      · rw [he]
        rfl
      · rw [he]
        exact (clearCtid_fields ..).1
    simp only [Live, hstate, ne_eq, hki, not_false_eq_true, and_true]

end Tasks

end MinOS
