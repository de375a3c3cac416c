import MinOS.Boot
import MinOS.CreationStatements
import MinOS.InterruptFlag
import MinOS.Releases

namespace MinOS

open Library.Integers Library.Interleavings Library.Programs Library.Runs

structure Kernel.Housed (k : Kernel) : Prop where
  table : k.tasks.Consistent
  vacant : ∀ i, i < threadNum → ¬ k.tasks.Live i → k.tasks.threads i = .emptyThread
  heap : ∃ free live, WellFormed k.heap free live ∧
    ∀ i t, i < threadNum → k.tasks.threads i = .at t → Held live t

def Tasks.vacancies (s : Tasks) : ℕ :=
  ∑ i ∈ Finset.range threadNum, if s.threads i = .emptyThread then 1 else 0

/-- What an execution has brought about: the live blocks of the heap, the structures that have got a
tid, in the order of their tids, and the thread that has read `tid_global` without increasing it. -/
structure Ledger where
  live : List Block
  order : List ℕ
  reader : Option ℕ

structure Unlisted (s : Tasks) (live : List Block) (t : ℕ) : Prop where
  held : Held live t
  not_mem : ∀ i, i < threadNum → s.threads i ≠ .at t

structure Entered (s : Tasks) (t i : ℕ) : Prop where
  lt : i < threadNum
  ptr : s.threads i = .at t

structure Tasks.Registered (s : Tasks) (order : List ℕ) (t i : ℕ) : Prop extends Entered s t i where
  index : (s.obj (.at t)).index = i
  mem : t ∈ order
  dict : s.tidIndexDict i = (s.obj (.at t)).tid

namespace CreatePoint

def pending : CreatePoint → ℕ
  | ioCli _ | alloc _ | gen _ _ | test _ _ | runCli _ _ | setThread _ _ => 1
  | _ => 0

def Quiet : CreatePoint → Prop
  | alloc _ | gen _ _ | setThread _ _ | setState _ _ | setIndex _ _ | setPtid _ _ => True
  | _ => False

def At (s : Tasks) (g : Ledger) : CreatePoint → Prop
  | idle | ioCli _ | alloc _ => True
  | gen _ t => Unlisted s g.live t
  | test t i => Unlisted s g.live t ∧ ∀ k, k < i → s.threads k ≠ .emptyThread
  | runCli t i | setThread t i => Unlisted s g.live t ∧ i < threadNum
  | setState t i | setIndex t i => Entered s t i ∧ t ∉ g.order
  | setPtid t i | setTid t i => Entered s t i ∧ t ∉ g.order ∧ (s.obj (.at t)).index = i
  | setDict t i => Entered s t i ∧ t ∈ g.order ∧ (s.obj (.at t)).index = i
  | incGlobal t i | runSti t i | put t i _ => s.Registered g.order t i
  | CreatePoint.ioSti t | ret t => ∃ i, s.Registered g.order t i

end CreatePoint

structure Sound (first : ℤ) (k : Kernel) (g : Ledger) : Prop where
  cur : ∃ c : ℕ, c < threadNum ∧ k.tasks.curThreadIndex = c
  empty_dead : (k.tasks.obj .emptyThread).state = .dead
  inj : ∀ i j, i < threadNum → j < threadNum → k.tasks.threads i = k.tasks.threads j →
    k.tasks.threads i ≠ .emptyThread → i = j
  heap : ∃ free, WellFormed k.heap free g.live
  held : ∀ i t, i < threadNum → k.tasks.threads i = .at t → Held g.live t
  nodup : g.order.Nodup
  entered : ∀ t ∈ g.order, ∃ i, i < threadNum ∧ k.tasks.threads i = .at t
  tid : ∀ n (h : n < g.order.length), (k.tasks.obj (.at g.order[n])).tid % 2 ^ 32 = (first + n) % 2 ^ 32
  global : k.tasks.tidGlobal % 2 ^ 32 =
    (first + g.order.length - if g.reader = none then 0 else 1) % 2 ^ 32

structure Creation.Inv (first : ℤ) (n : ℕ) (g : Ledger) (s : Creation) : Prop where
  sound : Sound first s.config.state.kernel g
  beyond : ∀ j, threadNum ≤ j → s.config.points j = .idle
  points : ∀ j, (s.config.points j).At s.config.state.kernel.tasks g
  apart : ∀ i j t, (s.config.points i).addr = some t → (s.config.points j).addr = some t → i = j
  reads : ∀ j, (s.config.points j).ReadsTid ↔ g.reader = some j
  quiet : ∀ j, (s.config.points j).Quiet → s.config.state.intr = false ∧ s.config.state.current = j
  occupied : ∀ i, i < threadNum → s.config.state.kernel.tasks.threads i ≠ .emptyThread →
    (s.config.state.thread i).state = .dead → ∃ j t, s.config.points j = .setState t i
  returned : ∀ r ∈ s.returns, ∃ i, s.config.state.kernel.tasks.Registered g.order r.thread i ∧
    (s.config.state.kernel.tasks.obj (.at r.thread)).tid = r.tid
  left : ∀ r ∈ s.returns, ∀ j, (s.config.points j).addr ≠ some r.thread
  nodup : (s.returns.map CreateReturn.thread).Nodup
  room : ∑ j ∈ Finset.range threadNum, (s.config.points j).pending + n ≤
    s.config.state.kernel.tasks.vacancies

structure Extends (own : Option ℕ) (s : Tasks) (g : Ledger) (s' : Tasks) (g' : Ledger) : Prop where
  threads : ∀ i, s'.threads i = s.threads i ∨
    s.threads i = .emptyThread ∧ ∃ t, own = some t ∧ s'.threads i = .at t
  obj : ∀ t, own ≠ some t → s'.obj (.at t) = s.obj (.at t)
  dict : ∀ i t, s.threads i = .at t → own ≠ some t → s'.tidIndexDict i = s.tidIndexDict i
  live : ∀ t, Held g.live t → Held g'.live t
  order : ∀ t, own ≠ some t → (t ∈ g'.order ↔ t ∈ g.order)

section Creation

variable {k k' : Kernel} {s s' : Tasks} {g g' : Ledger} {own : Option ℕ} {t i c n : ℕ} {first : ℤ}
  {q : CreatePoint}

namespace Extends

theorem of_same (own : Option ℕ) (hthreads : s'.threads = s.threads) (hobj : s'.obj = s.obj)
    (hdict : s'.tidIndexDict = s.tidIndexDict) (hlive : ∀ t, Held g.live t → Held g'.live t)
    (horder : g'.order = g.order) : Extends own s g s' g' := by
  constructor
  · intro i
    exact .inl (by rw [hthreads])
  · intro t _
    rw [hobj]
  · intro i t _ _
    rw [hdict]
  · exact hlive
  · intro t _
    rw [horder]

variable (h : Extends own s g s' g')
include h

theorem unlisted (hp : Unlisted s g.live t) (hne : own ≠ some t) : Unlisted s' g'.live t := by
  constructor
  · exact h.live t hp.held
  · intro i hi
    rcases h.threads i with he | ⟨-, u, hu, he⟩
    · rw [he]
      exact hp.not_mem i hi
    · rw [he]
      rintro ⟨⟩
      exact hne hu

theorem entry (he : s.threads i = .at t) : s'.threads i = .at t := by
  rcases h.threads i with hsame | ⟨hempty, -⟩
  · rw [hsame, he]
  · rw [hempty] at he
    cases he

theorem entered (he : Entered s t i) : Entered s' t i := ⟨he.lt, h.entry he.ptr⟩

theorem registered (hr : s.Registered g.order t i) (hne : own ≠ some t) :
    s'.Registered g'.order t i := by
  constructor
  · exact h.entered hr.toEntered
  · rw [h.obj t hne]
    exact hr.index
  · rw [h.order t hne]
    exact hr.mem
  · rw [h.dict i t hr.ptr hne, h.obj t hne]
    exact hr.dict

theorem used (hi : s.threads i ≠ .emptyThread) : s'.threads i ≠ .emptyThread := by
  rcases h.threads i with hsame | ⟨hempty, -⟩
  · rw [hsame]
    exact hi
  · exact absurd hempty hi

theorem kept (hq : q.At s g) (hne : ∀ t, own = some t → q.addr ≠ some t) : q.At s' g' := by
  have hown : ∀ {t}, q.addr = some t → own ≠ some t := fun ht ho => hne _ ho ht
  cases q with
  | idle | ioCli _ | alloc _ => trivial
  | gen _ t => exact h.unlisted hq (hown rfl)
  | test t i => exact ⟨h.unlisted hq.1 (hown rfl), fun k hk => h.used (hq.2 k hk)⟩
  | runCli t i | setThread t i => exact ⟨h.unlisted hq.1 (hown rfl), hq.2⟩
  | setState t i | setIndex t i => exact ⟨h.entered hq.1, (h.order t (hown rfl)).not.mpr hq.2⟩
  | setPtid t i | setTid t i =>
    refine ⟨h.entered hq.1, (h.order t (hown rfl)).not.mpr hq.2.1, ?_⟩
    rw [h.obj t (hown rfl)]
    exact hq.2.2
  | setDict t i =>
    refine ⟨h.entered hq.1, (h.order t (hown rfl)).mpr hq.2.1, ?_⟩
    rw [h.obj t (hown rfl)]
    exact hq.2.2
  | incGlobal t i | runSti t i | put t i _ => exact h.registered hq (hown rfl)
  | ioSti t | ret t =>
    obtain ⟨i, hr⟩ := hq
    exact ⟨i, h.registered hr (hown rfl)⟩

end Extends

namespace Extends

theorem setObj (t : ℕ) (x : Thread) : Extends (some t) s g (s.setObj (.at t) x) g := by
  constructor
  · exact fun _ => .inl rfl
  · intro u hu
    apply Function.update_of_ne
    rintro ⟨⟩
    exact hu rfl
  · exact fun _ _ _ _ => rfl
  · exact fun _ hu => hu
  · exact fun _ _ => Iff.rfl

theorem setThread (hi : s.threads i = .emptyThread) : Extends (some t) s g
    { s with threads := Function.update s.threads i (.at t) } g := by
  constructor
  · intro k
    by_cases hk : k = i
    · subst hk
      exact .inr ⟨hi, t, rfl, Function.update_self ..⟩
    · exact .inl (Function.update_of_ne hk ..)
  · exact fun _ _ => rfl
  · exact fun _ _ _ _ => rfl
  · exact fun _ hu => hu
  · exact fun _ _ => Iff.rfl

theorem setDict (hi : s.threads i = .at t) (tid : ℤ) : Extends (some t) s g
    { s with tidIndexDict := Function.update s.tidIndexDict i tid } g := by
  constructor
  · exact fun _ => .inl rfl
  · exact fun _ _ => rfl
  · intro k u hk hu
    apply Function.update_of_ne
    rintro rfl
    rw [hi] at hk
    cases hk
    exact hu rfl
  · exact fun _ hu => hu
  · exact fun _ _ => Iff.rfl

theorem trans {s'' : Tasks} {g'' : Ledger} (h : Extends own s g s' g') (h' : Extends own s' g' s'' g'') :
    Extends own s g s'' g'' := by
  constructor
  · intro i
    rcases h.threads i with he | ⟨hempty, t, ht, he⟩
    · rw [← he]
      exact h'.threads i
    · rcases h'.threads i with he' | ⟨hempty', -⟩
      · exact .inr ⟨hempty, t, ht, he'.trans he⟩
      · rw [he] at hempty'
        cases hempty'
  · intro t ht
    rw [h'.obj t ht, h.obj t ht]
  · intro i t hi ht
    rw [h'.dict i t (h.entry hi) ht, h.dict i t hi ht]
  · exact fun t ht => h'.live t (h.live t ht)
  · intro t ht
    rw [h'.order t ht, h.order t ht]

theorem append (t : ℕ) (reader : Option ℕ) : Extends (some t) s g s ⟨g.live, g.order ++ [t], reader⟩ := by
  constructor
  · exact fun _ => .inl rfl
  · exact fun _ _ => rfl
  · exact fun _ _ _ _ => rfl
  · exact fun _ hu => hu
  · intro u hu
    have hne : u ≠ t := by
      rintro rfl
      exact hu rfl
    simp [hne]

end Extends

namespace Sound

variable (h : Sound first k g)
include h

theorem not_mem_order (ht : ∀ i, i < threadNum → k.tasks.threads i ≠ .at t) : t ∉ g.order := by
  intro hmem
  obtain ⟨i, hi, hptr⟩ := h.entered t hmem
  exact ht i hi hptr

theorem setObj (ht : t ∉ g.order) (x : Thread) :
    Sound first (k.setTasks (k.tasks.setObj (.at t) x)) g := by
  constructor
  · exact h.cur
  · exact h.empty_dead
  · exact h.inj
  · exact h.heap
  · exact h.held
  · exact h.nodup
  · exact h.entered
  · intro n hn
    have hne : g.order[n] ≠ t := by
      rintro rfl
      exact ht (List.getElem_mem hn)
    have hsame : (k.tasks.setObj (.at t) x).obj (.at g.order[n]) = k.tasks.obj (.at g.order[n]) := by
      apply Function.update_of_ne
      simpa using hne
    exact (congrArg (fun y : Thread => y.tid % 2 ^ 32) hsame).trans (h.tid n hn)
  · exact h.global

theorem setHeap {heap : Heap} {free live : List Block} (hw : WellFormed heap free live)
    (hlive : ∀ t, Held g.live t → Held live t) :
    Sound first (k.setHeap heap) ⟨live, g.order, g.reader⟩ := by
  constructor
  · exact h.cur
  · exact h.empty_dead
  · exact h.inj
  · exact ⟨free, hw⟩
  · intro i t hi ht
    exact hlive t (h.held i t hi ht)
  · exact h.nodup
  · exact h.entered
  · exact h.tid
  · exact h.global

theorem setThread (ht : Unlisted k.tasks g.live t) (hi : k.tasks.threads i = .emptyThread) :
    Sound first (k.setTasks { k.tasks with threads := Function.update k.tasks.threads i (.at t) }) g := by
  have hself : Function.update k.tasks.threads i (.at t) i = .at t := Function.update_self ..
  have hother : ∀ j, j ≠ i → Function.update k.tasks.threads i (.at t) j = k.tasks.threads j :=
    fun j hj => Function.update_of_ne hj ..
  constructor
  · exact h.cur
  · exact h.empty_dead
  · intro a b ha hb hab hne
    change Function.update k.tasks.threads i (.at t) a = Function.update k.tasks.threads i (.at t) b at hab
    change Function.update k.tasks.threads i (.at t) a ≠ _ at hne
    by_cases hai : a = i
    · by_cases hbi : b = i
      · rw [hai, hbi]
      · rw [hai, hself, hother b hbi] at hab
        exact absurd hab.symm (ht.not_mem b hb)
    · rw [hother a hai] at hab hne
      by_cases hbi : b = i
      · rw [hbi, hself] at hab
        exact absurd hab (ht.not_mem a ha)
      · rw [hother b hbi] at hab
        exact h.inj a b ha hb hab hne
  · exact h.heap
  · intro a u ha hu
    change Function.update k.tasks.threads i (.at t) a = _ at hu
    by_cases hai : a = i
    · rw [hai, hself] at hu
      cases hu
      exact ht.held
    · rw [hother a hai] at hu
      exact h.held a u ha hu
  · exact h.nodup
  · intro u hu
    obtain ⟨a, ha, hptr⟩ := h.entered u hu
    exact ⟨a, ha, (Extends.setThread (g := g) hi).entry hptr⟩
  · exact h.tid
  · exact h.global

theorem congr (hcur : ∃ c : ℕ, c < threadNum ∧ k'.tasks.curThreadIndex = c)
    (hthreads : k'.tasks.threads = k.tasks.threads) (hobj : k'.tasks.obj = k.tasks.obj)
    (hglobal : k'.tasks.tidGlobal = k.tasks.tidGlobal) (hheap : k'.heap = k.heap) : Sound first k' g := by
  constructor
  · exact hcur
  · rw [hobj]
    exact h.empty_dead
  · rw [hthreads]
    exact h.inj
  · rw [hheap]
    exact h.heap
  · rw [hthreads]
    exact h.held
  · exact h.nodup
  · rw [hthreads]
    exact h.entered
  · rw [hobj]
    exact h.tid
  · rw [hglobal]
    exact h.global

theorem append (hreader : g.reader = none) (ht : t ∉ g.order) (hi : Entered k.tasks t i)
    (htid : (k.tasks.obj (.at t)).tid = k.tasks.tidGlobal) (j : ℕ) :
    Sound first k ⟨g.live, g.order ++ [t], some j⟩ := by
  have hglobal := h.global
  rw [if_pos hreader] at hglobal
  constructor
  · exact h.cur
  · exact h.empty_dead
  · exact h.inj
  · exact h.heap
  · exact h.held
  · rw [List.nodup_append]
    refine ⟨h.nodup, List.nodup_singleton t, ?_⟩
    rintro u hu v hv rfl
    rw [List.mem_singleton] at hv
    exact ht (hv ▸ hu)
  · intro u hu
    rcases List.mem_append.mp hu with hold | hnew
    · exact h.entered u hold
    · rw [List.mem_singleton] at hnew
      exact ⟨i, hi.lt, hnew ▸ hi.ptr⟩
  · intro n hn
    by_cases hlt : n < g.order.length
    · simp only [List.getElem_append_left hlt]
      exact h.tid n hlt
    · have hlen : n = g.order.length := by
        simp only [List.length_append, List.length_singleton] at hn
        omega
      subst hlen
      simp only [List.getElem_concat_length, htid, hglobal]
      congr 1
      omega
  · rw [if_neg (by simp), hglobal]
    simp only [List.length_append, List.length_singleton]
    congr 1
    omega

theorem incGlobal (hreader : g.reader ≠ none) :
    Sound first (k.setTasks { k.tasks with tidGlobal := int32 (k.tasks.tidGlobal + 1) })
      ⟨g.live, g.order, none⟩ := by
  have hglobal := h.global
  rw [if_neg hreader] at hglobal
  constructor
  · exact h.cur
  · exact h.empty_dead
  · exact h.inj
  · exact h.heap
  · exact h.held
  · exact h.nodup
  · exact h.entered
  · exact h.tid
  · change int32 (k.tasks.tidGlobal + 1) % 2 ^ 32 = _
    rw [int32_emod, if_pos rfl]
    dsimp only
    omega

end Sound

theorem Tasks.vacancies_setThread (hi : i < threadNum) (hempty : s.threads i = .emptyThread) :
    vacancies { s with threads := Function.update s.threads i (.at t) } + 1 = s.vacancies := by
  have hsum := sum_update (fun p : ThreadPtr => if p = .emptyThread then 1 else 0) s.threads (.at t) hi
  simpa [hempty, vacancies] using hsum

namespace Creation.Inv

variable {s : Creation} {m : Core} {p : CreatePoint} {n' : ℕ}

theorem current_lt (h : s.Inv first n g) : s.config.state.current < threadNum := by
  obtain ⟨c, hc, hcur⟩ := h.sound.cur
  rw [Core.current, hcur]
  exact hc

theorem reads_iff (h : s.Inv first n g) (hp : s.config.points s.config.state.current = p) :
    p.ReadsTid ↔ g.reader = some s.config.state.current := by
  rw [← hp]
  exact h.reads _

theorem move (h : s.Inv first n g) (hp : s.config.points s.config.state.current = p)
    (hcur : m.current = s.config.state.current)
    (hsound : Sound first m.kernel g')
    (hext : Extends q.addr s.config.state.kernel.tasks g m.kernel.tasks g')
    (hat : q.At m.kernel.tasks g')
    (hown : ∀ t, q.addr = some t → p.addr = some t ∨
      (∀ j, (s.config.points j).addr ≠ some t) ∧ ∀ r ∈ s.returns, r.thread ≠ t)
    (hreads : q.ReadsTid ↔ g'.reader = some s.config.state.current)
    (hreads' : ∀ j, j ≠ s.config.state.current → (g'.reader = some j ↔ g.reader = some j))
    (hquiet : q.Quiet → m.intr = false)
    (hoccupied : ∀ i, i < threadNum → m.kernel.tasks.threads i ≠ .emptyThread →
      (m.thread i).state = .dead → ∃ t, q = .setState t i)
    (hroom : q.pending + n' + s.config.state.kernel.tasks.vacancies ≤
      p.pending + n + m.kernel.tasks.vacancies) :
    Inv first n' g' { s with config := createThreads.move s.config q m } := by
  -- no other thread has the structure of this one
  have hothers : ∀ j, j ≠ s.config.state.current → ∀ t, q.addr = some t →
      (s.config.points j).addr ≠ some t := by
    intro j hj t ht
    rcases hown t ht with hold | ⟨hnew, -⟩
    · intro he
      exact hj (h.apart j _ t he (hp ▸ hold))
    · exact hnew j
  have hreturns : ∀ r ∈ s.returns, q.addr ≠ some r.thread := by
    intro r hr ht
    rcases hown r.thread ht with hold | ⟨-, hnew⟩
    · exact h.left r hr _ (hp ▸ hold)
    · exact hnew r hr rfl
  have hself : Function.update s.config.points s.config.state.current q s.config.state.current = q :=
    Function.update_self ..
  have hother : ∀ j, j ≠ s.config.state.current →
      Function.update s.config.points s.config.state.current q j = s.config.points j :=
    fun j hj => Function.update_of_ne hj ..
  constructor
  · exact hsound
  · intro j hj
    have hlt := h.current_lt
    exact (hother j (by omega)).trans (h.beyond j hj)
  · intro j
    change (Function.update s.config.points s.config.state.current q j).At _ _
    by_cases hj : j = s.config.state.current
    · rw [hj, hself]
      exact hat
    · rw [hother j hj]
      exact hext.kept (h.points j) (hothers j hj)
  · intro i j t hi hj
    change (Function.update s.config.points s.config.state.current q i).addr = some t at hi
    change (Function.update s.config.points s.config.state.current q j).addr = some t at hj
    by_cases hic : i = s.config.state.current
    · by_cases hjc : j = s.config.state.current
      · rw [hic, hjc]
      · rw [hic, hself] at hi
        rw [hother j hjc] at hj
        exact absurd hj (hothers j hjc t hi)
    · rw [hother i hic] at hi
      by_cases hjc : j = s.config.state.current
      · rw [hjc, hself] at hj
        exact absurd hi (hothers i hic t hj)
      · rw [hother j hjc] at hj
        exact h.apart i j t hi hj
  · intro j
    change (Function.update s.config.points s.config.state.current q j).ReadsTid ↔ _
    by_cases hj : j = s.config.state.current
    · rw [hj, hself]
      exact hreads
    · rw [hother j hj, hreads' j hj]
      exact h.reads j
  · intro j hq
    change (Function.update s.config.points s.config.state.current q j).Quiet at hq
    by_cases hj : j = s.config.state.current
    · rw [hj, hself] at hq
      exact ⟨hquiet hq, hcur.trans hj.symm⟩
    · rw [hother j hj] at hq
      exact absurd (h.quiet j hq).2.symm hj
  · intro i hi hused hdead
    obtain ⟨t, rfl⟩ := hoccupied i hi hused hdead
    exact ⟨_, t, hself⟩
  · intro r hr
    obtain ⟨i, hreg, htid⟩ := h.returned r hr
    have hne : q.addr ≠ some r.thread := hreturns r hr
    refine ⟨i, hext.registered hreg hne, ?_⟩
    change (m.kernel.tasks.obj _).tid = _
    rw [hext.obj _ hne, htid]
  · intro r hr j
    change (Function.update s.config.points s.config.state.current q j).addr ≠ _
    by_cases hj : j = s.config.state.current
    · rw [hj, hself]
      exact hreturns r hr
    · rw [hother j hj]
      exact h.left r hr j
  · exact h.nodup
  · have hsum := sum_update CreatePoint.pending s.config.points q h.current_lt
    have hold := h.room
    rw [hp] at hsum
    change ∑ j ∈ Finset.range threadNum,
      (Function.update s.config.points s.config.state.current q j).pending + n' ≤ m.kernel.tasks.vacancies
    omega

theorem alive (h : s.Inv first n g) (hp : s.config.points s.config.state.current = p)
    (hstate : ∀ t i, p ≠ .setState t i) :
    ∀ i, i < threadNum → s.config.state.kernel.tasks.threads i ≠ .emptyThread →
      (s.config.state.thread i).state ≠ .dead := by
  intro i hi hused hdead
  obtain ⟨j, t, hj⟩ := h.occupied i hi hused hdead
  obtain rfl := (h.quiet j (by rw [hj]; trivial)).2
  exact hstate t i (hp.symm.trans hj)

theorem advance (h : s.Inv first n g) (hp : s.config.points s.config.state.current = p)
    (hkernel : m.kernel = s.config.state.kernel)
    (hat : q.At s.config.state.kernel.tasks g)
    (haddr : ∀ t, q.addr = some t → p.addr = some t) (hreads : q.ReadsTid ↔ p.ReadsTid)
    (hquiet : q.Quiet → m.intr = false) (hstate : ∀ t i, p ≠ .setState t i)
    (hroom : q.pending + n' ≤ p.pending + n) :
    Inv first n' g { s with config := createThreads.move s.config q m } := by
  have htasks : m.kernel.tasks = s.config.state.kernel.tasks := by rw [hkernel]
  apply h.move hp
  · rw [Core.current, htasks]
    rfl
  · rw [hkernel]
    exact h.sound
  · rw [htasks]
    exact .of_same _ rfl rfl rfl (fun _ ht => ht) rfl
  · rw [htasks]
    exact hat
  · exact fun t ht => .inl (haddr t ht)
  · exact hreads.trans (h.reads_iff hp)
  · exact fun _ _ => Iff.rfl
  · exact hquiet
  · intro i hi hused hdead
    rw [htasks] at hused
    rw [Core.thread, htasks] at hdead
    exact absurd hdead (h.alive hp hstate i hi hused)
  · rw [htasks]
    omega

theorem alive_setObj (h : s.Inv first n g) (hp : s.config.points s.config.state.current = p)
    (hi : Entered s.config.state.kernel.tasks t i) {x : Thread}
    (hx : x.state ≠ .dead)
    (hstate : ∀ u k, p = .setState u k → k = i) :
    ∀ k, k < threadNum → s.config.state.kernel.tasks.threads k ≠ .emptyThread →
      ((s.config.state.kernel.tasks.setObj (.at t) x).thread k).state ≠ .dead := by
  intro k hk hused
  by_cases hki : k = i
  · rw [hki, Tasks.thread_setObj_self x hi.ptr]
    exact hx
  · have hne : s.config.state.kernel.tasks.threads k ≠ .at t := by
      rw [← hi.ptr]
      exact fun he => hki (h.sound.inj k i hk hi.lt he hused)
    rw [Tasks.thread_setObj_of_ne x hne]
    intro hdead
    obtain ⟨j, u, hj⟩ := h.occupied k hk hused hdead
    obtain rfl := (h.quiet j (by rw [hj]; trivial)).2
    exact hki (hstate u k (hp.symm.trans hj))

theorem write (h : s.Inv first n g) (hp : s.config.points s.config.state.current = p)
    (hkernel : m.kernel = s.config.state.kernel)
    (hi : Entered s.config.state.kernel.tasks t i) (ht : t ∉ g.order) (x : Thread) (hx : x.state ≠ .dead)
    (haddr : p.addr = some t) (haddr' : q.addr = some t) (hstate : ∀ u k, p = .setState u k → k = i)
    (hat : q.At (s.config.state.kernel.tasks.setObj (.at t) x) g)
    (hreads : q.ReadsTid ↔ p.ReadsTid) (hquiet : q.Quiet → m.intr = false)
    (hroom : q.pending ≤ p.pending) :
    Inv first n g { s with config := createThreads.move s.config q (m.setThread i x) } := by
  have hset : (m.setThread i x).kernel = s.config.state.kernel.setTasks
      (s.config.state.kernel.tasks.setObj (.at t) x) := by
    rw [Core.setThread, Core.setTasks, hkernel, hi.ptr]
  apply h.move hp
  · rw [Core.current, hset]
    rfl
  · rw [hset]
    exact h.sound.setObj ht x
  · rw [hset, haddr']
    exact .setObj t x
  · rw [hset]
    exact hat
  · intro u hu
    exact .inl (haddr.trans (haddr'.symm.trans hu))
  · exact hreads.trans (h.reads_iff hp)
  · exact fun _ _ => Iff.rfl
  · exact hquiet
  · intro k hk hused hdead
    rw [hset] at hused
    rw [Core.thread, hset] at hdead
    exact absurd hdead (h.alive_setObj hp hi hx hstate k hk hused)
  · rw [hset]
    change q.pending + n + s.config.state.kernel.tasks.vacancies ≤
      _ + n + s.config.state.kernel.tasks.vacancies
    omega

theorem held_addr (h : s.Inv first n g) {j : ℕ} (ht : (s.config.points j).addr = some t) :
    Held g.live t := by
  have hpoint := h.points j
  generalize s.config.points j = p at ht hpoint
  have hentered : ∀ {i}, Entered s.config.state.kernel.tasks t i → Held g.live t :=
    fun hi => h.sound.held _ t hi.lt hi.ptr
  cases p with
  | idle | ioCli _ | alloc _ => cases ht
  | gen _ _ =>
    cases ht
    exact hpoint.held
  | test _ _ | runCli _ _ | setThread _ _ =>
    cases ht
    exact hpoint.1.held
  | setState _ _ | setIndex _ _ | setPtid _ _ | setTid _ _ | setDict _ _ =>
    cases ht
    exact hentered hpoint.1
  | incGlobal _ _ | runSti _ _ | put _ _ _ =>
    cases ht
    exact hentered hpoint.toEntered
  | ioSti _ | ret _ =>
    cases ht
    obtain ⟨i, hreg⟩ := hpoint
    exact hentered hreg.toEntered

theorem exists_vacant (h : s.Inv first n g) (hp : s.config.points s.config.state.current = p)
    (hpending : p.pending = 1) :
    ∃ i, i < threadNum ∧ s.config.state.kernel.tasks.threads i = .emptyThread := by
  by_contra hnone
  have hfull : s.config.state.kernel.tasks.vacancies = 0 := by
    apply Finset.sum_eq_zero
    intro i hi
    rw [if_neg (fun he => hnone ⟨i, Finset.mem_range.mp hi, he⟩)]
  have hroom := h.room
  rw [hfull, ← Finset.add_sum_erase _ _ (Finset.mem_range.mpr h.current_lt), hp, hpending] at hroom
  omega

theorem ret (h : s.Inv first n g) (hreg : ∃ i, s.config.state.kernel.tasks.Registered g.order t i)
    (hleft : ∀ j, (s.config.points j).addr ≠ some t) (hnew : ∀ r ∈ s.returns, r.thread ≠ t) :
    Inv first n g { s with
      returns := s.returns ++ [⟨t, (s.config.state.kernel.tasks.obj (.at t)).tid⟩] } := by
  constructor
  · exact h.sound
  · exact h.beyond
  · exact h.points
  · exact h.apart
  · exact h.reads
  · exact h.quiet
  · exact h.occupied
  · intro r hr
    rcases List.mem_append.mp hr with hold | hlast
    · exact h.returned r hold
    · obtain ⟨i, hi⟩ := hreg
      rw [List.mem_singleton.mp hlast]
      exact ⟨i, hi, rfl⟩
  · intro r hr
    rcases List.mem_append.mp hr with hold | hlast
    · exact h.left r hold
    · rw [List.mem_singleton.mp hlast]
      exact hleft
  · rw [List.map_append, List.nodup_append]
    refine ⟨h.nodup, List.nodup_singleton t, ?_⟩
    rintro a ha b hb rfl
    obtain ⟨r, hr, rfl⟩ := List.mem_map.mp ha
    exact hnew r hr (List.mem_singleton.mp hb)
  · exact h.room

theorem at_point (h : s.Inv first n g) (hp : s.config.points s.config.state.current = p) :
    p.At s.config.state.kernel.tasks g := by
  rw [← hp]
  exact h.points _

theorem stmt_ioCli {func : ThreadFunc} (h : s.Inv first n g)
    (hp : s.config.points s.config.state.current = .ioCli func)
    (hnext : CreatePoint.next (.ioCli func) s.config.state = some (q, m)) :
    ∃ g', Inv first n g' { s with config := createThreads.move s.config q m } := by
  obtain ⟨rfl, rfl⟩ := Prod.mk.inj (Option.some.inj hnext)
  exact ⟨g, h.advance hp rfl trivial (by simp [CreatePoint.addr]) Iff.rfl (fun _ => rfl) (by simp) (le_refl _)⟩

theorem stmt_alloc {func : ThreadFunc} (h : s.Inv first n g)
    (hguard : CreatePoint.Undisputed s.config (.alloc func))
    (hp : s.config.points s.config.state.current = .alloc func)
    (hnext : CreatePoint.next (.alloc func) s.config.state = some (q, m)) :
    ∃ g', Inv first n g' { s with config := createThreads.move s.config q m } := by
  have hreads := h.reads_iff hp
  obtain ⟨⟨t, heap⟩, hk, heq⟩ := Option.map_eq_some_iff.mp hnext
  obtain ⟨rfl, rfl⟩ := Prod.mk.inj heq
  obtain ⟨free, hw⟩ := h.sound.heap
  have hall : kmallocAll s.config.state.kernel.heap [sizeofThread] = some ([t], heap) := by
    have hk' : kmalloc s.config.state.kernel.heap sizeofThread = some (t, heap) := hk
    simp only [kmallocAll, hk', Option.bind_some, Option.map_some]
  obtain ⟨free', hw', hans⟩ := hw.kmallocAll_answers (by decide) hall
  obtain ⟨rs, heap', hall', hrs⟩ := hguard
  obtain ⟨rfl, rfl⟩ := Prod.mk.inj (Option.some.inj (hall.symm.trans hall'))
  have ht : t ≠ 0 := by
    rintro rfl
    exact hrs (List.mem_singleton_self 0)
  have hheld : ∀ u, Held g.live u → Held (gainedAll g.live [sizeofThread] [t]) u :=
    fun u hu => hu.gainedAll hans
  cases hans with
  | cons hpos hnew _ =>
  have hfresh : ¬ Held g.live t := by
    rintro ⟨b, hb, he⟩
    exact hnew b hb he
  refine ⟨⟨_, g.order, g.reader⟩, h.move hp rfl (h.sound.setHeap hw' hheld)
    (.of_same _ rfl rfl rfl hheld rfl) ⟨held_gained_self ht (hpos ht), ?_⟩ ?_ hreads
    (fun _ _ => Iff.rfl) ?_ ?_ (le_refl _)⟩
  · intro i hi he
    exact hfresh (h.sound.held i t hi he)
  · intro u hu
    cases hu
    refine .inr ⟨fun j hj => hfresh (h.held_addr hj), ?_⟩
    rintro r hr rfl
    obtain ⟨i, hreg, -⟩ := h.returned r hr
    exact hfresh (h.sound.held i _ hreg.lt hreg.ptr)
  · intro _
    exact (h.quiet _ (by rw [hp]; trivial)).1
  · intro i hi hused hdead
    exact absurd hdead (h.alive hp (by simp) i hi hused)

theorem stmt_gen {func : ThreadFunc} (h : s.Inv first n g)
    (hp : s.config.points s.config.state.current = .gen func t)
    (hnext : CreatePoint.next (.gen func t) s.config.state = some (q, m)) :
    ∃ g', Inv first n g' { s with config := createThreads.move s.config q m } := by
  have hpoint := h.at_point hp
  have hreads := h.reads_iff hp
  obtain ⟨k, hk, heq⟩ := Option.map_eq_some_iff.mp hnext
  obtain ⟨rfl, rfl⟩ := Prod.mk.inj heq
  obtain ⟨rs, heap, x, hall, hheap, -, htasks⟩ := Kernel.threadGen2_cases hk
  obtain ⟨free, hw⟩ := h.sound.heap
  obtain ⟨free', hw', hans⟩ := hw.kmallocAll_answers (by decide) hall
  have hheld : ∀ u, Held g.live u → Held (gainedAll g.live _ rs) u := fun u hu => hu.gainedAll hans
  have hsound := (h.sound.setHeap hw' hheld).setObj (h.sound.not_mem_order hpoint.not_mem) x
  refine ⟨⟨_, g.order, g.reader⟩, h.move hp ?_ (hsound.congr ?_ ?_ ?_ ?_ hheap) ?_ ?_
    (fun u hu => .inl hu) hreads (fun _ _ => Iff.rfl) False.elim ?_ ?_⟩
  · rw [Core.current, htasks]
    rfl
  · rw [htasks]
    exact hsound.cur
  · rw [htasks]
    rfl
  · rw [htasks]
    rfl
  · rw [htasks]
    rfl
  · rw [htasks]
    exact (Extends.setObj t x).trans (.of_same _ rfl rfl rfl hheld rfl)
  · rw [htasks]
    exact ⟨⟨hheld t hpoint.held, hpoint.not_mem⟩, fun k hk => absurd hk (Nat.not_lt_zero k)⟩
  · intro i hi hused hdead
    rw [htasks] at hused
    rw [Core.thread, htasks, Tasks.thread_setObj_of_ne x (hpoint.not_mem i hi)] at hdead
    exact absurd hdead (h.alive hp (by simp) i hi hused)
  · rw [htasks]
    exact le_refl _

theorem stmt_test (h : s.Inv first n g)
    (hp : s.config.points s.config.state.current = .test t i)
    (hnext : CreatePoint.next (.test t i) s.config.state = some (q, m)) :
    ∃ g', Inv first n g' { s with config := createThreads.move s.config q m } := by
  have hpoint := h.at_point hp
  rw [CreatePoint.next] at hnext
  split_ifs at hnext with hi hdead
  · obtain ⟨rfl, rfl⟩ := Prod.mk.inj (Option.some.inj hnext)
    exact ⟨g, h.advance hp rfl ⟨hpoint.1, hi⟩ (fun _ => id) Iff.rfl False.elim (by simp) (le_refl _)⟩
  · obtain ⟨rfl, rfl⟩ := Prod.mk.inj (Option.some.inj hnext)
    refine ⟨g, h.advance hp rfl ⟨hpoint.1, ?_⟩ (fun _ => id) Iff.rfl False.elim (by simp) (le_refl _)⟩
    intro k hk he
    by_cases hki : k = i
    · subst hki
      apply hdead
      rw [Core.thread, Tasks.thread, he]
      exact h.sound.empty_dead
    · exact hpoint.2 k (by omega) he
  · obtain ⟨k, hk, hvacant⟩ := h.exists_vacant hp rfl
    exact absurd hvacant (hpoint.2 k (by omega))

theorem stmt_runCli (h : s.Inv first n g)
    (hp : s.config.points s.config.state.current = .runCli t i)
    (hnext : CreatePoint.next (.runCli t i) s.config.state = some (q, m)) :
    ∃ g', Inv first n g' { s with config := createThreads.move s.config q m } := by
  have hpoint := h.at_point hp
  obtain ⟨rfl, rfl⟩ := Prod.mk.inj (Option.some.inj hnext)
  exact ⟨g, h.advance hp rfl hpoint (fun _ => id) Iff.rfl (fun _ => rfl) (by simp) (le_refl _)⟩

theorem stmt_setThread (h : s.Inv first n g)
    (hguard : CreatePoint.Undisputed s.config (.setThread t i))
    (hp : s.config.points s.config.state.current = .setThread t i)
    (hnext : CreatePoint.next (.setThread t i) s.config.state = some (q, m)) :
    ∃ g', Inv first n g' { s with config := createThreads.move s.config q m } := by
  have hpoint := h.at_point hp
  have hreads := h.reads_iff hp
  obtain ⟨rfl, rfl⟩ := Prod.mk.inj (Option.some.inj hnext)
  obtain ⟨ht, hi⟩ := hpoint
  have hempty : s.config.state.kernel.tasks.threads i = .emptyThread := by
    by_contra hused
    exact h.alive hp (by simp) i hi hused hguard
  refine ⟨g, h.move hp rfl (h.sound.setThread ht hempty) (.setThread hempty) ?_ (fun u hu => .inl hu)
    hreads (fun _ _ => Iff.rfl) ?_ ?_ ?_⟩
  · exact ⟨⟨hi, Function.update_self ..⟩, h.sound.not_mem_order ht.not_mem⟩
  · intro _
    exact (h.quiet _ (by rw [hp]; trivial)).1
  · intro k hk hused hdead
    by_cases hki : k = i
    · exact ⟨t, by rw [hki]⟩
    · have hsame : Function.update s.config.state.kernel.tasks.threads i (.at t) k =
          s.config.state.kernel.tasks.threads k := Function.update_of_ne hki ..
      change Function.update s.config.state.kernel.tasks.threads i (.at t) k ≠ _ at hused
      change (s.config.state.kernel.tasks.obj
        (Function.update s.config.state.kernel.tasks.threads i (.at t) k)).state = _ at hdead
      rw [hsame] at hused hdead
      exact absurd hdead (h.alive hp (by simp) k hk hused)
  · have hvacancies := Tasks.vacancies_setThread (t := t) hi hempty
    change 0 + n + s.config.state.kernel.tasks.vacancies ≤ 1 + n + Tasks.vacancies _
    simp only [Core.setTasks, Kernel.setTasks]
    omega

theorem stmt_setState (h : s.Inv first n g)
    (hp : s.config.points s.config.state.current = .setState t i)
    (hnext : CreatePoint.next (.setState t i) s.config.state = some (q, m)) :
    ∃ g', Inv first n g' { s with config := createThreads.move s.config q m } := by
  have hpoint := h.at_point hp
  obtain ⟨rfl, rfl⟩ := Prod.mk.inj (Option.some.inj hnext)
  obtain ⟨hi, ht⟩ := hpoint
  refine ⟨g, h.write hp rfl hi ht _ (by simp) rfl rfl ?_ ⟨⟨hi.lt, hi.ptr⟩, ht⟩ Iff.rfl ?_ (le_refl _)⟩
  · rintro u k ⟨⟩
    rfl
  · intro _
    exact (h.quiet _ (by rw [hp]; trivial)).1

theorem stmt_setIndex (h : s.Inv first n g)
    (hp : s.config.points s.config.state.current = .setIndex t i)
    (hnext : CreatePoint.next (.setIndex t i) s.config.state = some (q, m)) :
    ∃ g', Inv first n g' { s with config := createThreads.move s.config q m } := by
  have hpoint := h.at_point hp
  obtain ⟨rfl, rfl⟩ := Prod.mk.inj (Option.some.inj hnext)
  obtain ⟨hi, ht⟩ := hpoint
  refine ⟨g, h.write hp rfl hi ht _ (h.alive hp (by simp) i hi.lt (by simp [hi.ptr])) rfl rfl (by simp)
    ⟨⟨hi.lt, hi.ptr⟩, ht, ?_⟩ Iff.rfl ?_ (le_refl _)⟩
  · rw [Tasks.obj_setObj_self]
  · intro _
    exact (h.quiet _ (by rw [hp]; trivial)).1

theorem stmt_setPtid (h : s.Inv first n g)
    (hp : s.config.points s.config.state.current = .setPtid t i)
    (hnext : CreatePoint.next (.setPtid t i) s.config.state = some (q, m)) :
    ∃ g', Inv first n g' { s with config := createThreads.move s.config q m } := by
  have hpoint := h.at_point hp
  rw [CreatePoint.next, Code.getCurThreadTid_run, Option.map_map] at hnext
  obtain ⟨ptid, -, heq⟩ := Option.map_eq_some_iff.mp hnext
  obtain ⟨rfl, rfl⟩ := Prod.mk.inj heq
  obtain ⟨hi, ht, hindex⟩ := hpoint
  refine ⟨g, h.write (m := { s.config.state with intr := true }) hp rfl hi ht
    { s.config.state.thread i with ptid := ptid } (h.alive hp (by simp) i hi.lt (by simp [hi.ptr])) rfl rfl
    (by simp) ⟨⟨hi.lt, hi.ptr⟩, ht, ?_⟩ Iff.rfl False.elim (le_refl _)⟩
  rw [Tasks.obj_setObj_self]
  dsimp only [Core.thread, Tasks.thread]
  rw [hi.ptr]
  exact hindex

theorem stmt_setTid (h : s.Inv first n g)
    (hguard : CreatePoint.Undisputed s.config (.setTid t i))
    (hp : s.config.points s.config.state.current = .setTid t i)
    (hnext : CreatePoint.next (.setTid t i) s.config.state = some (q, m)) :
    ∃ g', Inv first n g' { s with config := createThreads.move s.config q m } := by
  have hpoint := h.at_point hp
  obtain ⟨rfl, rfl⟩ := Prod.mk.inj (Option.some.inj hnext)
  obtain ⟨hi, ht, hindex⟩ := hpoint
  have hreader : g.reader = none := by
    rw [Option.eq_none_iff_forall_ne_some]
    intro j hj
    have hread := (h.reads j).mpr hj
    by_cases hlt : j < threadNum
    · exact hguard j hlt hread
    · rw [h.beyond j (by omega)] at hread
      exact hread
  have hthread : s.config.state.thread i = s.config.state.kernel.tasks.obj (.at t) := by
    rw [Core.thread, Tasks.thread, hi.ptr]
  generalize hx : { s.config.state.thread i with tid := s.config.state.kernel.tasks.tidGlobal } = x
  have hset : (s.config.state.setThread i x).kernel = s.config.state.kernel.setTasks
      (s.config.state.kernel.tasks.setObj (.at t) x) := by
    rw [Core.setThread, Core.setTasks, hi.ptr]
  refine ⟨⟨g.live, g.order ++ [t], some s.config.state.current⟩, h.move hp rfl ?_ ?_ ?_
    (fun u hu => .inl hu) (iff_of_true trivial rfl) ?_ False.elim ?_ (le_refl _)⟩
  · rw [hset]
    apply (h.sound.setObj ht x).append hreader ht ⟨hi.lt, hi.ptr⟩
    rw [Kernel.setTasks, Tasks.obj_setObj_self, ← hx]
    rfl
  · rw [hset]
    exact (Extends.setObj t x).trans (Extends.append t _)
  · rw [hset]
    refine ⟨⟨hi.lt, hi.ptr⟩, by simp, ?_⟩
    rw [Kernel.setTasks, Tasks.obj_setObj_self, ← hx, hthread]
    exact hindex
  · intro j hj
    simp [hreader, hj.symm]
  · intro k hk hused hdead
    rw [hset] at hused
    rw [Core.thread, hset] at hdead
    refine absurd hdead (h.alive_setObj hp hi ?_ (by simp) k hk hused)
    rw [← hx]
    exact h.alive hp (by simp) i hi.lt (by simp [hi.ptr])

theorem stmt_setDict (h : s.Inv first n g)
    (hp : s.config.points s.config.state.current = .setDict t i)
    (hnext : CreatePoint.next (.setDict t i) s.config.state = some (q, m)) :
    ∃ g', Inv first n g' { s with config := createThreads.move s.config q m } := by
  have hpoint := h.at_point hp
  have hreads := h.reads_iff hp
  obtain ⟨rfl, rfl⟩ := Prod.mk.inj (Option.some.inj hnext)
  obtain ⟨hi, ht, hindex⟩ := hpoint
  refine ⟨g, h.move hp rfl (h.sound.congr h.sound.cur rfl rfl rfl rfl) (.setDict hi.ptr _)
    ⟨⟨hi.lt, hi.ptr⟩, hindex, ht, ?_⟩ (fun u hu => .inl hu) hreads (fun _ _ => Iff.rfl) False.elim ?_
    (le_refl _)⟩
  · have hthread : s.config.state.thread i = s.config.state.kernel.tasks.obj (.at t) := by
      rw [Core.thread, Tasks.thread, hi.ptr]
    change Function.update s.config.state.kernel.tasks.tidIndexDict i _ i = _
    rw [Function.update_self, hthread]
    rfl
  · intro k hk hused hdead
    exact absurd hdead (h.alive hp (by simp) k hk hused)

theorem stmt_incGlobal (h : s.Inv first n g)
    (hp : s.config.points s.config.state.current = .incGlobal t i)
    (hnext : CreatePoint.next (.incGlobal t i) s.config.state = some (q, m)) :
    ∃ g', Inv first n g' { s with config := createThreads.move s.config q m } := by
  have hpoint := h.at_point hp
  have hreads := h.reads_iff hp
  obtain ⟨rfl, rfl⟩ := Prod.mk.inj (Option.some.inj hnext)
  have hreader : g.reader = some s.config.state.current := hreads.mp trivial
  refine ⟨⟨g.live, g.order, none⟩, h.move hp rfl (h.sound.incGlobal (by simp [hreader]))
    (.of_same _ rfl rfl rfl (fun _ hu => hu) rfl)
    ⟨⟨hpoint.lt, hpoint.ptr⟩, hpoint.index, hpoint.mem, hpoint.dict⟩ (fun u hu => .inl hu)
    (iff_of_false id (by simp)) ?_ False.elim ?_ (le_refl _)⟩
  · intro j hj
    simp [hreader, hj.symm]
  · intro k hk hused hdead
    exact absurd hdead (h.alive hp (by simp) k hk hused)

theorem stmt_runSti (h : s.Inv first n g)
    (hp : s.config.points s.config.state.current = .runSti t i)
    (hnext : CreatePoint.next (.runSti t i) s.config.state = some (q, m)) :
    ∃ g', Inv first n g' { s with config := createThreads.move s.config q m } := by
  have hpoint := h.at_point hp
  obtain ⟨rfl, rfl⟩ := Prod.mk.inj (Option.some.inj hnext)
  exact ⟨g, h.advance hp rfl hpoint (fun _ => id) Iff.rfl False.elim (by simp) (le_refl _)⟩

theorem stmt_put {k : ℕ} (h : s.Inv first n g)
    (hp : s.config.points s.config.state.current = .put t i k)
    (hnext : CreatePoint.next (.put t i k) s.config.state = some (q, m)) :
    ∃ g', Inv first n g' { s with config := createThreads.move s.config q m } := by
  have hpoint := h.at_point hp
  obtain ⟨rfl, rfl⟩ := Prod.mk.inj (Option.some.inj hnext)
  split_ifs
  · exact ⟨g, h.advance hp rfl hpoint (fun _ => id) Iff.rfl False.elim (by simp) (le_refl _)⟩
  · exact ⟨g, h.advance hp rfl ⟨i, hpoint⟩ (fun _ => id) Iff.rfl False.elim (by simp) (le_refl _)⟩

theorem stmt_ioSti (h : s.Inv first n g)
    (hp : s.config.points s.config.state.current = .ioSti t)
    (hnext : CreatePoint.next (.ioSti t) s.config.state = some (q, m)) :
    ∃ g', Inv first n g' { s with config := createThreads.move s.config q m } := by
  have hpoint := h.at_point hp
  obtain ⟨rfl, rfl⟩ := Prod.mk.inj (Option.some.inj hnext)
  exact ⟨g, h.advance hp rfl hpoint (fun _ => id) Iff.rfl False.elim (by simp) (le_refl _)⟩

theorem stmt_ret (h : s.Inv first n g)
    (hp : s.config.points s.config.state.current = .ret t)
    (hnext : CreatePoint.next (.ret t) s.config.state = some (q, m)) :
    ∃ g', Inv first n g' { s with
      config := createThreads.move s.config q m
      returns := s.returns ++ CreatePoint.returned s.config.state (.ret t) } := by
  have hpoint := h.at_point hp
  obtain ⟨rfl, rfl⟩ := Prod.mk.inj (Option.some.inj hnext)
  have hidle : Inv first n g { s with config := createThreads.move s.config .idle s.config.state } :=
    h.advance hp rfl trivial (by simp [CreatePoint.addr]) Iff.rfl False.elim (by simp) (le_refl _)
  refine ⟨g, hidle.ret hpoint ?_ ?_⟩
  · intro j
    change (Function.update s.config.points s.config.state.current .idle j).addr ≠ some t
    by_cases hj : j = s.config.state.current
    · rw [hj, Function.update_self]
      simp [CreatePoint.addr]
    · rw [Function.update_of_ne hj]
      exact fun he => hj (h.apart j _ t he (by rw [hp]; rfl))
  · rintro r hr rfl
    exact h.left r hr _ (by rw [hp]; rfl)

theorem stmt {s' : Creation} (h : s.Inv first n g) (hguard : s.Undisputed .stmt)
    (hexec : s.exec .stmt = some s') : ∃ g', s'.Inv first n g' := by
  obtain ⟨d, hd, rfl⟩ := Option.map_eq_some_iff.mp hexec
  obtain ⟨⟨q, m⟩, hnext, rfl⟩ := Option.map_eq_some_iff.mp hd
  change CreatePoint.next (s.config.points s.config.state.current) s.config.state = some (q, m) at hnext
  change (s.config.points s.config.state.current).Undisputed s.config at hguard
  have hwhere : createThreads.point s.config = s.config.points s.config.state.current := rfl
  dsimp only
  rw [hwhere]
  generalize hp : s.config.points s.config.state.current = p at hnext hguard ⊢
  cases p with
  | idle => cases hnext
  | ioCli _ => simpa only [CreatePoint.returned, List.append_nil] using h.stmt_ioCli hp hnext
  | alloc _ => simpa only [CreatePoint.returned, List.append_nil] using h.stmt_alloc hguard hp hnext
  | gen _ _ => simpa only [CreatePoint.returned, List.append_nil] using h.stmt_gen hp hnext
  | test _ _ => simpa only [CreatePoint.returned, List.append_nil] using h.stmt_test hp hnext
  | runCli _ _ => simpa only [CreatePoint.returned, List.append_nil] using h.stmt_runCli hp hnext
  | setThread _ _ => simpa only [CreatePoint.returned, List.append_nil] using h.stmt_setThread hguard hp hnext
  | setState _ _ => simpa only [CreatePoint.returned, List.append_nil] using h.stmt_setState hp hnext
  | setIndex _ _ => simpa only [CreatePoint.returned, List.append_nil] using h.stmt_setIndex hp hnext
  | setPtid _ _ => simpa only [CreatePoint.returned, List.append_nil] using h.stmt_setPtid hp hnext
  | setTid _ _ => simpa only [CreatePoint.returned, List.append_nil] using h.stmt_setTid hguard hp hnext
  | setDict _ _ => simpa only [CreatePoint.returned, List.append_nil] using h.stmt_setDict hp hnext
  | incGlobal _ _ => simpa only [CreatePoint.returned, List.append_nil] using h.stmt_incGlobal hp hnext
  | runSti _ _ => simpa only [CreatePoint.returned, List.append_nil] using h.stmt_runSti hp hnext
  | put _ _ _ => simpa only [CreatePoint.returned, List.append_nil] using h.stmt_put hp hnext
  | ioSti _ => simpa only [CreatePoint.returned, List.append_nil] using h.stmt_ioSti hp hnext
  | ret _ => exact h.stmt_ret hp hnext

theorem call {s' : Creation} {p : CreatePoint} (h : s.Inv first (n + 1) g)
    (hexec : s.exec (.call p) = some s') : s'.Inv first n g := by
  obtain ⟨d, hd, rfl⟩ := Option.map_eq_some_iff.mp hexec
  rw [Threads.exec, Option.ite_none_right_eq_some, Option.some.injEq] at hd
  obtain ⟨hbegin, rfl⟩ := hd
  change (s.config.points s.config.state.current).beginsCall s.config.state p = true at hbegin
  generalize hq : s.config.points s.config.state.current = q at hbegin
  cases q with
  | idle =>
    cases p with
    | ioCli func =>
      have hroom : (CreatePoint.ioCli func).pending + n ≤ CreatePoint.idle.pending + (n + 1) := by
        simp only [CreatePoint.pending]
        omega
      exact h.advance hq rfl trivial (by simp [CreatePoint.addr]) Iff.rfl False.elim (by simp) hroom
    | _ => cases hbegin
  | _ => cases hbegin

theorem tick {s' : Creation} {i : ℕ} (h : s.Inv first n g) (hexec : s.exec (.tick i) = some s') :
    s'.Inv first n g := by
  obtain ⟨d, hd, rfl⟩ := Option.map_eq_some_iff.mp hexec
  obtain ⟨m, htick, rfl⟩ := Option.map_eq_some_iff.mp hd
  obtain ⟨hintr, hr, rfl⟩ := Core.tick_cases htick
  have hsame : Extends none s.config.state.kernel.tasks g
      { s.config.state.kernel.tasks with curThreadIndex := i } g :=
    .of_same none rfl rfl rfl (fun _ ht => ht) rfl
  constructor
  · exact h.sound.congr ⟨i, hr.2.1, rfl⟩ rfl rfl rfl rfl
  · exact h.beyond
  · exact fun j => hsame.kept (h.points j) nofun
  · exact h.apart
  · exact h.reads
  · intro j hj
    rw [(h.quiet j hj).1] at hintr
    cases hintr
  · exact h.occupied
  · intro r hr
    obtain ⟨k, hreg, htid⟩ := h.returned r hr
    exact ⟨k, hsame.registered hreg nofun, htid⟩
  · exact h.left
  · exact h.nodup
  · exact h.room

theorem start {m : Core} (hk : m.kernel.Housed) (hr : m.kernel.tasks.Running c)
    (hn : n ≤ m.kernel.tasks.vacancies) :
    ∃ g, Inv m.kernel.tasks.tidGlobal n g ⟨⟨m, fun _ => .idle⟩, []⟩ := by
  obtain ⟨free, live, hw, hheld⟩ := hk.heap
  refine ⟨⟨live, [], none⟩, ?_⟩
  constructor
  · constructor
    · exact ⟨c, hr.2.1, hr.1⟩
    · exact hk.table.empty_dead
    · exact hk.table.ptr_inj
    · exact ⟨free, hw⟩
    · exact hheld
    · exact List.nodup_nil
    · exact nofun
    · exact nofun
    · simp
  · exact fun _ _ => rfl
  · exact fun _ => trivial
  · exact nofun
  · exact fun _ => iff_of_false id nofun
  · exact fun _ hj => absurd hj id
  · intro i hi hused hdead
    exact absurd (hk.vacant i hi (fun hl => hl.2 hdead)) hused
  · exact nofun
  · exact nofun
  · exact List.nodup_nil
  · simpa [CreatePoint.pending] using hn

theorem run {ops : List (Event ℕ CreatePoint)} {s₀ : Creation} {b : ℕ}
    (hrun : Run (fun s e t => s.exec e = some t ∧ s.Undisputed e) s₀ ops s)
    (h₀ : ∀ n, n ≤ b → ∃ g, s₀.Inv first n g) (hn : ops.countP isCall + n ≤ b) :
    ∃ g, s.Inv first n g := by
  induction hrun generalizing n with
  | nil => exact h₀ n (by omega)
  | @snoc ops t e u _ hstep ih =>
    rw [List.countP_append, List.countP_singleton] at hn
    cases e with
    | stmt =>
      obtain ⟨g, h⟩ := ih hn
      exact h.stmt hstep.2 hstep.1
    | call p =>
      obtain ⟨g, h⟩ := ih (n := n + 1) (by simp only [isCall, if_true] at hn; omega)
      exact ⟨g, h.call hstep.1⟩
    | tick i =>
      obtain ⟨g, h⟩ := ih hn
      exact ⟨g, h.tick hstep.1⟩

theorem order_length (h : s.Inv first n g) : g.order.length ≤ threadNum := by
  have hsub : g.order.map ThreadPtr.at ⊆ (List.range threadNum).map s.config.state.kernel.tasks.threads := by
    intro p hp
    obtain ⟨t, ht, rfl⟩ := List.mem_map.mp hp
    obtain ⟨i, hi, hptr⟩ := h.sound.entered t ht
    exact List.mem_map.mpr ⟨i, List.mem_range.mpr hi, hptr⟩
  have hnodup : (g.order.map ThreadPtr.at).Nodup :=
    h.sound.nodup.map (fun _ _ he => ThreadPtr.at.inj he)
  simpa using (List.subperm_of_subset hnodup hsub).length_le

theorem tid_inj (h : s.Inv first n g) {t u : ℕ} (ht : t ∈ g.order) (hu : u ∈ g.order)
    (he : (s.config.state.kernel.tasks.obj (.at t)).tid = (s.config.state.kernel.tasks.obj (.at u)).tid) :
    t = u := by
  obtain ⟨i, hi, rfl⟩ := List.mem_iff_getElem.mp ht
  obtain ⟨j, hj, rfl⟩ := List.mem_iff_getElem.mp hu
  have hti := h.sound.tid i hi
  have htj := h.sound.tid j hj
  have hlen := h.order_length
  rw [he, htj] at hti
  simp only [threadNum] at hlen
  obtain rfl : i = j := by omega
  rfl

theorem registered (h : s.Inv first n g) : s.Registered := by
  have hpairs := List.pairwise_map.mp h.nodup
  constructor
  · rw [List.Nodup, List.pairwise_map]
    apply hpairs.imp_of_mem
    intro r r' hr hr' hne he
    obtain ⟨i, hreg, htid⟩ := h.returned r hr
    obtain ⟨i', hreg', htid'⟩ := h.returned r' hr'
    exact hne (h.tid_inj hreg.mem hreg'.mem (htid.trans (he.trans htid'.symm)))
  · rw [List.Nodup, List.pairwise_map]
    apply hpairs.imp_of_mem
    intro r r' hr hr' hne he
    obtain ⟨i, hreg, -⟩ := h.returned r hr
    obtain ⟨i', hreg', -⟩ := h.returned r' hr'
    rw [hreg.index, hreg'.index] at he
    obtain rfl : i = i' := by omega
    exact hne (ThreadPtr.at.inj (hreg.ptr.symm.trans hreg'.ptr))
  · intro r hr
    obtain ⟨i, hreg, htid⟩ := h.returned r hr
    have hthread : s.config.state.thread i = s.config.state.kernel.tasks.obj (.at r.thread) := by
      rw [Core.thread, Tasks.thread, hreg.ptr]
    refine ⟨i, hreg.lt, hreg.ptr, ?_, ?_, hreg.dict.trans htid⟩
    · rw [hthread]
      exact hreg.index
    · rw [hthread]
      exact htid

end Creation.Inv

end Creation

/-- Threads that create threads at the same time do not disturb each other in any run in which each
call gets a block for the structure, finds the entry dead when it takes it, and reads `tid_global`
while no other call stands between reading and increasing it. -/
theorem createThread_registered {m : Core} {c : ℕ} {ops : List (Event ℕ CreatePoint)} {s : Creation}
    (hk : m.kernel.Housed) (hr : m.kernel.tasks.Running c)
    (hcalls : ops.countP Creation.isCall ≤ m.kernel.tasks.vacancies)
    (hrun : Run (fun s e t => s.exec e = some t ∧ s.Undisputed e) ⟨⟨m, fun _ => .idle⟩, []⟩ ops s) :
    s.Registered := by
  obtain ⟨g, h⟩ := Creation.Inv.run (n := 0) hrun (fun n hn => Creation.Inv.start hk hr hn) hcalls
  exact h.registered

instance (p : CreatePoint) : Decidable p.ReadsTid :=
  match p with
  | .setDict _ _ | .incGlobal _ _ => .isTrue trivial
  | .idle | .ioCli _ | .alloc _ | .gen _ _ | .test _ _ | .runCli _ _ | .setThread _ _ | .setState _ _
  | .setIndex _ _ | .setPtid _ _ | .setTid _ _ | .runSti _ _ | .put _ _ _ | .ioSti _ | .ret _ => .isFalse id

instance (p : CreatePoint) (c : Config Core ℕ CreatePoint) : Decidable (p.Undisputed c) :=
  match p with
  | .alloc _ => inferInstanceAs (Decidable (Answered _ _))
  | .setThread _ i => inferInstanceAs (Decidable ((c.state.thread i).state = .dead))
  | .setTid _ _ => inferInstanceAs (Decidable (∀ j, j < threadNum → ¬ (c.points j).ReadsTid))
  | .idle | .ioCli _ | .gen _ _ | .test _ _ | .runCli _ _ | .setState _ _ | .setIndex _ _ | .setPtid _ _
  | .setDict _ _ | .incGlobal _ _ | .runSti _ _ | .put _ _ _ | .ioSti _ | .ret _ => .isTrue trivial

instance (s : Creation) (e : Event ℕ CreatePoint) : Decidable (s.Undisputed e) :=
  match e with
  | .stmt => inferInstanceAs (Decidable ((createThreads.point s.config).Undisputed s.config))
  | .call _ | .tick _ => .isTrue trivial

namespace Kernel

variable {k : Kernel}

theorem Stocked.housed (h : k.Stocked) : k.Housed := by
  obtain ⟨free, live, hw, hblocks, -⟩ := h.heap
  refine ⟨h.table, h.unused, free, live, hw, ?_⟩
  intro i t hi ht
  by_cases hl : k.tasks.Live i
  · obtain ⟨b, hb, hptr⟩ := hblocks i hl
    rw [ht] at hptr
    exact ⟨b, hb, (ThreadPtr.at.inj hptr).symm⟩
  · rw [h.unused i hi hl] at ht
    cases ht

def twoThreads : Kernel := (((zeroKernel.initKernel 0x400000).createThread ⟨0, 0, 0⟩).bind
  (fun x => x.2.createThread ⟨0, 0, 0⟩)).get (by decide +kernel) |>.2

end Kernel

namespace Creation

def twoThreads : Creation := ⟨⟨⟨Kernel.twoThreads, true, fun _ => 0⟩, fun _ => .idle⟩, []⟩

def create : Event ℕ CreatePoint := .call (.ioCli ⟨0, 0, 0⟩)

def turnOps : List (Event ℕ CreatePoint) := create :: List.replicate 4 .stmt ++
  .tick 1 :: create :: List.replicate 20 .stmt ++ .tick 0 :: List.replicate 17 .stmt

def raceOps : List (Event ℕ CreatePoint) := create :: List.replicate 6 .stmt ++
  .tick 1 :: create :: List.replicate 20 .stmt ++ .tick 0 :: List.replicate 14 .stmt

end Creation

theorem Kernel.twoThreads_stocked : Kernel.twoThreads.Stocked := by
  have hinit : (zeroKernel.initKernel 0x400000).Stocked := initKernel_stocked (by decide) (by decide)
  obtain ⟨_, k₁, hk₁, hcreated⟩ := hinit.createThread rfl ⟨0, 0, 0⟩
  have hcur : k₁.tasks.getCurThreadTid = some (k₁.tasks.tidIndexDict 0) := by
    rw [Tasks.getCurThreadTid, hcreated.cur]
    rfl
  obtain ⟨_, k₂, hk₂, hcreated₂⟩ := hcreated.stocked.createThread hcur ⟨0, 0, 0⟩
  have hsame : Kernel.twoThreads = k₂ := by
    simp only [twoThreads, hk₁, Option.bind_some, hk₂, Option.get_some]
  rw [hsame]
  exact hcreated₂.stocked

theorem createThread_registered_example : ∃ s, Run (fun (s : Creation) e t => s.exec e = some t ∧
      s.Undisputed e) Creation.twoThreads Creation.turnOps s ∧
    s.returns.map CreateReturn.tid = [2, 3] ∧ s.Registered := by
  have hvals : (execAll (fun (s : Creation) e => if s.Undisputed e then s.exec e else none)
      Creation.twoThreads Creation.turnOps).map (fun s => s.returns.map CreateReturn.tid) =
        some [2, 3] := by decide +kernel
  obtain ⟨s, hexec, htids⟩ := Option.map_eq_some_iff.mp hvals
  have hrun : Run (fun (s : Creation) e t => s.exec e = some t ∧ s.Undisputed e) Creation.twoThreads
      Creation.turnOps s :=
    (execAll_run hexec).mono (fun h => (Option.ite_none_right_eq_some.mp h).symm)
  have hr : Kernel.twoThreads.tasks.Running 0 := ⟨by decide +kernel, by decide, by decide +kernel⟩
  exact ⟨s, hrun, htids, createThread_registered Kernel.twoThreads_stocked.housed hr
    (by decide +kernel) hrun⟩

/-- Both threads take the same entry, and one of the new threads is not in the table. -/
theorem createThread_overwritten : ∃ s, Run (fun (s : Creation) e t => s.exec e = some t)
      Creation.twoThreads Creation.raceOps s ∧ s.returns.map CreateReturn.tid = [2, 3] ∧
    ¬ s.Registered := by
  have hvals : (execAll Creation.exec Creation.twoThreads Creation.raceOps).map (fun s =>
      (s.returns.map CreateReturn.tid, s.returns.map (fun r =>
        (s.config.state.kernel.tasks.obj (.at r.thread)).index))) = some ([2, 3], [2, 2]) := by
    decide +kernel
  obtain ⟨s, hexec, hvals⟩ := Option.map_eq_some_iff.mp hvals
  obtain ⟨htids, hentries⟩ := Prod.mk.inj hvals
  refine ⟨s, execAll_run hexec, htids, fun h => ?_⟩
  have hnodup := h.entries
  rw [hentries] at hnodup
  simp at hnodup

end MinOS
