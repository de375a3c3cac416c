import MinOS.Library.Channels
import MinOS.PipeCalls

namespace MinOS

open Library.Runs Library.Channels

namespace Core

variable {m u : Core} {f : PipeFun} {buf n ps ptr c₁ c₂ a i k p : ℕ} {t : ThreadPtr}

@[simp] theorem bytes_length (m : Core) (p n : ℕ) : (m.bytes p n).length = n := by
  rw [bytes, List.length_map, List.length_range]

theorem bytes_take (m : Core) (p k n : ℕ) : (m.bytes p n).take k = m.bytes p (min k n) := by
  rw [bytes, bytes, ← List.map_take, List.take_range]

theorem memcpy_mem_other (h : a < c₁ ∨ c₁ + n ≤ a) : (m.memcpy c₁ c₂ n).mem a = m.mem a := by
  induction n with
  | zero => rfl
  | succ n ih =>
    have hne : a ≠ c₁ + n := by omega
    exact (Function.update_of_ne hne ..).trans (ih (by omega))

theorem memcpy_mem (hapart : c₁ + n ≤ c₂ ∨ c₂ + n ≤ c₁) (hi : i < n) :
    (m.memcpy c₁ c₂ n).mem (c₁ + i) = m.mem (c₂ + i) := by
  induction n with
  | zero => omega
  | succ n ih =>
    by_cases hin : i = n
    · subst hin
      exact (Function.update_self ..).trans (memcpy_mem_other (by omega))
    · have hne : c₁ + i ≠ c₁ + n := by omega
      exact (Function.update_of_ne hne ..).trans (ih (by omega) (by omega))

theorem setPstate_pipes (hps : m.pstruct t = ps) (hptr : (m.kernel.pipes ps).pipePtr = ptr)
    (pstate : PipeState) : (m.setPstate t pstate).kernel.pipes ps = ⟨ptr, pstate⟩ := by
  subst hps hptr
  exact Function.update_self ..

structure Called (m : Core) (f : PipeFun) (buf n ps ptr : ℕ) (m' : Core) : Prop where
  tasks : m'.kernel.tasks = m.kernel.tasks
  pipe : m'.kernel.pipes ps = ⟨ptr, f.leaves⟩
  copied : ∀ i, i < n → m'.mem (f.dst ptr buf + i) = m.mem (f.src ptr buf + i)
  other : ∀ a, a < f.dst ptr buf ∨ f.dst ptr buf + n ≤ a → m'.mem a = m.mem a

theorem pipeCall_called (hcur : m.curThreadPtr = some (t, u)) (hps : m.pstruct t = ps)
    (hpipe : m.kernel.pipes ps = ⟨ptr, f.expects⟩) (hn : n ≤ npipeQueue) (hapart : Apart n ptr buf) :
    ∃ m', m.pipeCall f buf n = some (1, m') ∧ Called m f buf n ps ptr m' := by
  have hself : m.pipe t = ⟨ptr, f.expects⟩ := by rw [Core.pipe, hps, hpipe]
  obtain ⟨hkernel, hmem⟩ := curThreadPtr_fields hcur
  refine ⟨_, pipeCall_of_expects hcur (by rw [hself]), ?_⟩
  rw [hself]
  obtain ⟨hcopy, -⟩ := memcpy_fields (u.setPstate t f.during) (f.dst ptr buf) (f.src ptr buf) n
  constructor
  · exact (congrArg Kernel.tasks hcopy).trans (congrArg Kernel.tasks hkernel :)
  · have hu : u.pstruct t = ps := by rw [Core.pstruct, hkernel, ← hps, Core.pstruct]
    have hptr : (u.kernel.pipes ps).pipePtr = ptr := by rw [hkernel, hpipe]
    apply setPstate_pipes
    · rw [Core.pstruct, hcopy]
      exact hu
    · rw [hcopy, setPstate_pipes hu hptr]
  · intro i hi
    refine (memcpy_mem ?_ hi).trans (congrFun hmem _)
    unfold Apart at hapart
    cases f with
    | pread =>
      simp only [PipeFun.dst, PipeFun.src]
      omega
    | pwrite =>
      simp only [PipeFun.dst, PipeFun.src]
      omega
  · intro a ha
    exact (memcpy_mem_other ha).trans (congrFun hmem a)

end Core

structure Talk where
  core : Core
  history : List (Event (List (BitVec 8)) (List (BitVec 8)))

inductive TalkOp where
  | call (f : PipeFun) (buf n : ℕ)
  | between

def Talk.record (s : Talk) (f : PipeFun) (buf n : ℕ) (r : ℤ) (m : Core) : Talk :=
  ⟨m, if r = 1 then s.history ++ [match f with
    | .pwrite => .put (s.core.bytes buf n)
    | .pread => .get (m.bytes buf n)] else s.history⟩

inductive TalkStep (ps ptr : ℕ) : Talk → TalkOp → Talk → Prop
  | call {s : Talk} {f : PipeFun} {buf n : ℕ} {t : ThreadPtr} {u m : Core} {r : ℤ} :
      s.core.curThreadPtr = some (t, u) → s.core.pstruct t = ps → n ≤ npipeQueue → Apart n ptr buf →
      s.core.pipeCall f buf n = some (r, m) → TalkStep ps ptr s (.call f buf n) (s.record f buf n r m)
  | between {s : Talk} {m : Core} : m.kernel.pipes ps = s.core.kernel.pipes ps →
      (∀ i : ℕ, i < npipeQueue → m.mem (ptr + i) = s.core.mem (ptr + i)) →
      TalkStep ps ptr s .between ⟨m, s.history⟩

def Agree (msg b : List (BitVec 8)) : Prop := b.take msg.length = msg.take b.length

namespace Talk

def Carries (s : Talk) (ps ptr : ℕ) : Option (List (BitVec 8)) → Prop
  | none => s.core.kernel.pipes ps = ⟨ptr, .empty⟩
  | some msg => s.core.kernel.pipes ps = ⟨ptr, .exist⟩ ∧ msg.length ≤ npipeQueue ∧
      s.core.bytes ptr msg.length = msg

variable {s t : Talk} {ps ptr : ℕ} {op : TalkOp} {o : Option (List (BitVec 8))} {msg b : List (BitVec 8)}

theorem Carries.congr {m : Core} {history : List (Event (List (BitVec 8)) (List (BitVec 8)))}
    (h : s.Carries ps ptr o) (hpipe : m.kernel.pipes ps = s.core.kernel.pipes ps)
    (hmem : ∀ i : ℕ, i < npipeQueue → m.mem (ptr + i) = s.core.mem (ptr + i)) :
    Carries ⟨m, history⟩ ps ptr o := by
  cases o with
  | none => exact hpipe.trans h
  | some msg =>
    obtain ⟨hself, hlen, hbytes⟩ := h
    refine ⟨hpipe.trans hself, hlen, Eq.trans ?_ hbytes⟩
    exact bytes_congr (fun i hi => hmem i (by omega))

theorem refused {f : PipeFun} {buf n : ℕ} {p : ThreadPtr} {u m : Core} {r : ℤ}
    (hcur : s.core.curThreadPtr = some (p, u)) (hps : s.core.pstruct p = ps)
    (hcall : s.core.pipeCall f buf n = some (r, m)) (h : s.Carries ps ptr o)
    (hstate : (s.core.kernel.pipes ps).pstate ≠ f.expects) :
    (s.record f buf n r m).history = s.history ∧ (s.record f buf n r m).Carries ps ptr o := by
  obtain ⟨hkernel, hmem⟩ := Core.curThreadPtr_fields hcur
  have hne : (s.core.pipe p).pstate ≠ f.expects := by rwa [Core.pipe, hps]
  obtain ⟨rfl, rfl⟩ := Prod.mk.inj (Option.some.inj (hcall.symm.trans (Core.pipeCall_of_ne hcur hne)))
  exact ⟨rfl, h.congr (by rw [hkernel]) (fun i _ => by rw [hmem])⟩

theorem step_exchange (h : Exchange Agree s.history o ∧ s.Carries ps ptr o) (hstep : TalkStep ps ptr s op t) :
    ∃ o', Exchange Agree t.history o' ∧ t.Carries ps ptr o' := by
  obtain ⟨hex, hcarries⟩ := h
  cases hstep with
  | between hpipe hmem => exact ⟨o, hex, hcarries.congr hpipe hmem⟩
  | @call f buf n p u m r hcur hps hn hapart hcall =>
    by_cases hstate : (s.core.kernel.pipes ps).pstate = f.expects
    · cases f with
      | pwrite =>
        obtain rfl : o = none := by
          cases o with
          | none => rfl
          | some msg => rw [hcarries.1] at hstate; cases hstate
        have hpipe : s.core.kernel.pipes ps = ⟨ptr, PipeFun.expects .pwrite⟩ := hcarries
        obtain ⟨m', hcall', hcalled⟩ := Core.pipeCall_called hcur hps hpipe hn hapart
        obtain ⟨rfl, rfl⟩ := Prod.mk.inj (Option.some.inj (hcall.symm.trans hcall'))
        refine ⟨some (s.core.bytes buf n), hex.put _, hcalled.pipe, ?_, ?_⟩
        · rwa [Core.bytes_length]
        · rw [Core.bytes_length]
          exact bytes_congr hcalled.copied
      | pread =>
        obtain ⟨msg, rfl⟩ : ∃ msg, o = some msg := by
          cases o with
          | none => rw [show s.core.kernel.pipes ps = _ from hcarries] at hstate; cases hstate
          | some msg => exact ⟨msg, rfl⟩
        obtain ⟨hself, -, hbytes⟩ := hcarries
        have hpipe : s.core.kernel.pipes ps = ⟨ptr, PipeFun.expects .pread⟩ := hself
        obtain ⟨m', hcall', hcalled⟩ := Core.pipeCall_called hcur hps hpipe hn hapart
        obtain ⟨rfl, rfl⟩ := Prod.mk.inj (Option.some.inj (hcall.symm.trans hcall'))
        refine ⟨none, hex.get ?_, hcalled.pipe⟩
        have hcopied : m.bytes buf (min msg.length n) = s.core.bytes ptr (min msg.length n) :=
          bytes_congr (fun i hi => hcalled.copied i (by omega))
        rw [Agree, Core.bytes_length, Core.bytes_take, hcopied, min_comm, ← Core.bytes_take, hbytes]
    · obtain ⟨hsame, hcarries'⟩ := refused hcur hps hcall hcarries hstate
      exact ⟨o, hsame.symm ▸ hex, hcarries'⟩

structure Starts (s : Talk) (ps ptr : ℕ) : Prop where
  history : s.history = []
  pipe : s.core.kernel.pipes ps = ⟨ptr, .empty⟩

theorem Starts.exchange {ops : List TalkOp} (h : s.Starts ps ptr) (hrun : Run (TalkStep ps ptr) s ops t) :
    ∃ o, Exchange Agree t.history o ∧ t.Carries ps ptr o :=
  hrun.invariant (I := fun t => ∃ o, Exchange Agree t.history o ∧ t.Carries ps ptr o)
    ⟨none, h.history.symm ▸ .nil, h.pipe⟩ (fun ⟨_, h⟩ hstep => step_exchange h hstep)

theorem exists_call {f : PipeFun} {buf n c : ℕ} (hc : s.core.kernel.tasks.Consistent)
    (hr : s.core.kernel.tasks.Running c) (hps : (s.core.kernel.tasks.thread c).pstruct = ps)
    (hpipe : s.core.kernel.pipes ps = ⟨ptr, f.expects⟩) (hn : n ≤ npipeQueue) (hapart : Apart n ptr buf) :
    ∃ m, TalkStep ps ptr s (.call f buf n) (s.record f buf n 1 m) ∧
      Core.Called s.core f buf n ps ptr m := by
  have hcur := Core.curThreadPtr_eq hc hr
  obtain ⟨m, hcall, hcalled⟩ := Core.pipeCall_called hcur hps hpipe hn hapart
  exact ⟨m, .call hcur hps hn hapart hcall, hcalled⟩

def filled (msg : List (BitVec 8)) (x : BitVec 8) : Talk :=
  ⟨⟨Kernel.pipeKernel, true, fun a => if a < 0x7fdf20 then msg.getD (a - 0x2000) 0 else x⟩, []⟩

theorem filled_starts (msg : List (BitVec 8)) (x : BitVec 8) :
    (filled msg x).Starts 0x7fef30 0x7fdf20 := by
  have hptr : (Kernel.pipeKernel.pipes 0x7fef30).pipePtr = 0x7fdf20 := by decide +kernel
  refine ⟨rfl, ?_⟩
  rw [← hptr, ← Kernel.pipeKernel_paired.empty]
  rfl

theorem filled_bytes (hmsg : msg.length ≤ npipeQueue) (x : BitVec 8) :
    (filled msg x).core.bytes 0x2000 msg.length = msg := by
  have hlen : msg.length ≤ 4096 := Int.ofNat_le.mp hmsg
  apply List.ext_getElem (Core.bytes_length ..)
  intro i hi hi'
  have hlt : 0x2000 + i < 0x7fdf20 := by omega
  simp [Core.bytes, filled, hlt, hi']

theorem filled_talk (hmsg : msg.length ≤ npipeQueue) {n : ℕ} (hn : n ≤ npipeQueue) (x : BitVec 8) :
    ∃ t b, Run (TalkStep 0x7fef30 0x7fdf20) (filled msg x)
        [.call .pwrite 0x2000 msg.length, .call .pread 0x4000 n] t ∧
      t.history = [.put msg, .get b] ∧ b.length = n ∧ (msg.length < n → b[msg.length]? = some x) := by
  have hlen : msg.length ≤ 4096 := Int.ofNat_le.mp hmsg
  have hn' : n ≤ 4096 := Int.ofNat_le.mp hn
  have hps : (Kernel.pipeKernel.tasks.thread 1).pstruct = 0x7fef30 := by decide +kernel
  have hrunning : Kernel.pipeKernel.tasks.Running 1 := Kernel.pipeKernel_paired.running
  obtain ⟨m₁, hwrite, hcalled₁⟩ := exists_call (s := filled msg x) (f := .pwrite)
    Kernel.pipeKernel_paired.table hrunning hps (filled_starts msg x).pipe hmsg
    (.inl (show 0x2000 + msg.length ≤ 0x7fdf20 by omega))
  have htasks : m₁.kernel.tasks = Kernel.pipeKernel.tasks := hcalled₁.tasks
  obtain ⟨m₂, hread, hcalled₂⟩ :=
    exists_call (s := (filled msg x).record .pwrite 0x2000 msg.length 1 m₁) (f := .pread) (n := n)
      (htasks ▸ Kernel.pipeKernel_paired.table) (htasks ▸ hrunning) (htasks ▸ hps) hcalled₁.pipe hn
      (.inl (show 0x4000 + n ≤ 0x7fdf20 by omega))
  refine ⟨_, m₂.bytes 0x4000 n, .cons hwrite (.single hread), ?_, Core.bytes_length .., fun hlt => ?_⟩
  · have hput := filled_bytes hmsg x
    simp only [record, if_true, hput, (filled_starts msg x).history, List.nil_append, List.cons_append]
  · have hlast : m₂.mem (0x4000 + msg.length) = x := by
      refine (hcalled₂.copied msg.length hlt).trans ((hcalled₁.other _ (.inr (le_refl _))).trans ?_)
      exact if_neg (by simp [PipeFun.dst])
    simp [Core.bytes, hlt, hlast]

end Talk

/-- Messages go in and come out by turns, beginning with a `pwrite`. What a `pread` delivers depends on
the message alone exactly when it asks for no more than that. -/
theorem pipe_messages (msg : List (BitVec 8)) (n : ℕ) :
    (∀ (ps ptr : ℕ) (s t : Talk) (ops : List TalkOp), s.Starts ps ptr → Run (TalkStep ps ptr) s ops t →
      ∀ i e, t.history[i]? = some e → e.isPut = decide (i % 2 = 0)) ∧
    (msg.length ≤ npipeQueue → n ≤ npipeQueue →
      ((∀ (ps ptr ps' ptr' : ℕ) (s t s' t' : Talk) (ops ops' : List TalkOp), s.Starts ps ptr →
          Run (TalkStep ps ptr) s ops t → s'.Starts ps' ptr' → Run (TalkStep ps' ptr') s' ops' t' →
          ∀ es rest es' rest' b b', t.history = es ++ .put msg :: .get b :: rest →
            t'.history = es' ++ .put msg :: .get b' :: rest' → b.length = n → b'.length = n → b = b') ↔
        n ≤ msg.length)) := by
  constructor
  · intro ps ptr s t ops hstart hrun i e he
    obtain ⟨o, hex, -⟩ := hstart.exchange hrun
    exact hex.alternates he
  · intro hmsg hn
    constructor
    · intro hsame
      by_contra hlt
      obtain ⟨t, b, hrun, hhist, hlen, hbyte⟩ := Talk.filled_talk hmsg hn 0
      obtain ⟨t', b', hrun', hhist', hlen', hbyte'⟩ := Talk.filled_talk hmsg hn 1
      have heq := hsame _ _ _ _ _ _ _ _ _ _ (Talk.filled_starts msg 0) hrun (Talk.filled_starts msg 1)
        hrun' [] [] [] [] b b' hhist hhist' hlen hlen'
      rw [heq, hbyte' (by omega)] at hbyte
      exact absurd (Option.some.inj (hbyte (by omega))) (by decide)
    · intro hle ps ptr ps' ptr' s t s' t' ops ops' hstart hrun hstart' hrun' es rest es' rest' b b' hhist
        hhist' hlen hlen'
      obtain ⟨o, hex, -⟩ := hstart.exchange hrun
      obtain ⟨o', hex', -⟩ := hstart'.exchange hrun'
      have hfit : Agree msg b := (hhist ▸ hex).fits_next
      have hfit' : Agree msg b' := (hhist' ▸ hex').fits_next
      rw [Agree, List.take_of_length_le (by omega), hlen] at hfit
      rw [Agree, List.take_of_length_le (by omega), hlen'] at hfit'
      rw [hfit, hfit']

/-- One byte is sent and two are read: the second is what was in the pipe before. -/
theorem pread_old_bytes : ∃ t t' b b', (Talk.filled [7] 0).Starts 0x7fef30 0x7fdf20 ∧
    (Talk.filled [7] 1).Starts 0x7fef30 0x7fdf20 ∧
    Run (TalkStep 0x7fef30 0x7fdf20) (Talk.filled [7] 0)
      [.call .pwrite 0x2000 1, .call .pread 0x4000 2] t ∧
    Run (TalkStep 0x7fef30 0x7fdf20) (Talk.filled [7] 1)
      [.call .pwrite 0x2000 1, .call .pread 0x4000 2] t' ∧
    t.history = [.put [7], .get b] ∧ t'.history = [.put [7], .get b'] ∧
    b[1]? = some 0 ∧ b'[1]? = some 1 ∧ b ≠ b' := by
  have hmsg : ([7] : List (BitVec 8)).length ≤ npipeQueue := by decide
  obtain ⟨t, b, hrun, hhist, -, hbyte⟩ := Talk.filled_talk hmsg (n := 2) (by decide) 0
  obtain ⟨t', b', hrun', hhist', -, hbyte'⟩ := Talk.filled_talk hmsg (n := 2) (by decide) 1
  have hold : b[1]? = some 0 := hbyte (by decide)
  have hold' : b'[1]? = some 1 := hbyte' (by decide)
  refine ⟨t, t', b, b', Talk.filled_starts _ _, Talk.filled_starts _ _, hrun, hrun', hhist, hhist', hold,
    hold', ?_⟩
  rintro rfl
  rw [hold] at hold'
  exact absurd (Option.some.inj hold') (by decide)

end MinOS
