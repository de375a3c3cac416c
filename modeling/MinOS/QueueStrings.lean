import MinOS.QueueChar

namespace MinOS

open Library.Loops Library.Queues Library.Runs

namespace QueueChar

variable {que que' : QueueChar} {c : BitVec 8} {cs : List (BitVec 8)} {r : Dequeued}

theorem free_push (hnum : que.num < queueSize) : que.free = (que.push c).free + 1 := by
  simp only [free, push]
  omega

theorem free_eq_zero_iff : que.free = 0 ↔ ¬ que.num < queueSize := by
  rw [free, Int.toNat_eq_zero]
  omega

theorem enqueueChar_cases (que : QueueChar) (c : BitVec 8) :
    (que.enqueueChar c = none ∧ que.free = 0) ∨
      (que.num < queueSize ∧ que.enqueueChar c = some (que.push c)) := by
  by_cases hnum : que.num < queueSize
  · exact .inr ⟨hnum, if_pos hnum⟩
  · exact .inl ⟨if_neg hnum, free_eq_zero_iff.mpr hnum⟩

structure Enqueued (que : QueueChar) (cs : List (BitVec 8)) (x : ℤ × QueueChar) : Prop where
  wellFormed : x.2.WellFormed
  chars : x.2.chars = que.chars ++ cs.take que.free
  ret : x.1 = if cs.length ≤ que.free then 1 else 0

theorem Enqueued.full (h : que.WellFormed) (hfree : que.free = 0) (hcs : cs ≠ []) :
    Enqueued que cs (0, que) := by
  have hpos := List.length_pos_iff.mpr hcs
  constructor
  · exact h
  · rw [hfree, List.take_zero, List.append_nil]
  · rw [if_neg (by omega)]

theorem Enqueued.push {x : ℤ × QueueChar} (h : que.WellFormed) (hnum : que.num < queueSize)
    (hrest : Enqueued (que.push c) cs x) : Enqueued que (c :: cs) x := by
  obtain ⟨hwf, hchars, hret⟩ := hrest
  have hfree := free_push (c := c) hnum
  constructor
  · exact hwf
  · rw [hchars, chars_push h hnum, hfree, List.take_succ_cons, List.append_assoc]
    rfl
  · rw [hret, hfree, List.length_cons]
    simp only [Nat.add_le_add_iff_right]

theorem enqueueChars_enqueued (h : que.WellFormed) (cs : List (BitVec 8)) :
    Enqueued que (cs ++ [0]) (que.enqueueChars cs) := by
  induction cs generalizing que with
  | nil =>
    rw [enqueueChars]
    rcases enqueueChar_cases que 0 with ⟨hnone, hfree⟩ | ⟨hnum, hsome⟩
    · rw [hnone]
      exact .full h hfree (by simp)
    · rw [hsome]
      apply Enqueued.push h hnum
      exact ⟨h.push hnum, by simp, by simp⟩
  | cons c cs ih =>
    rw [enqueueChars]
    rcases enqueueChar_cases que c with ⟨hnone, hfree⟩ | ⟨hnum, hsome⟩
    · rw [hnone]
      exact .full h hfree (by simp)
    · rw [hsome]
      exact .push h hnum (ih (h.push hnum))

theorem enqueueStr_enqueued (h : que.WellFormed) (s : CString) :
    Enqueued que s.bytes (que.enqueueStr s) := enqueueChars_enqueued h s.chars

def EnqueuesWhole (que : QueueChar) (s : CString) : Prop :=
  ((que.enqueueStr s).1 = 1 ∧ (que.enqueueStr s).2.chars = que.chars ++ s.bytes ∨
    (que.enqueueStr s).1 = 0 ∧ (que.enqueueStr s).2.chars = que.chars) ∧
  ((que.enqueueStr s).1 = 1 ↔ s.chars.length + 1 ≤ que.free)

theorem enqueuesWhole_of_wellFormed (h : que.WellFormed) (s : CString) :
    que.EnqueuesWhole s ↔ s.chars.length + 1 ≤ que.free ∨ que.free = 0 := by
  obtain ⟨-, hchars, hret⟩ := enqueueStr_enqueued h s
  have hlen : s.bytes.length = s.chars.length + 1 := by simp [CString.bytes]
  rw [EnqueuesWhole, hchars, hret, hlen]
  by_cases hfit : s.chars.length + 1 ≤ que.free
  · rw [if_pos hfit, List.take_of_length_le (hlen ▸ hfit)]
    simp [hfit]
  · rw [if_neg hfit]
    have htake : que.chars ++ s.bytes.take que.free = que.chars ↔ que.free = 0 := by
      rw [List.append_right_eq_self, List.take_eq_nil_iff]
      simp [CString.bytes]
    simp [htake, hfit]

def behind (que : QueueChar) : BitVec 8 := que.data ((que.head + que.num).tmod queueSize)

def HoldsString (que : QueueChar) : Prop := 0 ∈ que.chars.dropWhile (· == 0)

instance (que : QueueChar) : Decidable que.HoldsString := inferInstanceAs (Decidable (_ ∈ _))

theorem behind_pop (h : que.WellFormed) (hnum : 0 < que.num) : que.pop.behind = que.behind := by
  have hhead := h.head_nonneg
  have hcell : ((que.head + 1).tmod queueSize + (que.num - 1)).tmod queueSize =
      (que.head + que.num).tmod queueSize := by
    rw [tmod_add (by decide) (by omega) (by omega)]
    congr 1
    omega
  exact congrArg que.data hcell

theorem queueCharHead_of_empty (h : que.WellFormed) (hnum : que.num = 0) :
    que.queueCharHead = que.behind := by
  rw [queueCharHead, behind, hnum, Int.add_zero, Int.tmod_eq_of_lt h.head_nonneg h.head_lt]

theorem WellFormed.chars_cases (h : que.WellFormed) :
    (que.num = 0 ∧ que.chars = []) ∨ (0 < que.num ∧ que.chars = que.queueCharHead :: que.pop.chars) := by
  have hnonneg := h.num_nonneg
  by_cases hnum : 0 < que.num
  · exact .inr ⟨hnum, chars_eq_cons h hnum⟩
  · have hzero : que.num = 0 := by omega
    refine .inl ⟨hzero, ?_⟩
    rw [← List.length_eq_zero_iff, length_chars, hzero]
    rfl

theorem WellFormed.of_nil (h : que.WellFormed) (hchars : que.chars = []) : que.num = 0 := by
  rcases h.chars_cases with ⟨hnum, -⟩ | ⟨-, hcons⟩
  · exact hnum
  · rw [hchars] at hcons
    cases hcons

theorem WellFormed.of_cons (h : que.WellFormed) (hchars : que.chars = c :: cs) :
    0 < que.num ∧ que.queueCharHead = c ∧ que.pop.chars = cs ∧ que.pop.WellFormed := by
  rcases h.chars_cases with ⟨-, hnil⟩ | ⟨hnum, hcons⟩
  · rw [hnil] at hchars
    cases hchars
  · rw [hchars] at hcons
    obtain ⟨hc, hrest⟩ := List.cons.inj hcons
    exact ⟨hnum, hc.symm, hrest.symm, h.pop hnum⟩

theorem dequeueChar_of_pos (hnum : 0 < que.num) :
    que.dequeueChar = some (que.queueCharHead, que.pop) := if_pos hnum

theorem dequeueChar_of_empty (hnum : que.num = 0) : que.dequeueChar = none := if_neg (by omega)

theorem skipNul_nul (hnum : 0 < que.num) (hhead : que.queueCharHead = 0) :
    que.skipNul = .inl que.pop := by
  rw [skipNul, if_pos hhead, dequeueChar_of_pos hnum]

theorem skipNul_empty (hnum : que.num = 0) (hhead : que.queueCharHead = 0) :
    que.skipNul = .inl que := by
  rw [skipNul, if_pos hhead, dequeueChar_of_empty hnum]

theorem skipNul_char (hhead : que.queueCharHead ≠ 0) : que.skipNul = .inr que := if_neg hhead

theorem skip_of_char (h : que.WellFormed) (hchar : ∃ c ∈ que.chars, c ≠ 0) :
    ∃ que', Ends skipNul que que' ∧ que'.WellFormed ∧ que'.chars = que.chars.dropWhile (· == 0) := by
  generalize hcs : que.chars = cs at hchar
  induction cs generalizing que with
  | nil => simp at hchar
  | cons c cs ih =>
    obtain ⟨hnum, rfl, hrest, hwf⟩ := h.of_cons hcs
    by_cases hnul : que.queueCharHead = 0
    · obtain ⟨d, hd, hne⟩ := hchar
      rcases List.mem_cons.mp hd with rfl | hd
      · exact absurd hnul hne
      · obtain ⟨que', hends, hwf', hchars⟩ := ih hwf hrest ⟨d, hd, hne⟩
        refine ⟨que', (ends_of_inl (skipNul_nul hnum hnul)).mpr hends, hwf', ?_⟩
        rw [hchars, hnul, List.dropWhile_cons_of_pos rfl]
    · refine ⟨que, ends_of_inr (skipNul_char hnul), h, ?_⟩
      rw [hcs, List.dropWhile_cons_of_neg]
      simpa using hnul

theorem skip_stays {q : QueueChar} (hnum : que.num = 0) (hhead : que.queueCharHead = 0) :
    ¬ Ends skipNul que q := by
  have hstep : ∀ s, s = que → ∃ t, s.skipNul = .inl t ∧ t = que := by
    rintro s rfl
    exact ⟨s, skipNul_empty hnum hhead, rfl⟩
  exact not_ends hstep rfl

theorem skip_of_nuls (h : que.WellFormed) (hnuls : ∀ c ∈ que.chars, c = 0) :
    ∃ que', que'.WellFormed ∧ que'.num = 0 ∧
      ∀ q, Ends skipNul que q ↔ que.behind ≠ 0 ∧ q = que' := by
  generalize hcs : que.chars = cs at hnuls
  induction cs generalizing que with
  | nil =>
    have hnum := h.of_nil hcs
    refine ⟨que, h, hnum, fun q => ?_⟩
    rw [← queueCharHead_of_empty h hnum]
    by_cases hnul : que.queueCharHead = 0
    · have hstay : ¬ Ends skipNul que q := skip_stays hnum hnul
      simp [hstay, hnul]
    · have hends := ends_of_inr (skipNul_char hnul)
      constructor
      · intro hq
        exact ⟨hnul, hq.unique hends⟩
      · rintro ⟨-, rfl⟩
        exact hends
  | cons c cs ih =>
    obtain ⟨hnum, rfl, hrest, hwf⟩ := h.of_cons hcs
    obtain ⟨que', hwf', hempty, hends⟩ := ih hwf hrest (fun d hd => hnuls d (List.mem_cons_of_mem _ hd))
    refine ⟨que', hwf', hempty, fun q => ?_⟩
    rw [ends_of_inl (skipNul_nul hnum (hnuls _ List.mem_cons_self)), hends, behind_pop h hnum]

theorem deliver_empty (hnum : que.num = 0) (buf : List (BitVec 8)) :
    deliver (buf, que) = .inr ⟨0, buf, que⟩ := by
  rw [deliver, dequeueChar_of_empty hnum]

theorem deliver_char (hnum : 0 < que.num) (hhead : que.queueCharHead ≠ 0) (buf : List (BitVec 8)) :
    deliver (buf, que) = .inl (buf ++ [que.queueCharHead], que.pop) := by
  rw [deliver, dequeueChar_of_pos hnum]
  exact if_pos hhead

theorem deliver_nul (hnum : 0 < que.num) (hhead : que.queueCharHead = 0) (buf : List (BitVec 8)) :
    deliver (buf, que) = .inr ⟨1, buf ++ [0], que.pop⟩ := by
  rw [deliver, dequeueChar_of_pos hnum, hhead]
  exact if_neg (not_not_intro rfl)

theorem deliver_fragment (h : que.WellFormed) (hcs : 0 ∉ que.chars) (buf : List (BitVec 8)) :
    ∃ que', que'.WellFormed ∧ Ends deliver (buf, que) ⟨0, buf ++ que.chars, que'⟩ := by
  generalize hchars : que.chars = cs at hcs
  induction cs generalizing que buf with
  | nil =>
    rw [List.append_nil]
    exact ⟨que, h, ends_of_inr (deliver_empty (h.of_nil hchars) buf)⟩
  | cons c cs ih =>
    obtain ⟨hnum, rfl, hrest, hwf⟩ := h.of_cons hchars
    rw [List.mem_cons, not_or] at hcs
    obtain ⟨que', hwf', hends⟩ := ih hwf (buf ++ [que.queueCharHead]) hrest hcs.2
    refine ⟨que', hwf', (ends_of_inl (deliver_char hnum (Ne.symm hcs.1) buf)).mpr ?_⟩
    rwa [List.append_assoc] at hends

theorem deliver_string {s rest : List (BitVec 8)} (h : que.WellFormed)
    (hchars : que.chars = s ++ 0 :: rest) (hs : 0 ∉ s) (buf : List (BitVec 8)) :
    ∃ que', que'.WellFormed ∧ que'.chars = rest ∧
      Ends deliver (buf, que) ⟨1, buf ++ (s ++ [0]), que'⟩ := by
  induction s generalizing que buf with
  | nil =>
    obtain ⟨hnum, hnul, hrest, hwf⟩ := h.of_cons hchars
    exact ⟨que.pop, hwf, hrest, ends_of_inr (deliver_nul hnum hnul buf)⟩
  | cons c s ih =>
    obtain ⟨hnum, rfl, hrest, hwf⟩ := h.of_cons hchars
    rw [List.mem_cons, not_or] at hs
    obtain ⟨que', hwf', hleft, hends⟩ := ih hwf hrest hs.2 (buf ++ [que.queueCharHead])
    refine ⟨que', hwf', hleft, (ends_of_inl (deliver_char hnum (Ne.symm hs.1) buf)).mpr ?_⟩
    rwa [List.append_assoc] at hends

theorem dequeuesStr_iff : que.DequeuesStr r ↔
    ∃ que', Ends skipNul que que' ∧ Ends deliver ([], que') r := by
  constructor
  · rintro ⟨fuel, h⟩
    obtain ⟨que', hskip, hdeliver⟩ := Option.bind_eq_some_iff.mp h
    exact ⟨que', ⟨fuel, hskip⟩, ⟨fuel, hdeliver⟩⟩
  · rintro ⟨que', ⟨fuel, hskip⟩, ⟨fuel', hdeliver⟩⟩
    exact ⟨max fuel fuel', Option.bind_eq_some_iff.mpr
      ⟨que', loop_mono hskip (Nat.le_max_left ..), loop_mono hdeliver (Nat.le_max_right ..)⟩⟩

theorem DequeuesStr.unique {r' : Dequeued} (h : que.DequeuesStr r) (h' : que.DequeuesStr r') :
    r = r' := by
  obtain ⟨que₁, hskip, hdeliver⟩ := dequeuesStr_iff.mp h
  obtain ⟨que₂, hskip', hdeliver'⟩ := dequeuesStr_iff.mp h'
  obtain rfl := hskip.unique hskip'
  exact hdeliver.unique hdeliver'

theorem deliver_ends (h : que.WellFormed) : ∃ r, r.que.WellFormed ∧ Ends deliver ([], que) r ∧
    (r.ret = 1 ↔ 0 ∈ que.chars) := by
  by_cases hnul : 0 ∈ que.chars
  · obtain ⟨s, rest, hchars, hs⟩ := List.eq_append_cons_of_mem hnul
    obtain ⟨que', hwf, -, hends⟩ := deliver_string h hchars hs []
    exact ⟨_, hwf, hends, iff_of_true rfl hnul⟩
  · obtain ⟨que', hwf, hends⟩ := deliver_fragment h hnul []
    have hret : (0 : ℤ) ≠ 1 := by decide
    exact ⟨_, hwf, hends, iff_of_false hret hnul⟩

def DequeuesRight (que : QueueChar) : Prop :=
  ∃ r, que.DequeuesStr r ∧ (r.ret = 1 ↔ que.HoldsString)

theorem dequeuesStr_of_char (h : que.WellFormed) (hchar : ∃ c ∈ que.chars, c ≠ 0) :
    ∃ r, que.DequeuesStr r ∧ r.que.WellFormed ∧ (r.ret = 1 ↔ que.HoldsString) := by
  obtain ⟨que', hskip, hwf, hchars⟩ := skip_of_char h hchar
  obtain ⟨r, hr, hdeliver, hret⟩ := deliver_ends hwf
  rw [hchars] at hret
  exact ⟨r, dequeuesStr_iff.mpr ⟨que', hskip, hdeliver⟩, hr, hret⟩

theorem dequeuesStr_of_nuls (h : que.WellFormed) (hnuls : ∀ c ∈ que.chars, c = 0)
    (hbehind : que.behind ≠ 0) :
    ∃ r, que.DequeuesStr r ∧ r.que.WellFormed ∧ (r.ret = 1 ↔ que.HoldsString) := by
  obtain ⟨que', hwf, hnum, hends⟩ := skip_of_nuls h hnuls
  have hdeliver := ends_of_inr (deliver_empty hnum [])
  refine ⟨_, dequeuesStr_iff.mpr ⟨que', (hends que').mpr ⟨hbehind, rfl⟩, hdeliver⟩, hwf, ?_⟩
  have hnone : que.chars.dropWhile (· == 0) = [] := List.dropWhile_eq_nil_iff.mpr (by simpa using hnuls)
  rw [HoldsString, hnone]
  have hret : (0 : ℤ) ≠ 1 := by decide
  exact iff_of_false hret List.not_mem_nil

theorem not_dequeuesStr (h : que.WellFormed) (hnuls : ∀ c ∈ que.chars, c = 0) (hbehind : que.behind = 0) :
    ¬ que.DequeuesStr r := by
  intro hr
  obtain ⟨que', -, -, hends⟩ := skip_of_nuls h hnuls
  obtain ⟨q, hq, -⟩ := dequeuesStr_iff.mp hr
  exact ((hends q).mp hq).1 hbehind

theorem DequeuesStr.wellFormed (h : que.WellFormed) (hr : que.DequeuesStr r) : r.que.WellFormed := by
  by_cases hchar : ∃ c ∈ que.chars, c ≠ 0
  · obtain ⟨r', hr', hwf, -⟩ := dequeuesStr_of_char h hchar
    rwa [hr.unique hr']
  · push Not at hchar
    by_cases hbehind : que.behind = 0
    · exact absurd hr (not_dequeuesStr h hchar hbehind)
    · obtain ⟨r', hr', hwf, -⟩ := dequeuesStr_of_nuls h hchar hbehind
      rwa [hr.unique hr']

theorem WellFormed.step {op : QueueOp} (h : que.WellFormed) (hstep : QueueStep que op que') :
    que'.WellFormed := by
  cases hstep with
  | enqueueChar c =>
    rcases enqueueChar_cases que c with ⟨hnone, -⟩ | ⟨hnum, hsome⟩
    · rwa [hnone]
    · rw [hsome]
      exact h.push hnum
  | enqueueStr s => exact (enqueueStr_enqueued h s).wellFormed
  | dequeueChar =>
    rcases h.chars_cases with ⟨hnum, -⟩ | ⟨hnum, -⟩
    · rwa [dequeueChar_of_empty hnum]
    · rw [dequeueChar_of_pos hnum]
      exact h.pop hnum
  | dequeueStr hr => exact hr.wellFormed h

theorem Reachable.wellFormed (h : que.Reachable) : que.WellFormed := by
  obtain ⟨que₀, ops, hrun⟩ := h
  exact hrun.invariant (.flush que₀) WellFormed.step

theorem Reachable.flush (que : QueueChar) : que.flushQueueChar.Reachable := ⟨que, [], .nil⟩

/-- Without a character other than NUL, the call leaves the skipping loop only through what stands
in the buffer behind the queue. -/
theorem dequeuesRight_iff (h : que.Reachable) :
    que.DequeuesRight ↔ (∃ c ∈ que.chars, c ≠ 0) ∨ que.behind ≠ 0 := by
  have hwf := h.wellFormed
  by_cases hchar : ∃ c ∈ que.chars, c ≠ 0
  · obtain ⟨r, hr, -, hret⟩ := dequeuesStr_of_char hwf hchar
    exact iff_of_true ⟨r, hr, hret⟩ (.inl hchar)
  · rw [or_iff_right hchar]
    push Not at hchar
    constructor
    · rintro ⟨r, hr, -⟩ hbehind
      exact not_dequeuesStr hwf hchar hbehind hr
    · intro hbehind
      obtain ⟨r, hr, -, hret⟩ := dequeuesStr_of_nuls hwf hchar hbehind
      exact ⟨r, hr, hret⟩

theorem dequeuesRight_iff_letters : (zeroed.flushQueueChar.enqueueStr (.letters 3)).2.DequeuesRight := by
  have hchars : (zeroed.flushQueueChar.enqueueStr (.letters 3)).2.chars = [97, 97, 97, 0] := by decide +kernel
  have hchar : ∃ c ∈ (zeroed.flushQueueChar.enqueueStr (.letters 3)).2.chars, c ≠ 0 := by
    rw [hchars]
    decide
  exact (dequeuesRight_iff ⟨zeroed, [.enqueueStr (.letters 3)], .cons (.enqueueStr _) .nil⟩).mpr (.inl hchar)

/-- The first call on a queue that was just initialized does not return. -/
theorem not_dequeuesRight_zeroed :
    zeroed.flushQueueChar.Reachable ∧ ¬ zeroed.flushQueueChar.DequeuesRight := by
  refine ⟨.flush zeroed, ?_⟩
  rintro ⟨r, hr, -⟩
  exact not_dequeuesStr (.flush zeroed) (List.forall_mem_nil _) rfl hr

theorem enqueuesWhole_iff (h : que.Reachable) (s : CString) :
    que.EnqueuesWhole s ↔ s.chars.length + 1 ≤ que.free ∨ que.free = 0 :=
  enqueuesWhole_of_wellFormed h.wellFormed s

theorem enqueuesWhole_iff_zeroed : zeroed.flushQueueChar.EnqueuesWhole (.letters 3) ↔
    (CString.letters 3).chars.length + 1 ≤ zeroed.flushQueueChar.free ∨ zeroed.flushQueueChar.free = 0 :=
  enqueuesWhole_iff (.flush zeroed) _

theorem not_enqueuesWhole_letters :
    zeroed.flushQueueChar.Reachable ∧ ¬ zeroed.flushQueueChar.EnqueuesWhole (.letters 1600) := by
  refine ⟨.flush zeroed, ?_⟩
  have hfree : zeroed.flushQueueChar.free = 1600 := rfl
  rw [enqueuesWhole_of_wellFormed (.flush zeroed), hfree, CString.letters, List.length_replicate]
  decide

end QueueChar

end MinOS
