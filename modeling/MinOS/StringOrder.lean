import MinOS.QueueStrings

namespace MinOS

open Library.Runs

namespace QueueChar

variable {que que' : QueueChar} {r : Dequeued}

structure Holding (pending : List CString) (que : QueueChar) : Prop where
  wellFormed : que.WellFormed
  nonempty : ∀ s ∈ pending, s.chars ≠ []
  chars : que.chars = pending.flatMap CString.bytes

inductive StringOp where
  | enqueueStr (s : CString)
  | dequeueStr

structure StringQueue where
  que : QueueChar
  accepted : List CString
  delivered : List (List (BitVec 8))

inductive StringStep : StringQueue → StringOp → StringQueue → Prop
  | enqueueStr {t : StringQueue} {s : CString} {que : QueueChar} :
      s.chars ≠ [] → t.que.enqueueStr s = (1, que) →
        StringStep t (.enqueueStr s) ⟨que, t.accepted ++ [s], t.delivered⟩
  | dequeueStr {t : StringQueue} {r : Dequeued} :
      t.que.HoldsString → t.que.DequeuesStr r →
        StringStep t .dequeueStr ⟨r.que, t.accepted, t.delivered ++ [r.buf]⟩

structure InOrder (t : StringQueue) : Prop where
  delivered : t.delivered <+: t.accepted.map CString.bytes
  holdsString_iff : t.que.HoldsString ↔ t.delivered.length < t.accepted.length
  next : ∀ s, t.accepted[t.delivered.length]? = some s →
    ∃ que', ∀ r, t.que.DequeuesStr r ↔ r = ⟨1, s.bytes, que'⟩

variable {s : CString} {pending : List CString} {t t' : StringQueue} {ops : List StringOp}

theorem Holding.empty (hnum : que.num = 0) (hhead : 0 ≤ que.head ∧ que.head < queueSize) :
    Holding [] que := by
  have hsize : 0 ≤ queueSize := by decide
  have hwf : que.WellFormed := ⟨hhead.1, hhead.2, hnum.ge, hnum.trans_le hsize⟩
  refine ⟨hwf, List.forall_mem_nil _, ?_⟩
  rcases hwf.chars_cases with ⟨-, hnil⟩ | ⟨hpos, -⟩
  · exact hnil
  · omega

theorem Holding.enqueueStr (h : Holding pending que) (hs : s.chars ≠ [])
    (heq : que.enqueueStr s = (1, que')) : Holding (pending ++ [s]) que' := by
  obtain ⟨hwf, hchars, hret⟩ := heq ▸ enqueueStr_enqueued h.wellFormed s
  have hfit : s.bytes.length ≤ que.free := by
    by_contra hfit
    rw [if_neg hfit] at hret
    cases hret
  constructor
  · exact hwf
  · intro u hu
    rcases List.mem_append.mp hu with hu | hu
    · exact h.nonempty u hu
    · rwa [List.mem_singleton.mp hu]
  · rw [hchars, h.chars, List.take_of_length_le hfit, List.flatMap_append, List.flatMap_singleton]

theorem dropWhile_bytes (hs : s.chars ≠ []) (rest : List (BitVec 8)) :
    (s.bytes ++ rest).dropWhile (· == 0) = s.bytes ++ rest := by
  obtain ⟨c, cs, hcs⟩ := List.exists_cons_of_ne_nil hs
  have hc : c ≠ 0 := s.ne_nul c (hcs ▸ List.mem_cons_self)
  rw [CString.bytes, hcs, List.cons_append, List.cons_append, List.dropWhile_cons_of_neg (by simpa using hc)]

theorem Holding.holdsString_iff (h : Holding pending que) : que.HoldsString ↔ pending ≠ [] := by
  rw [HoldsString, h.chars]
  cases pending with
  | nil => simp
  | cons s pending =>
    rw [List.flatMap_cons, dropWhile_bytes (h.nonempty s List.mem_cons_self)]
    simp [CString.bytes]

theorem Holding.dequeueStr (h : Holding (s :: pending) que) :
    ∃ que', Holding pending que' ∧ que.DequeuesStr ⟨1, s.bytes, que'⟩ := by
  have hs := h.nonempty s List.mem_cons_self
  have hsplit : que.chars = s.chars ++ 0 :: pending.flatMap CString.bytes := by
    rw [h.chars, List.flatMap_cons, CString.bytes, List.append_assoc]
    rfl
  obtain ⟨c, cs, hcs⟩ := List.exists_cons_of_ne_nil hs
  have hc : c ∈ s.chars := hcs ▸ List.mem_cons_self
  obtain ⟨que₁, hskip, hwf, hchars⟩ :=
    skip_of_char h.wellFormed ⟨c, hsplit ▸ List.mem_append_left _ hc, s.ne_nul c hc⟩
  rw [h.chars, List.flatMap_cons, dropWhile_bytes hs, ← List.flatMap_cons, ← h.chars, hsplit] at hchars
  obtain ⟨que', hwf', hrest, hends⟩ := deliver_string hwf hchars s.nul_notMem []
  refine ⟨que', ⟨hwf', fun u hu => ?_, hrest⟩, dequeuesStr_iff.mpr ⟨que₁, hskip, hends⟩⟩
  exact h.nonempty u (List.mem_cons_of_mem s hu)

def Pending (t : StringQueue) (pending : List CString) : Prop :=
  t.accepted.map CString.bytes = t.delivered ++ pending.map CString.bytes ∧ Holding pending t.que

theorem Pending.step {op : StringOp} (h : ∃ pending, Pending t pending) (hstep : StringStep t op t') :
    ∃ pending, Pending t' pending := by
  obtain ⟨pending, heq, hhold⟩ := h
  cases hstep with
  | @enqueueStr s que hs hret =>
    refine ⟨pending ++ [s], ?_, hhold.enqueueStr hs hret⟩
    simp only [List.map_append, heq, List.append_assoc]
  | dequeueStr hholds hr =>
    obtain ⟨s, pending, rfl⟩ := List.exists_cons_of_ne_nil (hhold.holdsString_iff.mp hholds)
    obtain ⟨que', hrest, hr'⟩ := hhold.dequeueStr
    obtain rfl := hr.unique hr'
    refine ⟨pending, ?_, hrest⟩
    simp only [heq, List.map_cons, List.append_assoc, List.singleton_append]

theorem Pending.inOrder (h : Pending t pending) : InOrder t := by
  obtain ⟨heq, hhold⟩ := h
  have hlen := congrArg List.length heq
  simp only [List.length_map, List.length_append] at hlen
  constructor
  · exact ⟨_, heq.symm⟩
  · rw [hhold.holdsString_iff, ← List.length_pos_iff]
    omega
  · intro s hs
    have hnext : (t.accepted.map CString.bytes)[t.delivered.length]? = some s.bytes := by
      rw [List.getElem?_map, hs, Option.map_some]
    rw [heq, List.getElem?_append_right le_rfl, Nat.sub_self] at hnext
    cases pending with
    | nil => simp at hnext
    | cons u pending =>
      obtain ⟨que', -, hr⟩ := hhold.dequeueStr
      have hbytes : u.bytes = s.bytes := by simpa using hnext
      refine ⟨que', fun r => ?_⟩
      rw [← hbytes]
      constructor
      · intro hr'
        exact hr'.unique hr
      · rintro rfl
        exact hr

theorem strings_in_order (hnum : que.num = 0) (hhead : 0 ≤ que.head ∧ que.head < queueSize)
    (hrun : Run StringStep ⟨que, [], []⟩ ops t) : InOrder t := by
  have hstart : Pending ⟨que, [], []⟩ [] := ⟨rfl, .empty hnum hhead⟩
  obtain ⟨pending, h⟩ := hrun.invariant ⟨[], hstart⟩ Pending.step
  exact h.inOrder

theorem strings_in_order_wrapped :
    InOrder ⟨((⟨1599, 0, fun _ => 7⟩ : QueueChar).enqueueStr (.letters 2)).2.pop.pop.pop, [.letters 2],
      [[97, 97, 0]]⟩ := by
  have hnum : (⟨1599, 0, fun _ => 7⟩ : QueueChar).num = 0 := rfl
  apply strings_in_order hnum (by decide)
  apply (Run.single (.enqueueStr (s := .letters 2) (by decide) (Prod.ext rfl rfl))).snoc
  exact .dequeueStr (r := ⟨1, [97, 97, 0], _⟩) (by decide) ⟨4, rfl⟩

end QueueChar

end MinOS
