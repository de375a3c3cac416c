import MinOS.FreeList

namespace MinOS

open Library.Integers Library.Rings Library.Tilings

theorem roundUpBlock_eq {size : ℕ} (hs : size ≤ 2 ^ 31 - 16) :
    roundUpBlock size blkSize = ((size + 15) / 16 : ℕ) := by
  have hsum : int32 (int32 ((size : ℤ) + blkSize) - 1) = ((size + 15 : ℕ) : ℤ) := by
    rw [int32_sub, int32_eq (by simp only [blkSize]; omega) (by simp only [blkSize]; omega)]
    simp only [blkSize]
    omega
  rw [roundUpBlock, hsum, blkSize]
  exact (Int.natCast_div ..).symm ▸ Int.tdiv_eq_ediv_of_nonneg (by omega)

theorem nunits_eq {size : ℕ} (hs : size ≤ 2 ^ 31 - 16) : nunits size = (size + 15) / 16 + 1 := by
  rw [nunits, roundUpBlock_eq hs, int32_eq (by omega) (by omega)]
  exact uint64_eq (n := (size + 15) / 16 + 1) (by omega)

theorem size_le_nunits {size : ℕ} (hs : size ≤ 2 ^ 31 - 16) :
    size + blkSize ≤ blkSize * nunits size := by
  rw [nunits_eq hs, blkSize]
  omega

theorem nunits_pos {size : ℕ} (hs : size ≤ 2 ^ 31 - 16) : 0 < nunits size := by
  rw [nunits_eq hs]
  omega

namespace FreeList

variable {h h' : Heap} {as bs : List Block} {b : Block} {pre : List ℕ} {q : ℕ}

theorem unlink (hf : FreeList h (as ++ b :: bs)) (hq : h.base :: as.map Block.addr = pre ++ [q]) :
    FreeList ((h.setNext q (h.next b.addr)).setFreep q) (as ++ bs) := by
  have hsub : (as ++ bs).Sublist (as ++ b :: bs) :=
    (List.Sublist.refl as).append (List.sublist_cons_self b bs)
  have hmid : as ++ b :: bs = as ++ [b] ++ bs := by simp
  have hlast : h.base :: (as ++ [b]).map Block.addr = (h.base :: as.map Block.addr) ++ [b.addr] := by
    simp
  have hbehind : h.next b.addr = (bs.map Block.addr).headD h.base := (hmid ▸ hf).next_last hlast
  refine ⟨?_, last_mem hq, ?_, fun c hc => ?_, fun c hc => hf.pos c (hsub.subset hc),
    fun c hc => hf.above c (hsub.subset hc), hf.apart.sublist hsub⟩
  · have hring : Circular ((h.setNext q (h.next b.addr)).setFreep q).next h.base
        ((as ++ [] ++ bs).map Block.addr) := by
      refine relink (hmid ▸ hf) hq rfl (fun a ha => ?_) (by simp [hbehind])
      have hne : a ≠ q := by
        apply hf.ne_of_mem hq
        rw [List.map_cons]
        exact List.mem_append.mpr ((List.mem_append.mp ha).imp_right (List.mem_cons_of_mem _))
      simp [hne]
    simpa using hring
  · simpa using hf.base_size
  · simpa using hf.sizes c (hsub.subset hc)

theorem resize {m : ℕ} (hf : FreeList h (as ++ b :: bs))
    (hq : h.base :: as.map Block.addr = pre ++ [q]) (hm : 0 < m) (hle : m ≤ b.units)
    (hnext : h'.next = h.next) (hbase : h'.base = h.base) (hfreep : h'.freep = q)
    (hsize : h'.size b.addr = m)
    (hother : ∀ a ∈ h.base :: (as ++ bs).map Block.addr, h'.size a = h.size a) :
    FreeList h' (as ++ ⟨b.addr, m⟩ :: bs) := by
  have hmid : as ++ b :: bs = as ++ [b] ++ bs := by simp
  have happ := hf.apart
  rw [List.pairwise_append, List.pairwise_cons] at happ
  refine (hmid ▸ hf).replace hq hbase ?_ ?_ ?_ (fun a _ => by rw [hnext]) hsize hother hm
    (hf.above b (by simp)) (fun a ha => happ.2.2 a ha b (by simp)) (fun c hc => ?_)
  · rw [hfreep]; exact last_mem hq
  · rw [hnext, hf.next_last hq]; rfl
  · rw [hnext]
    have hlast : h.base :: (as ++ [b]).map Block.addr = (h.base :: as.map Block.addr) ++ [b.addr] := by
      simp
    exact (hmid ▸ hf).next_last hlast
  · have := happ.2.1.1 c hc
    have := Nat.mul_le_mul_left blkSize hle
    dsimp only
    omega

end FreeList

def shrink (b : Block) (n : ℕ) : List Block :=
  if b.units = n then [] else [⟨b.addr, b.units - n⟩]

def tailBlock (b : Block) (n : ℕ) : Block := ⟨b.addr + blkSize * (b.units - n), n⟩

theorem cover_shrink {b : Block} {n : ℕ} (hn : n ≤ b.units) (a : ℕ) :
    cover ((shrink b n).map Block.span ++ [(tailBlock b n).span]) a = cover [b.span] a := by
  by_cases he : b.units = n
  · simp [shrink, tailBlock, he, Block.span]
  · have hj := cover_join b.addr (blkSize * (b.units - n)) (blkSize * n) a
    have hlen : blkSize * (b.units - n) + blkSize * n = blkSize * b.units := by
      rw [← Nat.mul_add, Nat.sub_add_cancel hn]
    rw [hlen] at hj
    simpa [shrink, tailBlock, he, Block.span] using hj

theorem takeBlock_fst (h : Heap) {b : Block} (q n : ℕ) (hb : h.size b.addr = b.units) :
    (takeBlock h q b.addr n).1 = (tailBlock b n).addr + blkSize := by
  by_cases he : b.units = n <;> simp [takeBlock, tailBlock, hb, he]

theorem takeBlock_size (h : Heap) {b : Block} (q n : ℕ) (hb : h.size b.addr = b.units) :
    (takeBlock h q b.addr n).2.size (tailBlock b n).addr = n := by
  by_cases he : b.units = n <;> simp [takeBlock, tailBlock, hb, he]

theorem takeBlock_size_other (h : Heap) {b : Block} (q n : ℕ) (hb : h.size b.addr = b.units) {a : ℕ}
    (hab : a ≠ b.addr) (hat : a ≠ (tailBlock b n).addr) :
    (takeBlock h q b.addr n).2.size a = h.size a := by
  by_cases he : b.units = n
  · simp [takeBlock, hb, he]
  · simp only [tailBlock] at hat
    simp [takeBlock, hb, he, hab, hat]

@[simp] theorem takeBlock_kheap (h : Heap) (q p n : ℕ) : (takeBlock h q p n).2.kheap = h.kheap := by
  unfold takeBlock; split_ifs <;> rfl

@[simp] theorem takeBlock_base (h : Heap) (q p n : ℕ) : (takeBlock h q p n).2.base = h.base := by
  unfold takeBlock; split_ifs <;> rfl

namespace WellFormed

variable {h : Heap} {as bs live : List Block} {b : Block} {pre : List ℕ} {q n : ℕ}

theorem tail_fresh (hw : WellFormed h (as ++ b :: bs) live) (hn : 0 < n) (hle : n ≤ b.units)
    {c : Block} (hc : c ∈ as ++ bs ++ live) :
    c.addr ≠ b.addr ∧ c.addr ≠ (tailBlock b n).addr := by
  have hpos : 0 < c.units := by
    refine hw.pos c ?_
    simp only [List.mem_append, List.mem_cons] at hc ⊢
    tauto
  have hperm : (as ++ b :: bs ++ live).Perm (b :: (as ++ bs ++ live)) := by
    simp [List.perm_middle]
  have hall := (hperm.pairwise_iff (fun hst => Or.symm hst)).mp hw.pairwise
  have hdisj := (List.pairwise_cons.mp hall).1 c hc
  simp only [Block.span_start, Block.span_length, blkSize] at hdisj
  simp only [tailBlock, blkSize]
  omega

theorem takeBlock (hw : WellFormed h (as ++ b :: bs) live)
    (hq : h.base :: as.map Block.addr = pre ++ [q]) (hn : 0 < n) (hle : n ≤ b.units) :
    WellFormed (takeBlock h q b.addr n).2 (as ++ shrink b n ++ bs) (tailBlock b n :: live) := by
  have hb : h.size b.addr = b.units := hw.freeList.sizes b (by simp)
  have hbase : ∀ c ∈ as ++ b :: bs ++ live, h.base < c.addr := by
    intro c hc
    have := hw.base_lt
    have := (hw.within hc).1
    omega
  have htail : h.base < (tailBlock b n).addr := by
    have := hbase b (by simp)
    simp only [tailBlock]
    omega
  refine ⟨?_, ?_, ?_, ?_, ?_, by simpa using hw.base_lt⟩
  · by_cases he : b.units = n
    · have hf := hw.freeList.unlink hq
      simpa [shrink, he, MinOS.takeBlock, hb] using hf
    · rw [shrink, if_neg he, List.append_assoc, List.singleton_append]
      refine hw.freeList.resize (m := b.units - n) hq (by omega) (by omega) ?_ (by simp) ?_ ?_ ?_
      · funext a; simp [MinOS.takeBlock, hb, he]
      · simp [MinOS.takeBlock, hb, he]
      · have hne : b.addr ≠ b.addr + blkSize * (b.units - n) := by
          simp only [blkSize]
          omega
        simp only [MinOS.takeBlock, hb, he, if_false, Heap.size_setFreep, Heap.size_setSize, if_true,
          if_neg hne]
      · intro a ha
        rcases List.mem_cons.mp ha with rfl | ha
        · exact takeBlock_size_other h q n hb (by have := hbase b (by simp); omega) (by omega)
        · obtain ⟨c, hc, rfl⟩ := List.mem_map.mp ha
          have hfresh := hw.tail_fresh hn hle (c := c) (by simp only [List.mem_append] at hc ⊢; tauto)
          exact takeBlock_size_other h q n hb hfresh.1 hfresh.2
  · intro c hc
    rcases List.mem_cons.mp hc with rfl | hc
    · exact takeBlock_size h q n hb
    · have hfresh := hw.tail_fresh hn hle (c := c) (by simp [hc])
      rw [takeBlock_size_other h q n hb hfresh.1 hfresh.2]
      exact hw.headers c hc
  · intro c hc
    rcases List.mem_cons.mp hc with rfl | hc
    · exact hn
    · exact hw.live_pos c hc
  · intro c hc
    have hbal := hw.aligned b (by simp)
    have hold : c ∈ as ++ b :: bs ++ live ∨ c ∈ shrink b n ∨ c = tailBlock b n := by
      simp only [List.mem_append, List.mem_cons] at hc ⊢
      tauto
    rcases hold with hc | hc | rfl
    · exact hw.aligned c hc
    · unfold shrink at hc
      split_ifs at hc
      · simp at hc
      · rw [List.mem_singleton.mp hc]; exact hbal
    · simp only [tailBlock, blkSize] at hbal ⊢
      omega
  · rw [takeBlock_kheap]
    refine hw.tiles.of_cover (fun a => ?_)
    have hc := cover_shrink hle a
    simp only [List.map_append, List.map_cons, cover_append, cover_cons, cover_nil] at hc ⊢
    omega

end WellFormed

theorem kmalloc_cases_of_pos {h : Heap} {free live : List Block} (hw : WellFormed h free live)
    {size : ℤ} (hpos : 0 < nunits size) :
    ((∀ b ∈ free, b.units < nunits size) ∧ kmalloc h size = some (0, h)) ∨
      ∃ pre q as b bs, h.base :: as.map Block.addr = pre ++ [q] ∧ free = as ++ b :: bs ∧
        nunits size ≤ b.units ∧ kmalloc h size = some (takeBlock h q b.addr (nunits size)) := by
  have hbase : decide (nunits size ≤ h.size h.base) = false := by
    simp only [hw.freeList.base_size, decide_eq_false_iff_not]
    omega
  rcases hw.freeList.search_cases hw.length_lt
      (fun p => decide (nunits size ≤ h.size p)) hbase with
    ⟨hnone, hs⟩ | ⟨pre, q, as, b, bs, hq, rfl, ⟨_, _, _, hfit⟩, hs⟩
  · refine .inl ⟨fun b hb => ?_, by rw [kmalloc, hs]⟩
    simpa [hw.freeList.sizes b hb] using hnone b hb
  · refine .inr ⟨pre, q, as, b, bs, hq, rfl, ?_, by rw [kmalloc, hs]⟩
    simpa [hw.freeList.sizes b (by simp)] using hfit

theorem kmalloc_cases {h : Heap} {free live : List Block} (hw : WellFormed h free live) {size : ℕ}
    (hs : size ≤ 2 ^ 31 - 16) :
    ((∀ b ∈ free, b.units < nunits size) ∧ kmalloc h size = some (0, h)) ∨
      ∃ pre q as b bs, h.base :: as.map Block.addr = pre ++ [q] ∧ free = as ++ b :: bs ∧
        nunits size ≤ b.units ∧ kmalloc h size = some (takeBlock h q b.addr (nunits size)) :=
  kmalloc_cases_of_pos hw (nunits_pos hs)

theorem WellFormed.kmalloc_keeps {h : Heap} {free live : List Block} (hw : WellFormed h free live)
    {size : ℤ} (hpos : 0 < nunits size) :
    ∃ r h' free' live', kmalloc h size = some (r, h') ∧ WellFormed h' free' live' := by
  rcases kmalloc_cases_of_pos hw hpos with ⟨-, hk⟩ | ⟨pre, q, as, b, bs, hq, rfl, hle, hk⟩
  · exact ⟨0, h, free, live, hk, hw⟩
  · exact ⟨_, _, _, _, hk, hw.takeBlock hq hpos hle⟩

theorem kmalloc_kheap {h h' : Heap} {size : ℤ} {r : ℕ} (hk : kmalloc h size = some (r, h')) :
    h'.kheap = h.kheap := by
  simp only [kmalloc] at hk
  split at hk
  · exact absurd hk (by simp)
  · rw [← (Prod.mk.inj (Option.some.inj hk)).2]
  · have hheap : h' = (takeBlock h _ _ _).2 := (congrArg Prod.snd (Option.some.inj hk)).symm
    rw [hheap, takeBlock]
    split_ifs <;> rfl

end MinOS
