import MinOS.FreeList

namespace MinOS

open Library.Rings Library.Tilings

namespace Heap

@[simp] theorem freep_setNext (h : Heap) (p v : ℕ) : (h.setNext p v).freep = h.freep := rfl
@[simp] theorem freep_setSize (h : Heap) (p v : ℕ) : (h.setSize p v).freep = h.freep := rfl

end Heap

namespace FreeList

variable {h : Heap} {free : List Block}

theorem precedes_split {as bs : List Block} {pre : List ℕ} {q p : ℕ} (hf : FreeList h (as ++ bs))
    (hq : h.base :: as.map Block.addr = pre ++ [q]) (hp : h.base < p)
    (hprec : precedes h p q = true) :
    (∀ a ∈ h.base :: as.map Block.addr, a < p) ∧ (∀ c ∈ bs, p < c.addr) := by
  have hnext := hf.next_last hq
  have hinc := hf.increasing
  rw [List.map_append, ← List.cons_append, hq, List.pairwise_append] at hinc
  have hbelow : q < p → ∀ a ∈ h.base :: as.map Block.addr, a < p := by
    intro hqp a ha
    rw [hq] at ha
    rcases List.mem_append.mp ha with ha | ha
    · have := (List.pairwise_append.mp hinc.1).2.2 a ha q (by simp)
      omega
    · rw [List.mem_singleton.mp ha]; exact hqp
  simp only [precedes, decide_eq_true_eq] at hprec
  cases bs with
  | nil =>
    rw [List.map_nil, List.headD_nil] at hnext
    exact ⟨hbelow (by omega), by simp⟩
  | cons c cs =>
    rw [List.map_cons, List.headD_cons] at hnext
    -- the list has not come round yet, so the second way to stop is out
    have hqc : q < c.addr := hinc.2.2 q (by simp) c.addr (by simp)
    refine ⟨hbelow (by omega), fun d hd => ?_⟩
    rcases List.mem_cons.mp hd with rfl | hd
    · omega
    · have := (List.pairwise_cons.mp hinc.2.1).1 d.addr (List.mem_map_of_mem hd)
      omega

theorem split_below (free : List Block) (p : ℕ) : ∃ as bs, free = as ++ bs ∧
    (∀ a ∈ as, a.addr < p) ∧ ∀ c cs, bs = c :: cs → p ≤ c.addr := by
  induction free with
  | nil => exact ⟨[], [], rfl, by simp, by simp⟩
  | cons b free ih =>
    by_cases hb : b.addr < p
    · obtain ⟨as, bs, rfl, has, hbs⟩ := ih
      exact ⟨b :: as, bs, rfl, by simpa using ⟨hb, has⟩, hbs⟩
    · refine ⟨[], b :: free, rfl, by simp, fun c cs hc => ?_⟩
      rw [← (List.cons.inj hc).1]
      omega

theorem exists_precedes (hf : FreeList h free) {p : ℕ} (hp : h.base < p)
    (hne : ∀ b ∈ free, b.addr ≠ p) : ∃ z ∈ h.base :: free.map Block.addr, precedes h p z = true := by
  obtain ⟨as, bs, rfl, has, hbs⟩ := split_below free p
  obtain ⟨pre, z, hz⟩ : ∃ pre z, h.base :: as.map Block.addr = pre ++ [z] :=
    ⟨_, _, (List.dropLast_concat_getLast (List.cons_ne_nil _ _)).symm⟩
  have hnext := hf.next_last hz
  have hmem : z ∈ h.base :: as.map Block.addr := by rw [hz]; simp
  have hzp : h.base ≤ z ∧ z < p := by
    rcases List.mem_cons.mp hmem with rfl | hmem
    · exact ⟨le_refl _, hp⟩
    · obtain ⟨b, hb, rfl⟩ := List.mem_map.mp hmem
      exact ⟨(hf.above b (by simp [hb])).le, has b hb⟩
  refine ⟨z, last_mem hz, ?_⟩
  simp only [precedes, decide_eq_true_eq]
  cases bs with
  | nil =>
    rw [List.map_nil, List.headD_nil] at hnext
    omega
  | cons c cs =>
    rw [List.map_cons, List.headD_cons] at hnext
    have := hbs c cs rfl
    have := hne c (by simp)
    omega

theorem joinNext_cases {as bs : List Block} {pre : List ℕ} {q : ℕ} {b : Block}
    (hf : FreeList h (as ++ bs)) (hq : h.base :: as.map Block.addr = pre ++ [q])
    (hb : h.size b.addr = b.units) (hbase : h.base < b.addr)
    (hafter : ∀ c ∈ bs, b.addr + blkSize * b.units ≤ c.addr) :
    ∃ (ms cs : List Block) (m : Block), bs = ms ++ cs ∧ m.addr = b.addr ∧ b.units ≤ m.units ∧
      (∀ a, cover (m.span :: cs.map Block.span) a = cover (b.span :: bs.map Block.span) a) ∧
      (∀ c ∈ cs, m.addr + blkSize * m.units < c.addr) ∧
      (joinNext h q b.addr).size b.addr = m.units ∧
      (joinNext h q b.addr).next b.addr = (cs.map Block.addr).headD h.base ∧
      ∀ a, a ≠ b.addr → (joinNext h q b.addr).next a = h.next a ∧
        (joinNext h q b.addr).size a = h.size a := by
  have hnext := hf.next_last hq
  cases bs with
  | nil =>
    rw [List.map_nil, List.headD_nil] at hnext
    have hj : joinNext h q b.addr = h.setNext b.addr (h.next q) := if_neg (by omega)
    refine ⟨[], [], b, rfl, rfl, le_refl _, fun _ => rfl, by simp, ?_, ?_, fun a ha => ?_⟩
    · simp [hj, hb]
    · simp [hj, hnext]
    · simp [hj, ha]
  | cons c bs =>
    rw [List.map_cons, List.headD_cons] at hnext
    have hc : h.size c.addr = c.units := hf.sizes c (by simp)
    have hapart := (List.pairwise_cons.mp (List.pairwise_append.mp hf.apart).2.1).1
    by_cases he : b.addr + blkSize * b.units = c.addr
    · have hmid : as ++ c :: bs = as ++ [c] ++ bs := by simp
      have hlast : h.base :: (as ++ [c]).map Block.addr =
          (h.base :: as.map Block.addr) ++ [c.addr] := by simp
      have hbehind : h.next c.addr = (bs.map Block.addr).headD h.base := (hmid ▸ hf).next_last hlast
      refine ⟨[c], bs, ⟨b.addr, b.units + c.units⟩, rfl, rfl, by simp, fun a => ?_, fun d hd => ?_,
        ?_, ?_, fun a ha => ?_⟩
      · have hj := cover_join b.addr (blkSize * b.units) (blkSize * c.units) a
        rw [he, ← Nat.mul_add] at hj
        simp only [List.map_cons, Block.span, cover_cons, cover_nil] at hj ⊢
        omega
      · have := hapart d hd
        have := Nat.mul_add blkSize b.units c.units
        dsimp only
        omega
      · simp [joinNext, hb, hnext, he, hc]
      · simp [joinNext, hb, hnext, he, hbehind]
      · simp [joinNext, hb, hnext, he, ha]
    · have hj : joinNext h q b.addr = h.setNext b.addr (h.next q) :=
        if_neg (by rw [hb, hnext]; exact he)
      refine ⟨[], c :: bs, b, rfl, rfl, le_refl _, fun _ => rfl, fun d hd => ?_, ?_, ?_,
        fun a ha => ?_⟩
      · have hbc := hafter c (by simp)
        rcases List.mem_cons.mp hd with rfl | hd
        · omega
        · have := hapart d hd
          omega
      · simp [hj, hb]
      · simp [hj, hnext]
      · simp [hj, ha]

theorem link_block {as ms cs : List Block} {pre : List ℕ} {q : ℕ} {m : Block} {h' : Heap}
    (hf : FreeList h (as ++ ms ++ cs)) (hq : h.base :: as.map Block.addr = pre ++ [q])
    (hbase : h'.base = h.base) (hpos : 0 < m.units) (hqm : q < m.addr)
    (hbefore : ∀ a ∈ as, a.addr + blkSize * a.units < m.addr)
    (hafter : ∀ c ∈ cs, m.addr + blkSize * m.units < c.addr) (hsize : h'.size m.addr = m.units)
    (hnext : h'.next m.addr = (cs.map Block.addr).headD h.base)
    (hother : ∀ a, a ≠ m.addr → h'.next a = h.next a ∧ h'.size a = h.size a) :
    FreeList ((h'.setNext q m.addr).setFreep q) (as ++ m :: cs) := by
  have hne : ∀ a ∈ pre ++ cs.map Block.addr, a ≠ q := by
    intro a ha
    rw [List.append_assoc] at hf
    refine hf.ne_of_mem hq ?_
    simp only [List.map_append, List.mem_append] at ha ⊢
    tauto
  have hinc := hf.increasing
  have hshape : h.base :: (as ++ ms ++ cs).map Block.addr =
      pre ++ q :: (ms ++ cs).map Block.addr := by
    rw [List.append_assoc, List.map_append, ← List.cons_append, hq]; simp
  rw [hshape, List.pairwise_append] at hinc
  have hlt : ∀ a ∈ pre ++ [q], a < m.addr := by
    intro a ha
    rcases List.mem_append.mp ha with ha | ha
    · have := hinc.2.2 a ha q (by simp)
      omega
    · rw [List.mem_singleton.mp ha]; exact hqm
  have hle : h.base < m.addr := hlt _ (by rw [← hq]; simp)
  have hfresh : ∀ a ∈ h.base :: (as ++ cs).map Block.addr, a ≠ m.addr := by
    intro a ha
    rw [List.map_append, ← List.cons_append, hq] at ha
    rcases List.mem_append.mp ha with ha | ha
    · exact (hlt a ha).ne
    · obtain ⟨c, hc, rfl⟩ := List.mem_map.mp ha
      have := hafter c hc
      omega
  refine hf.replace hq hbase (last_mem hq) (by simp) ?_ ?_ ?_ ?_ hpos hle hbefore hafter
  · have : m.addr ≠ q := by omega
    simp [this, hnext]
  · intro a ha
    have hfa : a ≠ m.addr := by
      refine hfresh a ?_
      rw [List.map_append, ← List.cons_append, hq]
      simp only [List.mem_append] at ha ⊢
      tauto
    simp [hne a ha, (hother a hfa).1]
  · simpa using hsize
  · intro a ha
    simpa using (hother a (hfresh a ha)).2

theorem extend_block {as ms cs : List Block} {a m : Block} {h' : Heap}
    (hf : FreeList h (as ++ a :: ms ++ cs)) (hbase : h'.base = h.base)
    (ham : a.addr + blkSize * a.units = m.addr)
    (hafter : ∀ c ∈ cs, m.addr + blkSize * m.units < c.addr) (hsize : h'.size m.addr = m.units)
    (hnext : h'.next m.addr = (cs.map Block.addr).headD h.base)
    (hother : ∀ x, x ≠ m.addr → h'.next x = h.next x ∧ h'.size x = h.size x) :
    FreeList (((h'.setSize a.addr (a.units + m.units)).setNext a.addr (h'.next m.addr)).setFreep
      a.addr) (as ++ ⟨a.addr, a.units + m.units⟩ :: cs) := by
  obtain ⟨pre, q, hq⟩ : ∃ pre q, h.base :: as.map Block.addr = pre ++ [q] :=
    ⟨_, _, (List.dropLast_concat_getLast (List.cons_ne_nil _ _)).symm⟩
  have hpos : 0 < a.units := hf.pos a (by simp)
  have hshape : as ++ a :: ms ++ cs = (as ++ [a]) ++ (ms ++ cs) := by simp
  have hlast : h.base :: (as ++ [a]).map Block.addr = (h.base :: as.map Block.addr) ++ [a.addr] := by
    simp
  have hnea : ∀ x ∈ h.base :: (as ++ cs).map Block.addr, x ≠ a.addr := by
    intro x hx
    refine (hshape ▸ hf).ne_of_mem hlast ?_
    simp only [List.map_append, List.mem_cons, List.mem_append] at hx ⊢
    tauto
  have happ := List.pairwise_append.mp hf.apart
  have hleft := List.pairwise_append.mp happ.1
  have hnem : ∀ x ∈ h.base :: (as ++ cs).map Block.addr, x ≠ m.addr := by
    intro x hx
    have hbase' := hf.above a (by simp)
    rcases List.mem_cons.mp hx with rfl | hx
    · omega
    · obtain ⟨c, hc, rfl⟩ := List.mem_map.mp hx
      rcases List.mem_append.mp hc with hc | hc
      · have := hleft.2.2 c hc a (by simp)
        omega
      · have := hafter c hc
        omega
  have hqmem : q ∈ h.base :: (as ++ cs).map Block.addr := last_mem hq
  refine (hf.replace (m := ⟨a.addr, a.units + m.units⟩) hq hbase ?_ ?_ ?_ ?_ ?_ ?_ ?_ ?_ ?_ ?_)
  · simp
  · rw [Heap.next_setFreep, Heap.next_setNext, if_neg (hnea q hqmem), Heap.next_setSize,
      (hother q (hnem q hqmem)).1]
    have := (hshape ▸ hf : FreeList h ((as ++ [a]) ++ (ms ++ cs)))
    rw [List.append_assoc] at this
    rw [this.next_last hq]; rfl
  · simp [hnext]
  · intro x hx
    have hx' : x ∈ h.base :: (as ++ cs).map Block.addr := by
      rw [List.map_append, ← List.cons_append, hq]
      simp only [List.mem_append] at hx ⊢
      tauto
    simp [hnea x hx', (hother x (hnem x hx')).1]
  · simp
  · intro x hx
    simp [hnea x hx, (hother x (hnem x hx)).2]
  · dsimp only; omega
  · exact hf.above a (by simp)
  · intro x hx
    exact hleft.2.2 x hx a (by simp)
  · intro c hc
    have := hafter c hc
    have := Nat.mul_add blkSize a.units m.units
    dsimp only
    omega

theorem put_back {as bs : List Block} {pre : List ℕ} {q : ℕ} {b : Block}
    (hf : FreeList h (as ++ bs)) (hq : h.base :: as.map Block.addr = pre ++ [q])
    (hb : h.size b.addr = b.units) (hpos : 0 < b.units) (hbase : h.base < b.addr)
    (hbefore : ∀ a ∈ as, a.addr + blkSize * a.units ≤ b.addr)
    (hafter : ∀ c ∈ bs, b.addr + blkSize * b.units ≤ c.addr) :
    ∃ free', FreeList ((joinPrev (joinNext h q b.addr) q b.addr).setFreep q) free' ∧
      (∀ x, cover (free'.map Block.span) x = cover (b.span :: (as ++ bs).map Block.span) x) ∧
      ∀ c ∈ free', c.addr = b.addr ∨ ∃ d ∈ as ++ bs, d.addr = c.addr := by
  obtain ⟨ms, cs, m, rfl, hm, hunits, hcover, hgap, hsize, hnext, hother⟩ :=
    hf.joinNext_cases hq hb hbase hafter
  have hbase' : (joinNext h q b.addr).base = h.base := by unfold joinNext; split_ifs <;> rfl
  rw [← List.append_assoc] at hf
  rw [← hm] at hsize hnext hother hbase hbase' hbefore ⊢
  rcases List.eq_nil_or_concat' as with rfl | ⟨as, a, rfl⟩
  · obtain ⟨rfl, rfl⟩ : pre = [] ∧ q = h.base := by
      cases pre with
      | nil => exact ⟨rfl, (List.cons.inj hq).1.symm⟩
      | cons p pre => simp at hq
    have hno : joinPrev (joinNext h h.base m.addr) h.base m.addr =
        (joinNext h h.base m.addr).setNext h.base m.addr := by
      refine if_neg ?_
      rw [(hother h.base hbase.ne).2, hf.base_size]
      omega
    rw [hno]
    refine ⟨[] ++ m :: cs, hf.link_block hq hbase' (by omega) hbase (by simp) hgap hsize hnext
      hother, by simpa using hcover, fun c hc => ?_⟩
    rcases List.mem_cons.mp hc with rfl | hc
    · exact .inl rfl
    · exact .inr ⟨c, by simp [hc], rfl⟩
  · obtain ⟨rfl, rfl⟩ : pre = h.base :: as.map Block.addr ∧ q = a.addr := by
      rw [List.map_append, ← List.cons_append] at hq
      obtain ⟨hp, hlast⟩ := List.append_inj' hq (by simp)
      exact ⟨hp.symm, by simpa using hlast.symm⟩
    have hapos : 0 < a.units := hf.pos a (by simp)
    have ham := hbefore a (by simp)
    have hlt : a.addr < m.addr := by simp only [blkSize] at ham; omega
    have hasize : (joinNext h a.addr m.addr).size a.addr = a.units := by
      rw [(hother a.addr hlt.ne).2, hf.sizes a (by simp)]
    by_cases he : a.addr + blkSize * a.units = m.addr
    · have hyes : joinPrev (joinNext h a.addr m.addr) a.addr m.addr =
          ((joinNext h a.addr m.addr).setSize a.addr (a.units + m.units)).setNext a.addr
            ((joinNext h a.addr m.addr).next m.addr) := by
        rw [joinPrev, if_pos (by rw [hasize, he])]
        simp only [hasize, hsize, Heap.next_setSize]
      rw [hyes]
      have hf' : FreeList h (as ++ a :: ms ++ cs) := by simpa using hf
      refine ⟨_, hf'.extend_block hbase' he hgap hsize hnext hother, fun x => ?_, fun c hc => ?_⟩
      · have hj := cover_join a.addr (blkSize * a.units) (blkSize * m.units) x
        have hc := hcover x
        rw [he, ← Nat.mul_add] at hj
        simp only [List.map_append, List.map_cons, List.map_nil, Block.span, cover_append,
          cover_cons, cover_nil] at hj hc ⊢
        omega
      · simp only [List.mem_append, List.mem_cons] at hc
        rcases hc with hc | rfl | hc
        · exact .inr ⟨c, by simp [hc], rfl⟩
        · exact .inr ⟨a, by simp, rfl⟩
        · exact .inr ⟨c, by simp [hc], rfl⟩
    · have hno : joinPrev (joinNext h a.addr m.addr) a.addr m.addr =
          (joinNext h a.addr m.addr).setNext a.addr m.addr :=
        if_neg (by rw [hasize]; exact he)
      rw [hno]
      refine ⟨_, hf.link_block hq hbase' (by omega) hlt (fun c hc => ?_) hgap hsize hnext hother,
        fun x => ?_, fun c hc => ?_⟩
      · have hle := hbefore c hc
        rcases List.mem_append.mp hc with hc | hc
        · -- a block before `a` ends before `a` starts
          have happ := List.pairwise_append.mp (List.pairwise_append.mp
            (List.pairwise_append.mp hf.apart).1).1
          have := happ.2.2 c hc a (by simp)
          omega
        · rw [List.mem_singleton.mp hc] at hle ⊢
          omega
      · have hc := hcover x
        simp only [List.map_append, List.map_cons, cover_append, cover_cons] at hc ⊢
        omega
      · simp only [List.mem_append, List.mem_cons] at hc
        rcases hc with hc | rfl | hc
        · exact .inr ⟨c, by simp only [List.mem_append, List.mem_cons]; tauto, rfl⟩
        · exact .inl rfl
        · exact .inr ⟨c, by simp [hc], rfl⟩

end FreeList

namespace WellFormed

variable {h : Heap} {free live : List Block} {b : Block}

theorem kfree_search (hw : WellFormed h free live) (hb : b ∈ live) :
    ∃ pre q as bs, h.base :: as.map Block.addr = pre ++ [q] ∧ free = as ++ bs ∧
      (∀ a ∈ as, a.addr + blkSize * a.units ≤ b.addr) ∧
      (∀ c ∈ bs, b.addr + blkSize * b.units ≤ c.addr) ∧
      walk h.next (precedes h b.addr) loopBound h.freep = some q := by
  have hf := hw.freeList
  have hbase : h.base < b.addr := by
    have := hw.base_lt
    have := (hw.within (b := b) (by simp [hb])).1
    omega
  have hpos := hw.live_pos b hb
  have hapart : ∀ c ∈ free, c.addr + blkSize * c.units ≤ b.addr ∨
      b.addr + blkSize * b.units ≤ c.addr := fun c hc => hw.apart hc hb
  have hne : ∀ c ∈ free, c.addr ≠ b.addr := by
    intro c hc
    have := hapart c hc
    have := hf.pos c hc
    simp only [blkSize] at *
    omega
  obtain ⟨z, hz, hprec⟩ := hf.exists_precedes hbase hne
  obtain ⟨q, hq, hprecq, hwalk⟩ := hf.ring.walk hf.freep_mem hz hprec (n := loopBound)
    (by simpa using hw.length_lt)
  obtain ⟨pre, as, ds, hpre, hsplit, -⟩ := hf.ring.split_at hq
  obtain ⟨as, bs, rfl, rfl, rfl⟩ := List.map_eq_append_iff.mp hsplit
  obtain ⟨hbelow, habove⟩ := hf.precedes_split hpre hbase hprecq
  refine ⟨pre, q, as, bs, hpre, rfl, fun a ha => ?_, fun c hc => ?_, hwalk⟩
  · have := hbelow a.addr (List.mem_cons_of_mem _ (List.mem_map_of_mem ha))
    have := hapart a (by simp [ha])
    omega
  · have := habove c hc
    have := hapart c (by simp [hc])
    omega

theorem join_size_other (h : Heap) {q p a : ℕ} (hq : a ≠ q) (hp : a ≠ p) :
    ((joinPrev (joinNext h q p) q p).setFreep q).size a = h.size a := by
  unfold joinPrev joinNext
  split_ifs <;> simp [hq, hp]

theorem kfree (hw : WellFormed h free live) (hb : b ∈ live) :
    ∃ h' free', MinOS.kfree h (b.addr + blkSize) = some h' ∧ h'.kheap = h.kheap ∧
      h'.base = h.base ∧ WellFormed h' free' (live.erase b) := by
  obtain ⟨pre, q, as, bs, hq, rfl, hbefore, hafter, hwalk⟩ := hw.kfree_search hb
  have hperm := List.perm_cons_erase hb
  have hbase : ∀ c ∈ as ++ bs ++ live, h.base < c.addr := by
    intro c hc
    have := hw.base_lt
    have := (hw.within hc).1
    omega
  obtain ⟨free', hf', hcover, haddr⟩ := hw.freeList.put_back hq (hw.headers b hb)
    (hw.live_pos b hb) (hbase b (by simp [hb])) hbefore hafter
  have hk : ∀ g : Heap, ((joinPrev (joinNext g q b.addr) q b.addr).setFreep q).kheap = g.kheap ∧
      ((joinPrev (joinNext g q b.addr) q b.addr).setFreep q).base = g.base := by
    intro g
    unfold joinPrev joinNext
    split_ifs <;> exact ⟨rfl, rfl⟩
  refine ⟨_, free', by rw [MinOS.kfree, Nat.add_sub_cancel, hwalk], (hk h).1, (hk h).2, hf', ?_, ?_,
    ?_, ?_, ?_⟩
  · intro c hc
    have hcl := List.mem_of_mem_erase hc
    have hlive := (List.pairwise_append.mp hw.pairwise).2.1
    have hdisj := (List.pairwise_cons.mp ((hperm.pairwise_iff (fun hst => Or.symm hst)).mp hlive)).1 c hc
    simp only [Block.span_start, Block.span_length] at hdisj
    have hcpos := hw.live_pos c hcl
    have hbpos := hw.live_pos b hb
    have hcq : c.addr ≠ q := by
      have hqmem : q ∈ h.base :: as.map Block.addr := by rw [hq]; simp
      rcases List.mem_cons.mp hqmem with rfl | hqmem
      · exact (hbase c (by simp [hcl])).ne'
      · obtain ⟨a, ha, rfl⟩ := List.mem_map.mp hqmem
        have := hw.apart (b := a) (by simp [ha]) hcl
        have := hw.freeList.pos a (by simp [ha])
        simp only [blkSize] at *
        omega
    rw [join_size_other h hcq (by simp only [blkSize] at hdisj; omega)]
    exact hw.headers c hcl
  · exact fun c hc => hw.live_pos c (List.mem_of_mem_erase hc)
  · intro c hc
    rcases List.mem_append.mp hc with hc | hc
    · rcases haddr c hc with hcb | ⟨d, hd, hdc⟩
      · rw [hcb]; exact hw.aligned b (by simp [hb])
      · rw [← hdc]; exact hw.aligned d (List.mem_append_left _ hd)
    · exact hw.aligned c (List.mem_append_right _ (List.mem_of_mem_erase hc))
  · rw [(hk h).1]
    refine hw.tiles.of_cover (fun x => ?_)
    have hc := hcover x
    have hl := cover_perm (hperm.map Block.span) x
    simp only [List.map_append, List.map_cons, cover_append, cover_cons] at hc hl ⊢
    omega
  · rw [(hk h).1, (hk h).2]; exact hw.base_lt

end WellFormed

end MinOS
