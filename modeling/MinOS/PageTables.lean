import MinOS.Library.Paging

namespace MinOS

open Library.Words Library.Arrays Library.Paging

def entryNum : ℕ := 512

def tableSize : ℕ := 8 * entryNum

def page4kb : ℕ := 0x1000

def memset (m : Memory) (buf : Word) (ch : ℤ) (n : ℕ) : Memory :=
  storeBytes m buf (fun _ => BitVec.ofInt 8 ch) n

def elem (p : Word) (i : ℕ) : Word := offset p (8 * i)

def createKpgtable (m : Memory) (startAddr : Word) : Memory :=
  let ptNum := 512
  let pdNum := 512
  let pdptNum := 4 -- the number of GiB
  let pml4Num := 1
  let pgtableSize := tableSize * (ptNum + pdNum + pdptNum + pml4Num)
  let m := memset m startAddr 0 pgtableSize
  let pml4 := startAddr
  let pdpt := elem pml4 (entryNum * pml4Num)
  let pd := elem pdpt (entryNum * pdptNum)
  let pt := elem pd (entryNum * pdNum)
  let m := storeWords m pt (fun i => BitVec.ofNat 64 (i * page4kb) ||| 0x003) (pdptNum * pdNum * ptNum)
  let m := storeWords m pd (fun i => elem pt (entryNum * i) ||| 0x003) (pdptNum * pdNum)
  let m := storeWords m pdpt (fun i => elem pd (entryNum * i) ||| 0x003) pdptNum
  storeWords m pml4 (fun i => elem pdpt (entryNum * i) ||| 0x003) pml4Num

def kpgtableSize : ℕ := 2565 * page4kb

def tableAt (a : Word) (k : ℕ) : Word := offset a (k * 4096)

section Tables

variable {m : Memory} {startAddr v x : Word} {i : ℕ}

theorem tableAt_zero (a : Word) : tableAt a 0 = a := by simp [tableAt, offset]

theorem elem_tableAt (a : Word) (k i : ℕ) : elem (tableAt a k) (512 * i) = tableAt a (k + i) := by
  have hoff : k * 4096 + 8 * (512 * i) = (k + i) * 4096 := by omega
  rw [elem, tableAt, offset_offset, hoff]
  rfl

theorem offset_tableAt (a : Word) (k j i : ℕ) :
    offset (tableAt a (k + j)) (8 * i) = offset (tableAt a k) (8 * (512 * j + i)) := by
  have hoff : (k + j) * 4096 + 8 * i = k * 4096 + 8 * (512 * j + i) := by omega
  rw [tableAt, tableAt, offset_offset, offset_offset, hoff]

theorem tableAt_toNat {a : Word} {k : ℕ} (h : a.toNat + k * 4096 < 2 ^ 64) :
    (tableAt a k).toNat = a.toNat + k * 4096 := by
  rw [tableAt, offset, BitVec.toNat_add, BitVec.toNat_ofNat]
  omega

theorem createKpgtable_eq (m : Memory) (a : Word) : createKpgtable m a =
    storeWords (storeWords (storeWords (storeWords
      (storeBytes m (tableAt a 0) (fun _ => 0) (1029 * 4096))
      (tableAt a 517) (fun i => entry (BitVec.ofNat 64 (i * 4096))) (2 ^ 20))
      (tableAt a 5) (fun i => entry (tableAt a (517 + i))) 2048)
      (tableAt a 1) (fun i => entry (tableAt a (5 + i))) 4)
      (tableAt a 0) (fun i => entry (tableAt a (1 + i))) 1 := by
  have hpdpt : elem (tableAt a 0) (512 * 1) = tableAt a 1 := elem_tableAt ..
  have hpd : elem (tableAt a 1) (512 * 4) = tableAt a 5 := elem_tableAt ..
  have hpt : elem (tableAt a 5) (512 * 512) = tableAt a 517 := elem_tableAt ..
  have hzero : BitVec.ofInt 8 0 = 0 := rfl
  conv_lhs => rw [← tableAt_zero a]
  simp only [createKpgtable, entryNum, tableSize, page4kb, memset, hpdpt, hpd, hpt, elem_tableAt, hzero,
    entry, Nat.reduceMul, Nat.reduceAdd, Nat.reducePow]

variable {m : Memory} {a v x : Word} {i : ℕ}

theorem load64_table_apart {k n j : ℕ} (f : ℕ → Word) (ho : k * 4096 + 8 * n ≤ 2 ^ 63)
    (hp : j * 4096 + 8 * i + 8 ≤ 2 ^ 63)
    (h : j * 4096 + 8 * i + 8 ≤ k * 4096 ∨ k * 4096 + 8 * n ≤ j * 4096 + 8 * i) :
    load64 (storeWords m (tableAt a k) f n) (offset (tableAt a j) (8 * i)) =
      load64 m (offset (tableAt a j) (8 * i)) := by
  rw [tableAt, tableAt, offset_offset]
  exact load64_storeWords_apart f ho hp h

theorem load64_pt (hi : i < 2 ^ 20) : load64 (createKpgtable m a) (offset (tableAt a 517) (8 * i)) =
    entry (BitVec.ofNat 64 (i * 4096)) := by
  rw [createKpgtable_eq, load64_table_apart _ (by decide) (by omega) (by omega),
    load64_table_apart _ (by decide) (by omega) (by omega),
    load64_table_apart _ (by decide) (by omega) (by omega)]
  exact load64_storeWords _ (by decide) hi

theorem load64_pd (hi : i < 2048) : load64 (createKpgtable m a) (offset (tableAt a 5) (8 * i)) =
    entry (tableAt a (517 + i)) := by
  rw [createKpgtable_eq, load64_table_apart _ (by decide) (by omega) (by omega),
    load64_table_apart _ (by decide) (by omega) (by omega)]
  exact load64_storeWords _ (by decide) hi

theorem load64_pdpt (hi : i < 4) : load64 (createKpgtable m a) (offset (tableAt a 1) (8 * i)) =
    entry (tableAt a (5 + i)) := by
  rw [createKpgtable_eq, load64_table_apart _ (by decide) (by omega) (by omega)]
  exact load64_storeWords _ (by decide) hi

theorem load64_pml4 : load64 (createKpgtable m a) (offset (tableAt a 0) (8 * 0)) =
    entry (tableAt a 1) := by
  rw [createKpgtable_eq]
  exact load64_storeWords _ (by decide) (by decide)

theorem load64_rest {k : ℕ} (hk : k = 0 ∧ 0 < i ∨ k = 1 ∧ 4 ≤ i) (hi : i < 512) :
    load64 (createKpgtable m a) (offset (tableAt a k) (8 * i)) = 0 := by
  rw [createKpgtable_eq, load64_table_apart _ (by decide) (by omega) (by omega),
    load64_table_apart _ (by decide) (by omega) (by omega),
    load64_table_apart _ (by decide) (by omega) (by omega),
    load64_table_apart _ (by decide) (by omega) (by omega), tableAt_zero, tableAt, offset_offset]
  exact load64_storeBytes_zero (by decide) (by omega)

theorem createKpgtable_other (hx : ¬ InRegion a kpgtableSize x) : createKpgtable m a x = m x := by
  have hout : ∀ k n, k * 4096 + n ≤ kpgtableSize → ¬ InRegion (tableAt a k) n x := by
    intro k n hn hin
    exact hx ((hin.shift (by simp only [kpgtableSize, page4kb] at hn; omega)).mono hn)
  rw [createKpgtable_eq, storeWords_other _ (hout _ _ (by decide)), storeWords_other _ (hout _ _ (by decide)),
    storeWords_other _ (hout _ _ (by decide)), storeWords_other _ (hout _ _ (by decide)),
    storeBytes_other _ (hout _ _ (by decide))]

theorem tableAt_aligned {k : ℕ} (hal : a.toNat % 4096 = 0) (hend : a.toNat + 2565 * 4096 ≤ 2 ^ 52)
    (hk : k < 2565) : (tableAt a k).toNat % 4096 = 0 ∧ (tableAt a k).toNat < 2 ^ 52 := by
  rw [tableAt_toNat (by omega)]
  omega

structure Upper (m : Memory) (a : Word) : Prop where
  pml4 : load64 m (offset (tableAt a 0) (8 * 0)) = entry (tableAt a 1)
  pdpt : ∀ i, i < 4 → load64 m (offset (tableAt a 1) (8 * i)) = entry (tableAt a (5 + i))
  pd : ∀ i, i < 2048 → load64 m (offset (tableAt a 5) (8 * i)) = entry (tableAt a (517 + i))

theorem createKpgtable_upper : Upper (createKpgtable m a) a :=
  ⟨load64_pml4, fun _ => load64_pdpt, fun _ => load64_pd⟩

theorem Upper.walk_eq (h : Upper m a) (hal : a.toNat % 4096 = 0)
    (hend : a.toNat + 2565 * 4096 ≤ 2 ^ 52) (hv : v.toNat < 2 ^ 32) :
    walk m 4 (tableAt a 0) v = walk m 1 (tableAt a (517 + (512 * index 2 v + index 1 v))) v := by
  have h3 := index_eq 3 v
  have h2 := index_eq 2 v
  have h1 := index_eq 1 v
  have hpml4 : walk m 4 (tableAt a 0) v = walk m 3 (tableAt a 1) v := by
    obtain ⟨hmod, hlt⟩ := tableAt_aligned hal hend (k := 1) (by decide)
    apply walk_entry _ hmod hlt
    have hi : index 3 v = 0 := by omega
    rw [hi]
    exact h.pml4
  have hpdpt : walk m 3 (tableAt a 1) v = walk m 2 (tableAt a (5 + index 2 v)) v := by
    obtain ⟨hmod, hlt⟩ := tableAt_aligned hal hend (k := 5 + index 2 v) (by omega)
    apply walk_entry _ hmod hlt
    exact h.pdpt _ (by omega)
  have hpd : walk m 2 (tableAt a (5 + index 2 v)) v =
      walk m 1 (tableAt a (517 + (512 * index 2 v + index 1 v))) v := by
    obtain ⟨hmod, hlt⟩ := tableAt_aligned hal hend (k := 517 + (512 * index 2 v + index 1 v)) (by omega)
    apply walk_entry _ hmod hlt
    rw [offset_tableAt]
    exact h.pd _ (by omega)
  rw [hpml4, hpdpt, hpd]

theorem offset_page (hv : v.toNat < 2 ^ 32) :
    offset (tableAt a (517 + (512 * index 2 v + index 1 v))) (8 * index 0 v) =
      offset (tableAt a 517) (8 * (v.toNat / 4096)) := by
  have h2 := index_eq 2 v
  have h1 := index_eq 1 v
  have h0 := index_eq 0 v
  have hpage : 512 * (512 * index 2 v + index 1 v) + index 0 v = v.toNat / 4096 := by omega
  rw [offset_tableAt, hpage]

theorem walk_low (hal : a.toNat % 4096 = 0) (hend : a.toNat + 2565 * 4096 ≤ 2 ^ 52)
    (hv : v.toNat < 2 ^ 32) : walk (createKpgtable m a) 4 (tableAt a 0) v = some (v, true) := by
  have hpt : walk (createKpgtable m a) 1 (tableAt a (517 + (512 * index 2 v + index 1 v))) v =
      walk (createKpgtable m a) 0 (BitVec.ofNat 64 (v.toNat / 4096 * 4096)) v := by
    apply walk_entry
    · rw [offset_page hv]
      exact load64_pt (by omega)
    · rw [BitVec.toNat_ofNat]
      omega
    · rw [BitVec.toNat_ofNat]
      omega
  rw [createKpgtable_upper.walk_eq hal hend hv, hpt]
  apply walk_page
  rw [BitVec.toNat_ofNat]
  omega

theorem walk_store_zero (hal : a.toNat % 4096 = 0) (hend : a.toNat + 2565 * 4096 ≤ 2 ^ 52)
    (hv : v.toNat < 2 ^ 32) :
    walk (store64 (createKpgtable m a) (offset (tableAt a 517) (8 * (v.toNat / 4096))) 0) 4 a v = none := by
  have hsame : ∀ {k i : ℕ}, k * 4096 + 8 * i + 8 ≤ 517 * 4096 →
      load64 (store64 (createKpgtable m a) (offset (tableAt a 517) (8 * (v.toNat / 4096))) 0)
        (offset (tableAt a k) (8 * i)) = load64 (createKpgtable m a) (offset (tableAt a k) (8 * i)) := by
    intro k i hki
    apply load64_congr
    intro x hx
    apply store64_other
    unfold InRegion tableAt offset at *
    bv_omega
  have hupper : Upper (store64 (createKpgtable m a) (offset (tableAt a 517) (8 * (v.toNat / 4096))) 0) a := by
    constructor
    · rw [hsame (by decide)]
      exact load64_pml4
    · intro i hi
      rw [hsame (by omega)]
      exact load64_pdpt hi
    · intro i hi
      rw [hsame (by omega)]
      exact load64_pd hi
  have hwalk := hupper.walk_eq hal hend hv
  rw [tableAt_zero] at hwalk
  rw [hwalk]
  apply walk_none
  rw [offset_page hv]
  exact load64_store64

theorem walk_high (hal : a.toNat % 4096 = 0) (hend : a.toNat + 2565 * 4096 ≤ 2 ^ 52)
    (hlo : 2 ^ 32 ≤ v.toNat) (hhi : v.toNat < 2 ^ 48) :
    walk (createKpgtable m a) 4 (tableAt a 0) v = none := by
  have h3 := index_eq 3 v
  have h2 := index_eq 2 v
  by_cases hi : index 3 v = 0
  · have hpml4 : walk (createKpgtable m a) 4 (tableAt a 0) v =
        walk (createKpgtable m a) 3 (tableAt a 1) v := by
      obtain ⟨hmod, hlt⟩ := tableAt_aligned hal hend (k := 1) (by decide)
      apply walk_entry _ hmod hlt
      rw [hi]
      exact load64_pml4
    rw [hpml4]
    apply walk_none
    exact load64_rest (by omega) (by omega)
  · apply walk_none
    exact load64_rest (by omega) (by omega)

/-- After `createKpgtable` the tables translate the first 4 GiB to themselves and nothing else, and
memory outside of them is as it was. -/
theorem createKpgtable_identity (m : Memory) (startAddr : Word) (hal : startAddr.toNat % 4096 = 0)
    (hend : startAddr.toNat + 2565 * 4096 ≤ 2 ^ 52) :
    (∀ v : Word, v.toNat < 2 ^ 32 → walk (createKpgtable m startAddr) 4 startAddr v = some (v, true)) ∧
    (∀ v : Word, 2 ^ 32 ≤ v.toNat → v.toNat < 2 ^ 48 →
      walk (createKpgtable m startAddr) 4 startAddr v = none) ∧
    ∀ x, ¬ InRegion startAddr (2565 * 4096) x → createKpgtable m startAddr x = m x := by
  have hwalk : ∀ v, walk (createKpgtable m startAddr) 4 startAddr v =
      walk (createKpgtable m startAddr) 4 (tableAt startAddr 0) v := by
    intro v
    rw [tableAt_zero]
  refine ⟨fun v hv => ?_, fun v hlo hhi => ?_, fun x hx => createKpgtable_other hx⟩
  · rw [hwalk]
    exact walk_low hal hend hv
  · rw [hwalk]
    exact walk_high hal hend hlo hhi

theorem createKpgtable_identity_example :
    walk (createKpgtable (fun _ => 0) 0x300000) 4 0x300000 0x301234 = some (0x301234, true) ∧
      walk (createKpgtable (fun _ => 0) 0x300000) 4 0x300000 0x100000000 = none := by
  obtain ⟨hlow, hhigh, -⟩ :=
    createKpgtable_identity (fun _ => 0) 0x300000 (by decide) (by decide)
  exact ⟨hlow _ (by decide), hhigh _ (by decide) (by decide)⟩

end Tables

end MinOS
