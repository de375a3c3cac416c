import MinOS.HeapRuns

namespace MinOS

def Roomy (free : List Block) (n : ℕ) : Prop := ∃ b ∈ free, n ≤ b.units

def gained (live : List Block) (r n : ℕ) : List Block :=
  if r = 0 then live else ⟨r - blkSize, n⟩ :: live

theorem mem_gained_of_mem {live : List Block} {b : Block} (r n : ℕ) (hb : b ∈ live) :
    b ∈ gained live r n := by
  unfold gained
  split_ifs
  · exact hb
  · exact List.mem_cons_of_mem _ hb

theorem mem_gained_self {r : ℕ} (live : List Block) (n : ℕ) (hr : r ≠ 0) :
    ⟨r - blkSize, n⟩ ∈ gained live r n := by
  rw [gained, if_neg hr]
  exact List.mem_cons_self ..

theorem Roomy.mono {free : List Block} {m n : ℕ} (h : Roomy free n) (hle : m ≤ n) : Roomy free m := by
  obtain ⟨b, hb, hn⟩ := h
  exact ⟨b, hb, by omega⟩

theorem Roomy.shrink {as bs : List Block} {b : Block} {m n : ℕ} (hm : 0 < m)
    (h : Roomy (as ++ b :: bs) (n + m)) : Roomy (as ++ MinOS.shrink b n ++ bs) m := by
  obtain ⟨c, hc, hle⟩ := h
  by_cases hcb : c = b
  · subst hcb
    refine ⟨⟨c.addr, c.units - n⟩, ?_, by dsimp only; omega⟩
    have hne : c.units ≠ n := by omega
    simp [MinOS.shrink, hne]
  · refine ⟨c, ?_, by omega⟩
    simp only [List.mem_append, List.mem_cons] at hc ⊢
    tauto

namespace WellFormed

variable {h : Heap} {free live : List Block}

theorem addr_ne {b : Block} (hw : WellFormed h free (b :: live)) :
    ∀ c ∈ live, c.addr ≠ b.addr := by
  intro c hc he
  have hlive := (List.pairwise_append.mp hw.pairwise).2.1
  have hdisj := (List.pairwise_cons.mp hlive).1 c hc
  have := hw.live_pos b (List.mem_cons_self ..)
  have := hw.live_pos c (List.mem_cons_of_mem _ hc)
  simp only [Library.Tilings.Span.Disjoint, Block.span_start, Block.span_length, blkSize] at hdisj
  omega

theorem kmalloc_granted (hw : WellFormed h free live) (size n : ℕ) (hs : size ≤ 2 ^ 31 - 16)
    (hn : nunits size = n) : ∃ r h' free', MinOS.kmalloc h size = some (r, h') ∧
      WellFormed h' free' (gained live r n) ∧ (r ≠ 0 → blkSize ≤ r) ∧
      (∀ b ∈ live, b.addr + blkSize ≠ r) ∧ ∀ m, 0 < m → Roomy free (n + m) → r ≠ 0 ∧ Roomy free' m := by
  subst hn
  rcases kmalloc_cases hw hs with ⟨hsmall, hk⟩ | ⟨pre, q, as, b, bs, hq, rfl, hle, hk⟩
  · refine ⟨0, h, free, hk, hw, fun h0 => absurd rfl h0, fun b _ => by simp [blkSize], ?_⟩
    rintro m hm ⟨b, hb, hle⟩
    have := hsmall b hb
    omega
  · have hpos := nunits_pos hs
    have hnew := hw.takeBlock hq hpos hle
    have hfst := takeBlock_fst h q (nunits size) (hw.freeList.sizes b (by simp))
    have hr : (tailBlock b (nunits size)).addr + blkSize ≠ 0 := by simp [blkSize]
    generalize MinOS.takeBlock h q b.addr (nunits size) = x at hk hnew hfst
    obtain ⟨r, h'⟩ := x
    dsimp only at hnew hfst
    subst hfst
    refine ⟨_, h', _, hk, ?_, fun _ => by omega, fun c hc => ?_, fun m hm hroom => ⟨hr, hroom.shrink hm⟩⟩
    · rw [gained, if_neg hr, Nat.add_sub_cancel]
      exact hnew
    · have := hnew.addr_ne c hc
      omega

end WellFormed

def kmallocAll (h : Heap) : List ℤ → Option (List ℕ × Heap)
  | [] => some ([], h)
  | size :: sizes => (kmalloc h size).bind (fun x =>
      (kmallocAll x.2 sizes).map (fun y => (x.1 :: y.1, y.2)))

theorem kmallocAll_cons {h h' : Heap} {size : ℤ} {sizes : List ℤ} {r : ℕ} {rs : List ℕ} :
    kmallocAll h (size :: sizes) = some (r :: rs, h') ↔
      ∃ h₁, kmalloc h size = some (r, h₁) ∧ kmallocAll h₁ sizes = some (rs, h') := by
  simp only [kmallocAll, Option.bind_eq_some_iff, Option.map_eq_some_iff, Prod.exists, Prod.mk.injEq,
    List.cons.injEq]
  constructor
  · rintro ⟨_, h₁, hk, _, _, hks, ⟨rfl, rfl⟩, rfl⟩
    exact ⟨h₁, hk, hks⟩
  · rintro ⟨h₁, hk, hks⟩
    exact ⟨r, h₁, hk, rs, h', hks, ⟨rfl, rfl⟩, rfl⟩

theorem exists_kmallocAll {h : Heap} {sizes : List ℤ} {rs : List ℕ}
    (hall : (kmallocAll h sizes).map Prod.fst = some rs) : ∃ h', kmallocAll h sizes = some (rs, h') := by
  obtain ⟨⟨_, h'⟩, hall', rfl⟩ := Option.map_eq_some_iff.mp hall
  exact ⟨h', hall'⟩

def gainedAll (live : List Block) : List ℤ → List ℕ → List Block
  | size :: sizes, r :: rs => gainedAll (gained live r (nunits size)) sizes rs
  | _, _ => live

def Answered (h : Heap) (sizes : List ℤ) : Prop :=
  ∃ rs h', kmallocAll h sizes = some (rs, h') ∧ 0 ∉ rs

instance (h : Heap) (sizes : List ℤ) : Decidable (Answered h sizes) :=
  match hall : kmallocAll h sizes with
  | some x => decidable_of_iff (0 ∉ x.1) ⟨fun h0 => ⟨x.1, x.2, hall, h0⟩, fun ⟨rs, h', hall', h0⟩ => by
      obtain rfl := Option.some.inj (hall.symm.trans hall')
      exact h0⟩
  | none => .isFalse (fun ⟨rs, h', hall', _⟩ => by simp [hall] at hall')

theorem Answered.not_mem {h h' : Heap} {sizes : List ℤ} {rs : List ℕ} (hans : Answered h sizes)
    (hall : kmallocAll h sizes = some (rs, h')) : 0 ∉ rs := by
  obtain ⟨rs', h₁, hall', h0⟩ := hans
  obtain ⟨rfl, -⟩ := Prod.mk.inj (Option.some.inj (hall.symm.trans hall'))
  exact h0

theorem answered_cons {h : Heap} {size : ℤ} {sizes : List ℤ} : Answered h (size :: sizes) ↔
    ∃ r h', kmalloc h size = some (r, h') ∧ r ≠ 0 ∧ Answered h' sizes := by
  constructor
  · rintro ⟨rs, h', hall, h0⟩
    cases rs with
    | nil => simp [kmallocAll, Option.bind_eq_some_iff] at hall
    | cons r rs =>
      obtain ⟨h₁, hk, hks⟩ := kmallocAll_cons.mp hall
      simp only [List.mem_cons, not_or] at h0
      exact ⟨r, h₁, hk, Ne.symm h0.1, rs, h', hks, h0.2⟩
  · rintro ⟨r, h₁, hk, hr, rs, h', hks, h0⟩
    refine ⟨r :: rs, h', kmallocAll_cons.mpr ⟨h₁, hk, hks⟩, ?_⟩
    simp only [List.mem_cons, not_or]
    exact ⟨Ne.symm hr, h0⟩

inductive Answers : List Block → List ℤ → List ℕ → Prop
  | nil {live : List Block} : Answers live [] []
  | cons {live : List Block} {size : ℤ} {sizes : List ℤ} {r : ℕ} {rs : List ℕ} :
      (r ≠ 0 → blkSize ≤ r) → (∀ b ∈ live, b.addr + blkSize ≠ r) →
      Answers (gained live r (nunits size)) sizes rs → Answers live (size :: sizes) (r :: rs)

theorem Answers.length_eq {live : List Block} {sizes : List ℤ} {rs : List ℕ}
    (h : Answers live sizes rs) : rs.length = sizes.length := by
  induction h with
  | nil => rfl
  | cons _ _ _ ih => simp [ih]

theorem WellFormed.kmallocAll_granted {sizes : List ℤ}
    (hs : ∀ size ∈ sizes, 0 ≤ size ∧ size ≤ 2 ^ 31 - 16) {h : Heap} {free live : List Block}
    (hw : WellFormed h free live) : ∃ rs h' free', kmallocAll h sizes = some (rs, h') ∧
      WellFormed h' free' (gainedAll live sizes rs) ∧ Answers live sizes rs ∧
      ∀ m, 0 < m → Roomy free ((sizes.map nunits).sum + m) → 0 ∉ rs ∧ Roomy free' m := by
  induction sizes generalizing h free live with
  | nil => exact ⟨[], h, free, rfl, hw, .nil, fun m _ hroom => ⟨List.not_mem_nil, by simpa using hroom⟩⟩
  | cons size sizes ih =>
    obtain ⟨h0, hle⟩ := hs size (List.mem_cons_self ..)
    obtain ⟨n, rfl⟩ : ∃ n : ℕ, size = n := Int.eq_ofNat_of_zero_le h0
    obtain ⟨r, h₁, free₁, hk, hw₁, hpos, hnew, hroom₁⟩ :=
      hw.kmalloc_granted n (nunits n) (by omega) rfl
    obtain ⟨rs, h₂, free₂, hks, hw₂, hans, hroom₂⟩ :=
      ih (fun size hsize => hs size (List.mem_cons_of_mem _ hsize)) hw₁
    refine ⟨r :: rs, h₂, free₂, ?_, hw₂, .cons hpos hnew hans, fun m hm hroom => ?_⟩
    · rw [kmallocAll, hk, Option.bind_some, hks, Option.map_some]
    · rw [List.map_cons, List.sum_cons, Nat.add_assoc] at hroom
      obtain ⟨hr, hroom'⟩ := hroom₁ _ (by omega) hroom
      obtain ⟨hrs, hroom''⟩ := hroom₂ m hm hroom'
      exact ⟨by simp [hr.symm, hrs], hroom''⟩

theorem WellFormed.kmallocAll_answers {sizes : List ℤ} {h h' : Heap} {free live : List Block}
    {rs : List ℕ} (hw : WellFormed h free live) (hs : ∀ size ∈ sizes, 0 ≤ size ∧ size ≤ 2 ^ 31 - 16)
    (hall : kmallocAll h sizes = some (rs, h')) :
    ∃ free', WellFormed h' free' (gainedAll live sizes rs) ∧ Answers live sizes rs := by
  obtain ⟨rs', h₁, free', hall', hw', hans, -⟩ := WellFormed.kmallocAll_granted hs hw
  obtain ⟨rfl, rfl⟩ := Prod.mk.inj (Option.some.inj (hall.symm.trans hall'))
  exact ⟨free', hw', hans⟩

end MinOS
