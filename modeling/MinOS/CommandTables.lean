import MinOS.AhciCommands
import MinOS.Library.Tilings

namespace MinOS

open Library.Integers Library.Words Library.Arrays Library.Fields Library.Tilings

def prdtRange (m : Memory) (table : Word) (k : ℕ) : Span :=
  let entry := prdtEntry table k
  ⟨HbaPrdtEntry.dba.get m entry + 2 ^ 32 * HbaPrdtEntry.dbau.get m entry,
    HbaPrdtEntry.dbc.get m entry + 1⟩

/-- What the callers ask for: a register command for sectors with 48-bit numbers and a buffer of
half-words below 4 GiB. -/
structure CmdParams.Valid (params : CmdParams) : Prop where
  fisType : params.fisType = 0x27
  lba : params.lba.toNat < 2 ^ 48
  count : 0 < params.count.toNat
  nonnull : params.dba ≠ 0
  even : params.dba.toNat % 2 = 0
  below : params.dba.toNat + 512 * params.count.toNat ≤ 2 ^ 32

def CmdParams.cut (params : CmdParams) (k : ℕ) : ℕ :=
  params.dba.toNat + min (8192 * k) (512 * params.count.toNat)

def CmdParams.fullEntries (params : CmdParams) : ℕ := (params.count.toNat - 1) / 16

variable {params : CmdParams} {table x : Word} {t u : Traced} {c : PrdtCursor} {k n : ℕ}

section Layouts

theorem cfis_layout : Layout ((cfisFields params).map Prod.fst) 0x80 := by
  simp only [cfisFields, List.map_cons, List.map_nil]
  decide

def entryFields : List Field :=
  [HbaPrdtEntry.dba, HbaPrdtEntry.dbau, HbaPrdtEntry.dbc, HbaPrdtEntry.i]

def lastEntryFields : List Field := [HbaPrdtEntry.dba, HbaPrdtEntry.dbc, HbaPrdtEntry.i]

theorem entry_layout : Layout entryFields 16 := by decide

theorem lastEntry_layout : Layout lastEntryFields 16 := by decide

theorem header_layout {cmdTblBase : Word} :
    Layout ((headerFields cmdTblBase params).map Prod.fst) 0x400 := by
  simp only [headerFields, List.map_cons, List.map_nil]
  decide

end Layouts

section Lengths

theorem fullEntries_lt (params : CmdParams) : params.fullEntries < 4096 := by
  have := params.count.isLt
  unfold CmdParams.fullEntries
  omega

theorem prdtLength_eq (hcount : 0 < params.count.toNat) :
    prdtLength params = (params.fullEntries + 1 : ℕ) := by
  rw [prdtLength, CmdParams.fullEntries]
  omega

theorem clearLength_eq (hcount : 0 < params.count.toNat) :
    uint64 (0x80 + 16 * prdtLength params) = 0x80 + 16 * (params.fullEntries + 1) := by
  have := fullEntries_lt params
  rw [prdtLength_eq hcount]
  unfold uint64
  omega

theorem turns_eq (params : CmdParams) : (prdtLength params - 1).toNat = params.fullEntries := by
  rw [prdtLength, CmdParams.fullEntries]
  omega

end Lengths

section Entries

def entryStores (table : Word) (k : ℕ) : List Store := entryFields.map (Field.store (prdtEntry table k))

def lastStores (table : Word) (k : ℕ) : List Store :=
  lastEntryFields.map (Field.store (prdtEntry table k))

theorem entry_apart {o m : ℕ} (hx : InRegion (prdtEntry table k) 16 x) (hk : k < prdtEntryMax)
    (hm : o + m ≤ 2 ^ 32) (h : o + m ≤ 0x80 + 16 * k ∨ 0x80 + 16 * (k + 1) ≤ o) :
    ¬ InRegion (offset table o) m x := by
  unfold prdtEntryMax at hk
  unfold prdtEntry prdtEntrySize at hx
  exact InRegion.apart hx (by omega) (by omega) (by omega)

theorem entries_apart {i m : ℕ} (hx : InRegion (prdtEntry table k) 16 x) (hk : k < prdtEntryMax)
    (hi : i + m ≤ prdtEntryMax) (h : k < i ∨ i + m ≤ k) : ¬ InRegion (prdtEntry table i) (16 * m) x := by
  unfold prdtEntryMax at hk hi
  apply entry_apart hx hk
  · unfold prdtEntrySize
    omega
  · unfold prdtEntrySize
    omega

theorem inside_entries {i : ℕ} (h : i + n ≤ prdtEntryMax) :
    Inside (InRegion (prdtEntry table i) (16 * n))
      ((List.range n).flatMap (fun k => entryStores table (i + k))) := by
  intro e he x hx
  obtain ⟨k, hk, he⟩ := List.mem_flatMap.mp he
  have hkn := List.mem_range.mp hk
  have hentry : InRegion (prdtEntry table (i + k)) 16 x := entry_layout.inside (by decide) e he x hx
  unfold prdtEntryMax at h
  unfold prdtEntry prdtEntrySize InRegion offset at *
  bv_omega

theorem fillEntries_wrote (table : Word) (c : PrdtCursor) (t : Traced) (n : ℕ) :
    Wrote ((List.range n).flatMap (fun k => entryStores table (c.i + k))) t
      (fillEntries table c t n).2 := by
  induction n generalizing c t with
  | zero => exact .refl t
  | succ n ih =>
    have hrest : (List.range (n + 1)).flatMap (fun k => entryStores table (c.i + k)) =
        entryStores table c.i ++ (List.range n).flatMap (fun k => entryStores table (c.next.i + k)) := by
      rw [List.range_succ_eq_map, List.flatMap_cons, List.flatMap_map]
      simp only [Nat.add_zero, PrdtCursor.next, Nat.add_assoc, Nat.add_comm 1]
    rw [hrest, fillEntries]
    exact (wrote_putAll t _ c.fields).trans (ih c.next _)

theorem fillEntries_cursor (table : Word) (c : PrdtCursor) (t : Traced) (n : ℕ) :
    (fillEntries table c t n).1 =
      ⟨c.i + n, c.buf + BitVec.ofNat 64 (8192 * n), c.count - BitVec.ofNat 16 (16 * n)⟩ := by
  induction n generalizing c t with
  | zero => simp [fillEntries]
  | succ n ih =>
    rw [fillEntries, ih]
    simp only [PrdtCursor.next, PrdtCursor.mk.injEq]
    refine ⟨by omega, by bv_omega, by bv_omega⟩

theorem prdtRange_congr {R : Word → Prop} {new : List Store} (h : Wrote new t u) (hin : Inside R new)
    (hout : ∀ x, InRegion (prdtEntry table k) 16 x → ¬ R x) :
    prdtRange u.mem table k = prdtRange t.mem table k := by
  have hfield : ∀ f ∈ entryFields, f.get u.mem (prdtEntry table k) = f.get t.mem (prdtEntry table k) := by
    intro f hf
    have hle := entry_layout.2 f hf
    apply h.get hin (hle.trans (by decide))
    intro x hx
    exact hout x ((InRegion.shift hx (by omega)).mono hle)
  simp only [prdtRange, hfield HbaPrdtEntry.dba (by simp [entryFields]),
    hfield HbaPrdtEntry.dbau (by simp [entryFields]), hfield HbaPrdtEntry.dbc (by simp [entryFields])]

theorem prdtRange_entry (table : Word) (c : PrdtCursor) (t : Traced) :
    prdtRange (t.putAll (prdtEntry table c.i) c.fields).mem table c.i = ⟨c.buf.toNat % 2 ^ 32, 8192⟩ := by
  have hfield : ∀ f x, (f, x) ∈ c.fields →
      f.get (t.putAll (prdtEntry table c.i) c.fields).mem (prdtEntry table c.i) = x % 2 ^ f.width :=
    fun f x hf => get_putAll (show Layout (c.fields.map Prod.fst) 16 from entry_layout) (by decide) hf
  rw [prdtRange, hfield HbaPrdtEntry.dba c.buf.toNat (by simp [PrdtCursor.fields]),
    hfield HbaPrdtEntry.dbau 0 (by simp [PrdtCursor.fields]),
    hfield HbaPrdtEntry.dbc (8 * 1024 - 1) (by simp [PrdtCursor.fields])]
  rfl

theorem fillEntries_range (hk : k < n) (h : c.i + n ≤ prdtEntryMax) :
    prdtRange (fillEntries table c t n).2.mem table (c.i + k) =
      ⟨(c.buf + BitVec.ofNat 64 (8192 * k)).toNat % 2 ^ 32, 8192⟩ := by
  induction n generalizing c t k with
  | zero => omega
  | succ n ih =>
    rw [fillEntries]
    cases k with
    | zero =>
      -- the later turns stay behind the first entry
      have hin : Inside (InRegion (prdtEntry table c.next.i) (16 * n))
          ((List.range n).flatMap (fun k => entryStores table (c.next.i + k))) := by
        apply inside_entries
        simp only [PrdtCursor.next]
        omega
      have hkeep := prdtRange_congr (fillEntries_wrote table c.next
        (t.putAll (prdtEntry table c.i) c.fields) n) hin (k := c.i) (by
          intro x hx
          simp only [PrdtCursor.next]
          exact entries_apart hx (by omega) (by omega) (.inl (by omega)))
      simp only [Nat.add_zero, Nat.mul_zero, BitVec.add_zero]
      rw [hkeep, prdtRange_entry]
    | succ k =>
      have hi : c.next.i + k = c.i + (k + 1) := by
        simp only [PrdtCursor.next]
        omega
      have hbuf : c.next.buf + BitVec.ofNat 64 (8192 * k) =
          c.buf + BitVec.ofNat 64 (8192 * (k + 1)) := by
        simp only [PrdtCursor.next]
        bv_omega
      rw [← hi, ih (c := c.next) (by omega) (by simp only [PrdtCursor.next]; omega), hbuf]

end Entries

section Table

def prdtStores (params : CmdParams) (table : Word) : List Store :=
  (List.range params.fullEntries).flatMap (entryStores table) ++ lastStores table params.fullEntries

def tableStores (params : CmdParams) (table : Word) : List Store :=
  ⟨table, 0x80 + 16 * (params.fullEntries + 1)⟩ ::
    (((cfisFields params).map Prod.fst).map (Field.store table) ++ prdtStores params table)

def cfisTable (params : CmdParams) (table : Word) (t : Traced) : Traced :=
  (t.fill table (fun _ => 0) (0x80 + 16 * (params.fullEntries + 1))).putAll table (cfisFields params)

theorem cut_mono (params : CmdParams) : Monotone params.cut := by
  intro i j hij
  unfold CmdParams.cut
  omega

theorem cut_zero (params : CmdParams) : params.cut 0 = params.dba.toNat := by
  unfold CmdParams.cut
  omega

theorem cut_last (hcount : 0 < params.count.toNat) :
    params.cut (params.fullEntries + 1) = params.dba.toNat + 512 * params.count.toNat := by
  unfold CmdParams.cut CmdParams.fullEntries
  omega

theorem isAligned_dba (hv : params.Valid) : isAligned params.dba 2 = true := by
  have heven := hv.even
  have hmod : params.dba % BitVec.ofInt 64 2 = 0 := by
    apply BitVec.eq_of_toNat_eq
    rw [BitVec.toNat_umod]
    exact heven
  exact decide_eq_true ⟨hmod, hv.nonnull⟩

theorem buildCmdTable_eq (hv : params.Valid) (table : Word) (s : DriverState) :
    buildCmdTable params table s =
      .ok ⟨buildPrdt params table (cfisTable params table s.ram), s.serial⟩ := by
  simp only [buildCmdTable, clearLength_eq hv.count, if_pos hv.fisType, isAligned_dba hv, if_true,
    cfisTable]

theorem buildPrdt_eq (params : CmdParams) (table : Word) (t : Traced) :
    buildPrdt params table t =
      (fillEntries table ⟨0, params.dba, params.count⟩ t params.fullEntries).2.putAll
        (prdtEntry table params.fullEntries)
        (PrdtCursor.lastFields ⟨params.fullEntries,
          params.dba + BitVec.ofNat 64 (8192 * params.fullEntries),
          params.count - BitVec.ofNat 16 (16 * params.fullEntries)⟩) := by
  simp only [buildPrdt, turns_eq, fillEntries_cursor, Nat.zero_add]

theorem fullEntries_wrote (params : CmdParams) (table : Word) (t : Traced) :
    Wrote ((List.range params.fullEntries).flatMap (entryStores table)) t
      (fillEntries table ⟨0, params.dba, params.count⟩ t params.fullEntries).2 := by
  have h := fillEntries_wrote table ⟨0, params.dba, params.count⟩ t params.fullEntries
  simpa only [Nat.zero_add] using h

theorem inside_fullEntries (params : CmdParams) (table : Word) :
    Inside (InRegion (prdtEntry table 0) (16 * params.fullEntries))
      ((List.range params.fullEntries).flatMap (entryStores table)) := by
  have hlt := fullEntries_lt params
  have h : Inside (InRegion (prdtEntry table 0) (16 * params.fullEntries))
      ((List.range params.fullEntries).flatMap (fun k => entryStores table (0 + k))) := by
    apply inside_entries
    unfold prdtEntryMax
    omega
  simpa only [Nat.zero_add] using h

theorem inside_lastStores (table : Word) (k : ℕ) :
    Inside (InRegion (prdtEntry table k) 16) (lastStores table k) :=
  lastEntry_layout.inside (by decide)

theorem buildPrdt_wrote (params : CmdParams) (table : Word) (t : Traced) :
    Wrote (prdtStores params table) t (buildPrdt params table t) := by
  have hlast : ∀ (t : Traced) (c : PrdtCursor),
      Wrote (lastStores table c.i) t (t.putAll (prdtEntry table c.i) c.lastFields) :=
    fun t c => wrote_putAll t _ c.lastFields
  rw [buildPrdt_eq]
  exact (fullEntries_wrote params table t).trans (hlast _ ⟨params.fullEntries, _, _⟩)

theorem inside_prdtStores (params : CmdParams) (table : Word) :
    Inside (InRegion (prdtEntry table 0) (16 * (params.fullEntries + 1))) (prdtStores params table) := by
  have hlt := fullEntries_lt params
  rw [prdtStores, inside_append]
  constructor
  · exact (inside_fullEntries params table).mono (fun x hx => hx.mono (by omega))
  · refine (inside_lastStores table _).mono ?_
    intro x hx
    unfold prdtEntry prdtEntrySize InRegion offset at *
    bv_omega

theorem prdtRange_last (hzero : HbaPrdtEntry.dbau.get t.mem (prdtEntry table c.i) = 0) :
    prdtRange (t.putAll (prdtEntry table c.i) c.lastFields).mem table c.i =
      ⟨c.buf.toNat % 2 ^ 32, uint64 ((c.count.toNat : ℤ) * 2 ^ 9 - 1) % 2 ^ 22 + 1⟩ := by
  have hfield : ∀ f x, (f, x) ∈ c.lastFields →
      f.get (t.putAll (prdtEntry table c.i) c.lastFields).mem (prdtEntry table c.i) = x % 2 ^ f.width :=
    fun f x hf =>
      get_putAll (show Layout (c.lastFields.map Prod.fst) 16 from lastEntry_layout) (by decide) hf
  have hupper : HbaPrdtEntry.dbau.get (t.putAll (prdtEntry table c.i) c.lastFields).mem
      (prdtEntry table c.i) = 0 := by
    rw [← hzero]
    apply get_putAll_apart (by decide)
    show ∀ f ∈ lastEntryFields, f.Near ∧ f.Apart HbaPrdtEntry.dbau
    decide
  rw [prdtRange, hfield HbaPrdtEntry.dba c.buf.toNat (by simp [PrdtCursor.lastFields]), hupper,
    hfield HbaPrdtEntry.dbc (uint64 ((c.count.toNat : ℤ) * 2 ^ 9 - 1)) (by simp [PrdtCursor.lastFields])]
  rfl

theorem dbau_cfisTable (table : Word) (t : Traced) (hk : k ≤ params.fullEntries) :
    HbaPrdtEntry.dbau.get (cfisTable params table t).mem (prdtEntry table k) = 0 := by
  have hlt := fullEntries_lt params
  have hkeep := (wrote_putAll (t.fill table (fun _ => 0) (0x80 + 16 * (params.fullEntries + 1))) table
    (cfisFields params)).get (cfis_layout.inside (by decide)) (f := HbaPrdtEntry.dbau)
    (a := prdtEntry table k) (by decide) (by
      intro x hx
      have hentry : InRegion (prdtEntry table k) 16 x := (InRegion.shift hx (by decide)).mono (by decide)
      have hout : ¬ InRegion (offset table 0) 0x80 x :=
        entry_apart hentry (by unfold prdtEntryMax; omega) (by omega) (by omega)
      simpa [offset] using hout)
  rw [cfisTable, hkeep]
  apply get_fill_zero (by omega)
  simp only [prdtEntrySize, HbaPrdtEntry.dbau, Field.bytes]
  omega

theorem prdtRange_table (hv : params.Valid) (table : Word) (t : Traced) (hk : k ≤ params.fullEntries) :
    prdtRange (buildPrdt params table (cfisTable params table t)).mem table k =
      ⟨params.cut k, params.cut (k + 1) - params.cut k⟩ := by
  have hlt := fullEntries_lt params
  have hcount := hv.count
  have hbelow := hv.below
  rw [buildPrdt_eq params]
  rcases Nat.lt_or_eq_of_le hk with hk | rfl
  · have hlast := prdtRange_congr (k := k) (wrote_putAll
      (fillEntries table ⟨0, params.dba, params.count⟩ (cfisTable params table t) params.fullEntries).2
      (prdtEntry table params.fullEntries) (PrdtCursor.lastFields ⟨params.fullEntries,
        params.dba + BitVec.ofNat 64 (8192 * params.fullEntries),
        params.count - BitVec.ofNat 16 (16 * params.fullEntries)⟩))
      (inside_lastStores table params.fullEntries) (by
        intro x hx
        have hk' : k < prdtEntryMax := by unfold prdtEntryMax; omega
        exact entries_apart (m := 1) hx hk' (by unfold prdtEntryMax; omega) (.inl hk))
    have hentry : prdtRange (fillEntries table ⟨0, params.dba, params.count⟩ (cfisTable params table t)
        params.fullEntries).2.mem table (0 + k) =
        ⟨(params.dba + BitVec.ofNat 64 (8192 * k)).toNat % 2 ^ 32, 8192⟩ := by
      apply fillEntries_range hk
      unfold prdtEntryMax
      dsimp only
      omega
    rw [Nat.zero_add] at hentry
    rw [hlast, hentry, BitVec.toNat_add, BitVec.toNat_ofNat]
    unfold CmdParams.fullEntries at hk
    simp only [CmdParams.cut, Span.mk.injEq]
    omega
  · have hzero : HbaPrdtEntry.dbau.get (fillEntries table ⟨0, params.dba, params.count⟩
        (cfisTable params table t) params.fullEntries).2.mem (prdtEntry table params.fullEntries) = 0 := by
      have hkeep := (fullEntries_wrote params table (cfisTable params table t)).get
        (inside_fullEntries params table) (f := HbaPrdtEntry.dbau)
        (a := prdtEntry table params.fullEntries) (by decide) (by
          intro x hx
          have hentry : InRegion (prdtEntry table params.fullEntries) 16 x :=
            (InRegion.shift hx (by decide)).mono (by decide)
          have hk' : params.fullEntries < prdtEntryMax := by unfold prdtEntryMax; omega
          exact entries_apart hentry hk' (by unfold prdtEntryMax; omega) (.inr (by omega)))
      rw [hkeep, dbau_cfisTable table t hk]
    have hlast : ∀ c : PrdtCursor, c.i = params.fullEntries → prdtRange ((fillEntries table
        ⟨0, params.dba, params.count⟩ (cfisTable params table t) params.fullEntries).2.putAll
          (prdtEntry table c.i) c.lastFields).mem table c.i =
        ⟨c.buf.toNat % 2 ^ 32, uint64 ((c.count.toNat : ℤ) * 2 ^ 9 - 1) % 2 ^ 22 + 1⟩ :=
      fun c hc => prdtRange_last (hc ▸ hzero)
    have hentry := hlast ⟨params.fullEntries, params.dba + BitVec.ofNat 64 (8192 * params.fullEntries),
      params.count - BitVec.ofNat 16 (16 * params.fullEntries)⟩ rfl
    rw [hentry, BitVec.toNat_add, BitVec.toNat_ofNat, BitVec.toNat_sub, BitVec.toNat_ofNat]
    have := params.count.isLt
    simp only [CmdParams.cut, CmdParams.fullEntries, Span.mk.injEq, uint64]
    constructor
    · omega
    · omega

theorem get_cfis (table : Word) (t : Traced) {f : Field} {v : ℕ}
    (hf : (f, v) ∈ cfisFields params) :
    f.get (buildPrdt params table (cfisTable params table t)).mem table = v % 2 ^ f.width := by
  have hlt := fullEntries_lt params
  have hle : f.offset + f.size ≤ 0x80 := cfis_layout.2 f (List.mem_map.mpr ⟨_, hf, rfl⟩)
  have hkeep : f.get (buildPrdt params table (cfisTable params table t)).mem table =
      f.get (cfisTable params table t).mem table := by
    apply (buildPrdt_wrote params table _).get (inside_prdtStores params table)
    · exact le_trans hle (by decide)
    · intro x hx
      apply InRegion.apart hx (by omega)
      · unfold prdtEntrySize
        omega
      · unfold prdtEntrySize
        omega
  rw [hkeep]
  exact get_putAll cfis_layout (by decide) hf

end Table

end MinOS
