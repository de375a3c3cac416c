import MinOS.CommandTables
import MinOS.HeapRequests
import MinOS.HeapSoundness

namespace MinOS

open Library.Integers Library.Words Library.Arrays Library.Fields Library.Tilings

section Reservation

structure Reserved (pi : BitVec 32) (base : ℕ) (d : AhciMemory) : Prop where
  aligned : d.cmdTblBase.toNat % 128 = 0
  start : base < d.cmdTblBase.toNat
  stop : d.cmdTblBase.toNat + cmdTblSize ≤ base + (cmdTblSize + 128)
  below : base + (cmdTblSize + 128) ≤ 2 ^ 32
  lists : ∀ i < 32, pi >>> i ≠ 0 → (d.ports i).clb.toNat + 0x400 ≤ 2 ^ 32 ∧
    ((d.ports i).clb.toNat + 0x400 ≤ base ∨ base + (cmdTblSize + 128) ≤ (d.ports i).clb.toNat)

theorem forPorts_eq (pi : BitVec 32) (f : ℕ → HbaPort → HbaPort) (ports : ℕ → HbaPort) (n i : ℕ) :
    forPorts pi f ports n i = if i < n ∧ pi >>> i ≠ 0 then f i (ports i) else ports i := by
  induction n with
  | zero => simp [forPorts]
  | succ n ih =>
    have hn : forPorts pi f ports n n = ports n ∨ n ≠ i := by
      by_cases hni : n = i
      · subst hni
        exact .inl (by rw [ih, if_neg (by simp)])
      · exact .inr hni
    rw [forPorts]
    by_cases hni : i = n
    · subst hni
      have hsame : forPorts pi f ports i i = ports i := hn.resolve_right (by simp)
      by_cases hpi : pi >>> i ≠ 0
      · rw [if_pos hpi, if_pos ⟨by omega, hpi⟩, Function.update_self, hsame]
      · rw [if_neg hpi, if_neg (fun h => hpi h.2), hsame]
    · have hiff : i < n + 1 ∧ pi >>> i ≠ 0 ↔ i < n ∧ pi >>> i ≠ 0 :=
        and_congr_left (fun _ => by omega)
      have hrest : (if pi >>> n ≠ 0 then
          Function.update (forPorts pi f ports n) n (f n (forPorts pi f ports n n))
          else forPorts pi f ports n) i = forPorts pi f ports n i := by
        split_ifs
        · exact Function.update_of_ne hni _ _
        · rfl
      rw [hrest, ih]
      simp only [hiff]

theorem alignAs_toNat {a : Word} (h : a.toNat + 128 < 2 ^ 64) :
    (alignAs a 128).toNat = a.toNat + (128 - a.toNat % 128) := by
  have h128 : BitVec.ofInt 64 128 = 128#64 := rfl
  have hmod : 128 % 2 ^ 64 = 128 := rfl
  rw [alignAs, h128, BitVec.toNat_add, BitVec.toNat_sub, BitVec.toNat_umod, BitVec.toNat_ofNat, hmod]
  omega

theorem alignAs_ofNat {a : ℕ} (h : a + 128 < 2 ^ 64) :
    (alignAs (BitVec.ofNat 64 a) 128).toNat = a + (128 - a % 128) := by
  have hnat : (BitVec.ofNat 64 a).toNat = a := by
    rw [BitVec.toNat_ofNat]
    omega
  rw [alignAs_toNat (by omega), hnat]

theorem giveAddresses_clb {list i : ℕ} (hlow : list + (cmdListSize + 128) ≤ 2 ^ 32) (hi : i < 32)
    (rcvdFis : Word) (port : HbaPort) :
    (giveAddresses (alignAs (BitVec.ofNat 64 list) 128) rcvdFis i port).clb.toNat =
      list + (128 - list % 128) + 1024 * i := by
  unfold cmdListSize at hlow
  rw [giveAddresses]
  dsimp only
  rw [BitVec.toNat_add, BitVec.toNat_setWidth, alignAs_ofNat (by omega), BitVec.toNat_ofNat]
  unfold HbaCmdHeader.size
  omega

variable {h : Heap} {free live : List Block}

theorem ahciInit_eq {h₁ h₂ h₃ : Heap} {base list fis : ℕ}
    (hk₁ : kmalloc h (cmdTblSize + 128) = some (base, h₁))
    (hk₂ : kmalloc h₁ (cmdListSize + 128) = some (list, h₂))
    (hk₃ : kmallocAlignas h₂ rcvdFisSize 0x1000 = some (fis, h₃)) (ports : ℕ → HbaPort)
    (pi : BitVec 32) : ahciInit h ports pi = some ⟨h₃, alignAs (BitVec.ofNat 64 base) 128,
      forPorts pi (giveAddresses (alignAs (BitVec.ofNat 64 list) 128) (BitVec.ofNat 64 fis)) ports 32⟩ := by
  rw [ahciInit, hk₁, Option.bind_some]
  dsimp only
  rw [allocMemForPorts, hk₂, Option.bind_some]
  dsimp only
  rw [hk₃]
  rfl

theorem ahciInit_blocks (hw : WellFormed h free live) (hroom : Roomy free 0x20000)
    (hlow : h.kheap + heapSize ≤ 2 ^ 32) : ∃ base h₁ list h₂ fis h₃,
      kmalloc h (cmdTblSize + 128) = some (base, h₁) ∧
      kmalloc h₁ (cmdListSize + 128) = some (list, h₂) ∧
      kmallocAlignas h₂ rcvdFisSize 0x1000 = some (fis, h₃) ∧ base ≠ 0 ∧
      base + (cmdTblSize + 128) ≤ 2 ^ 32 ∧ list + (cmdListSize + 128) ≤ 2 ^ 32 ∧
      (list + (cmdListSize + 128) ≤ base ∨ base + (cmdTblSize + 128) ≤ list) := by
  have hunits₁ : nunits ((cmdTblSize + 128 : ℕ) : ℤ) = 65553 := by
    rw [nunits_eq (by decide)]
    unfold cmdTblSize prdtEntrySize prdtEntryMax
    omega
  have hunits₂ : nunits ((cmdListSize + 128 : ℕ) : ℤ) = 2057 := by
    rw [nunits_eq (by decide)]
    unfold cmdListSize
    omega
  obtain ⟨base, h₁, free₁, hk₁, hw₁, hge₁, -, hroom₁⟩ :=
    hw.kmalloc_granted (cmdTblSize + 128) 65553 (by decide) hunits₁
  obtain ⟨list, h₂, free₂, hk₂, hw₂, hge₂, -, hroom₂⟩ :=
    hw₁.kmalloc_granted (cmdListSize + 128) 2057 (by decide) hunits₂
  obtain ⟨hb, hroom'⟩ := hroom₁ 2058 (by omega) (hroom.mono (by omega))
  obtain ⟨hl, -⟩ := hroom₂ 1 (by omega) (hroom'.mono (by omega))
  obtain ⟨⟨fis, h₃⟩, hk₃⟩ := hw₂.exists_kmallocAlignas rcvdFisSize (show 16 < 0x1000 by decide)
  have hkheap : h₂.kheap = h.kheap := (kmalloc_kheap hk₂).trans (kmalloc_kheap hk₁)
  push_cast at hk₁ hk₂
  have hblock₁ : ⟨base - blkSize, 65553⟩ ∈ free₂ ++ gained (gained live base 65553) list 2057 :=
    List.mem_append_right _ (mem_gained_of_mem _ _ (mem_gained_self _ _ hb))
  have hblock₂ : ⟨list - blkSize, 2057⟩ ∈ free₂ ++ gained (gained live base 65553) list 2057 :=
    List.mem_append_right _ (mem_gained_self _ _ hl)
  have hdisj := hw₂.disjoint hblock₁ hblock₂ (fun he => by simpa using congrArg Block.units he)
  have hin₁ := hw₂.within hblock₁
  have hin₂ := hw₂.within hblock₂
  have hle₁ := hge₁ hb
  have hle₂ := hge₂ hl
  simp only [Span.Disjoint, Block.span_start, Block.span_length, hkheap, blkSize] at hdisj hin₁ hin₂ hle₁ hle₂
  refine ⟨base, h₁, list, h₂, fis, h₃, hk₁, hk₂, hk₃, hb, ?_, ?_, ?_⟩
  all_goals
    simp only [cmdTblSize, prdtEntrySize, prdtEntryMax, cmdListSize]
    omega

theorem ahciInit_reserves (hw : WellFormed h free live) (hroom : Roomy free 0x20000)
    (hlow : h.kheap + heapSize ≤ 2 ^ 32) (ports : ℕ → HbaPort) (pi : BitVec 32) :
    ∃ base h₁ d, kmalloc h (cmdTblSize + 128) = some (base, h₁) ∧ base ≠ 0 ∧
      ahciInit h ports pi = some d ∧ Reserved pi base d := by
  obtain ⟨base, h₁, list, h₂, fis, h₃, hk₁, hk₂, hk₃, hb, hbase, hlist, hapart⟩ :=
    ahciInit_blocks hw hroom hlow
  have haligned := alignAs_ofNat (a := base) (by omega)
  refine ⟨base, h₁, _, hk₁, hb, ahciInit_eq hk₁ hk₂ hk₃ ports pi, ?_, ?_, ?_, hbase, fun i hi hpi => ?_⟩
  · rw [haligned]
    omega
  · rw [haligned]
    omega
  · rw [haligned]
    omega
  · dsimp only
    rw [forPorts_eq, if_pos ⟨hi, hpi⟩, giveAddresses_clb hlist hi]
    unfold cmdListSize at hlist hapart
    omega

end Reservation

section Request

structure Request where
  fisType : ℕ
  isCommand : ℕ
  command : ℕ
  isWrite : ℕ
  lba : ℕ
  count : ℕ
  prdtl : ℕ
  ranges : List Span

def readTable (m : Memory) (table : Word) (prdtl isWrite : ℕ) : Request where
  fisType := FisRegH2d.fisType.get m table
  isCommand := FisRegH2d.c.get m table
  command := FisRegH2d.command.get m table
  isWrite := isWrite
  lba := FisRegH2d.lba0.get m table + 2 ^ 8 * FisRegH2d.lba1.get m table +
    2 ^ 16 * FisRegH2d.lba2.get m table + 2 ^ 24 * FisRegH2d.lba3.get m table +
    2 ^ 32 * FisRegH2d.lba4.get m table + 2 ^ 40 * FisRegH2d.lba5.get m table
  count := FisRegH2d.countl.get m table + 2 ^ 8 * FisRegH2d.counth.get m table
  prdtl := prdtl
  ranges := (List.range prdtl).map (prdtRange m table)

def readRequest (m : Memory) (clb : BitVec 32) (slot : ℕ) : Request :=
  let header := clb.setWidth 64 + BitVec.ofNat 64 (HbaCmdHeader.size * slot)
  let table := HbaCmdHeader.ctba.get m header + 2 ^ 32 * HbaCmdHeader.ctbau.get m header
  readTable m (BitVec.ofNat 64 table) (HbaCmdHeader.prdtl.get m header) (HbaCmdHeader.w.get m header)

structure Request.Asks (r : Request) (params : CmdParams) : Prop where
  fisType : r.fisType = 0x27
  isCommand : r.isCommand = 1
  command : r.command = params.cmdType.toNat
  isWrite : r.isWrite = params.w.toNat % 2
  lba : r.lba = params.lba.toNat
  count : r.count = params.count.toNat
  consecutive : Consecutive r.ranges params.dba.toNat
    (params.dba.toNat + 512 * params.count.toNat)
  lengths : ∀ s ∈ r.ranges, s.length % 2 = 0 ∧ 512 ≤ s.length ∧ s.length ≤ 8192

def Filled (stores : List Store) (table : Word) (k : ℕ) : Prop :=
  ∀ f ∈ lastEntryFields, f.store (prdtEntry table k) ∈ stores

variable {params : CmdParams} {table cmdTblBase : Word} {port : HbaPort} {s : DriverState} {k : ℕ}
  {t : Traced}

theorem filled_iff (params : CmdParams) (table : Word) (hk : k < prdtEntryMax) :
    Filled (tableStores params table) table k ↔ k < params.fullEntries + 1 := by
  have hlt := fullEntries_lt params
  constructor
  · intro hfilled
    have hdba := hfilled HbaPrdtEntry.dba (by simp [lastEntryFields])
    have hself : InRegion (offset (prdtEntry table k) HbaPrdtEntry.dba.offset) HbaPrdtEntry.dba.size
        (prdtEntry table k) := by
      simp [HbaPrdtEntry.dba, Field.bytes, InRegion, offset]
    have hentry : InRegion (prdtEntry table k) 16 (prdtEntry table k) := by
      simp [InRegion]
    rw [tableStores, List.mem_cons, List.mem_append] at hdba
    rcases hdba with hclear | hcfis | hprdt
    · have hsize : 4 = 0x80 + 16 * (params.fullEntries + 1) := congrArg Store.bytes hclear
      omega
    · have hin := cfis_layout.inside (by decide) _ hcfis _ hself
      have hout : ¬ InRegion (offset table 0) 0x80 (prdtEntry table k) :=
        entry_apart hentry hk (by omega) (by omega)
      exact absurd hin (by simpa [offset] using hout)
    · have hin := inside_prdtStores params table _ hprdt _ hself
      by_contra hge
      exact entries_apart hentry hk (by unfold prdtEntryMax; omega) (.inr (by omega)) hin
  · intro hle f hf
    rw [tableStores, prdtStores]
    apply List.mem_cons_of_mem
    apply List.mem_append_right
    rcases Nat.lt_succ_iff_lt_or_eq.mp hle with hfull | rfl
    · apply List.mem_append_left
      refine List.mem_flatMap.mpr ⟨k, List.mem_range.mpr hfull, List.mem_map_of_mem ?_⟩
      simp only [lastEntryFields, entryFields, List.mem_cons] at hf ⊢
      tauto
    · exact List.mem_append_right _ (List.mem_map_of_mem hf)

theorem findFreeCmdslot_idle (hidle : port.ci ||| port.sact = 0) (s : DriverState) :
    findFreeCmdslot port s = (0, s) := by
  rw [findFreeCmdslot, hidle]
  rfl

theorem isAligned_base (hal : cmdTblBase.toNat % 128 = 0) (hpos : 0 < cmdTblBase.toNat) :
    isAligned cmdTblBase 128 = true := by
  have hmod : cmdTblBase % BitVec.ofInt 64 128 = 0 := by
    apply BitVec.eq_of_toNat_eq
    rw [BitVec.toNat_umod]
    exact hal
  have hne : cmdTblBase ≠ 0 := by
    rintro rfl
    exact absurd hpos (by decide)
  exact decide_eq_true ⟨hmod, hne⟩

def headerRam (cmdTblBase : Word) (port : HbaPort) (params : CmdParams) (t : Traced) : Traced :=
  (t.fill (port.clb.setWidth 64) (fun _ => 0) 0x400).putAll (port.clb.setWidth 64)
    (headerFields cmdTblBase params)

theorem buildCmdheader_eq (hal : isAligned cmdTblBase 128 = true) (port : HbaPort)
    (params : CmdParams) (s : DriverState) : buildCmdheader cmdTblBase port 0 params s =
      .ok ⟨headerRam cmdTblBase port params s.ram, s.serial⟩ := by
  have hslot : port.clb.setWidth 64 + BitVec.ofInt 64 ((HbaCmdHeader.size : ℤ) * 0) =
      port.clb.setWidth 64 := by simp
  simp only [buildCmdheader, hal, if_true, hslot, headerRam]

theorem headerRam_wrote (cmdTblBase : Word) (port : HbaPort) (params : CmdParams) (t : Traced) :
    ∃ new, Wrote new t (headerRam cmdTblBase port params t) ∧
      Inside (InRegion (port.clb.setWidth 64) 0x400) new := by
  refine ⟨_, (wrote_fill t _ _ _).trans (wrote_putAll _ _ _), ?_⟩
  rw [inside_append]
  constructor
  · intro e he x hx
    obtain rfl := List.mem_singleton.mp he
    exact hx
  · exact header_layout.inside (by decide)

theorem get_header {f : Field} {v : ℕ} (hf : (f, v) ∈ headerFields cmdTblBase params) (t : Traced) :
    f.get (headerRam cmdTblBase port params t).mem (port.clb.setWidth 64) = v % 2 ^ f.width :=
  get_putAll header_layout (by decide) hf

theorem byte_toNat {w : ℕ} (hw : 8 ≤ w) (v : BitVec w) (n : ℕ) :
    ((v >>> n) &&& 0xff).toNat = v.toNat / 2 ^ n % 2 ^ 8 := by
  have hmask : (0xff : BitVec w).toNat = 2 ^ 8 - 1 := by
    have hle : 2 ^ 8 ≤ 2 ^ w := Nat.pow_le_pow_right (by decide) hw
    show 255 % 2 ^ w = 255
    exact Nat.mod_eq_of_lt (by omega)
  rw [BitVec.toNat_and, BitVec.toNat_ushiftRight, Nat.shiftRight_eq_div_pow, hmask]
  exact Nat.and_two_pow_sub_one_eq_mod _ 8

theorem readRequest_eq (hbelow : cmdTblBase.toNat < 2 ^ 32) (hcount : 0 < params.count.toNat)
    (t : Traced) : readRequest (headerRam cmdTblBase port params t).mem port.clb 0 =
      readTable (headerRam cmdTblBase port params t).mem cmdTblBase (params.fullEntries + 1)
        (params.w.toNat % 2) := by
  have hlt := fullEntries_lt params
  have hheader : port.clb.setWidth 64 + BitVec.ofNat 64 (HbaCmdHeader.size * 0) =
      port.clb.setWidth 64 := by simp
  have hctba : HbaCmdHeader.ctba.get (headerRam cmdTblBase port params t).mem (port.clb.setWidth 64) =
      cmdTblBase.toNat := by
    rw [get_header (v := cmdTblBase.toNat) (by simp [headerFields]) t]
    exact Nat.mod_eq_of_lt hbelow
  have hctbau : HbaCmdHeader.ctbau.get (headerRam cmdTblBase port params t).mem
      (port.clb.setWidth 64) = 0 :=
    get_header (v := 0) (by simp [headerFields]) t
  have hprdtl : HbaCmdHeader.prdtl.get (headerRam cmdTblBase port params t).mem
      (port.clb.setWidth 64) = params.fullEntries + 1 := by
    rw [get_header (v := uint64 (prdtLength params)) (by simp [headerFields]) t, prdtLength_eq hcount,
      uint64_eq (by omega)]
    exact Nat.mod_eq_of_lt (show params.fullEntries + 1 < 2 ^ 16 by omega)
  have hw : HbaCmdHeader.w.get (headerRam cmdTblBase port params t).mem (port.clb.setWidth 64) =
      params.w.toNat % 2 :=
    get_header (v := params.w.toNat) (by simp [headerFields]) t
  have htable : BitVec.ofNat 64 (cmdTblBase.toNat + 2 ^ 32 * 0) = cmdTblBase := by simp
  rw [readRequest, hheader, hctba, hctbau, hprdtl, hw, htable]

theorem lba_bytes {x : ℕ} (hx : x < 2 ^ 48) : x / 2 ^ 0 % 2 ^ 8 + 2 ^ 8 * (x / 2 ^ 8 % 2 ^ 8) +
    2 ^ 16 * (x / 2 ^ 16 % 2 ^ 8) + 2 ^ 24 * (x / 2 ^ 24 % 2 ^ 8) + 2 ^ 32 * (x / 2 ^ 32 % 2 ^ 8) +
    2 ^ 40 * (x / 2 ^ 40 % 2 ^ 8) = x := by
  rw [Nat.pow_zero, Nat.div_one, mod_add_bits x 8 8, mod_add_bits x 16 8, mod_add_bits x 24 8,
    mod_add_bits x 32 8, mod_add_bits x 40 8]
  exact Nat.mod_eq_of_lt hx

theorem readTable_asks (hv : params.Valid) {m : Memory}
    (hcfis : ∀ f v, (f, v) ∈ cfisFields params → f.get m cmdTblBase = v % 2 ^ f.width)
    (hranges : ∀ k ≤ params.fullEntries,
      prdtRange m cmdTblBase k = ⟨params.cut k, params.cut (k + 1) - params.cut k⟩) :
    (readTable m cmdTblBase (params.fullEntries + 1) (params.w.toNat % 2)).Asks params := by
  have hmap : (List.range (params.fullEntries + 1)).map (prdtRange m cmdTblBase) =
      (List.range (params.fullEntries + 1)).map
        (fun k => ⟨params.cut k, params.cut (k + 1) - params.cut k⟩) := by
    apply List.map_congr_left
    intro k hk
    exact hranges k (Nat.lt_succ_iff.mp (List.mem_range.mp hk))
  constructor
  · exact hcfis _ 0x27 (by simp [cfisFields])
  · exact hcfis _ 1 (by simp [cfisFields])
  · have h := hcfis FisRegH2d.command params.cmdType.toNat (by simp [cfisFields])
    exact h.trans (Nat.mod_eq_of_lt params.cmdType.isLt)
  · rfl
  · have h0 := hcfis FisRegH2d.lba0 ((params.lba >>> 0) &&& 0xff).toNat (by simp [cfisFields])
    have h1 := hcfis FisRegH2d.lba1 ((params.lba >>> 8) &&& 0xff).toNat (by simp [cfisFields])
    have h2 := hcfis FisRegH2d.lba2 ((params.lba >>> 16) &&& 0xff).toNat (by simp [cfisFields])
    have h3 := hcfis FisRegH2d.lba3 ((params.lba >>> 24) &&& 0xff).toNat (by simp [cfisFields])
    have h4 := hcfis FisRegH2d.lba4 ((params.lba >>> 32) &&& 0xff).toNat (by simp [cfisFields])
    have h5 := hcfis FisRegH2d.lba5 ((params.lba >>> 40) &&& 0xff).toNat (by simp [cfisFields])
    rw [byte_toNat (by decide)] at h0 h1 h2 h3 h4 h5
    simp only [readTable, h0, h1, h2, h3, h4, h5]
    simp only [FisRegH2d.lba0, FisRegH2d.lba1, FisRegH2d.lba2, FisRegH2d.lba3, FisRegH2d.lba4,
      FisRegH2d.lba5, Field.bytes, Nat.mul_one, Nat.mod_mod]
    exact lba_bytes hv.lba
  · have hl := hcfis FisRegH2d.countl ((params.count >>> 0) &&& 0xff).toNat (by simp [cfisFields])
    have hh := hcfis FisRegH2d.counth ((params.count >>> 8) &&& 0xff).toNat (by simp [cfisFields])
    rw [byte_toNat (by decide)] at hl hh
    simp only [readTable, hl, hh]
    simp only [FisRegH2d.countl, FisRegH2d.counth, Field.bytes, Nat.mul_one, Nat.mod_mod]
    rw [Nat.pow_zero, Nat.div_one, mod_add_bits]
    exact Nat.mod_eq_of_lt params.count.isLt
  · have hcuts := consecutive_cuts (cut_mono params) (params.fullEntries + 1)
    rw [cut_zero, cut_last hv.count] at hcuts
    rw [readTable, hmap]
    exact hcuts
  · intro s hs
    rw [readTable, hmap] at hs
    obtain ⟨k, hk, rfl⟩ := List.mem_map.mp hs
    have hk' := List.mem_range.mp hk
    have hpos := hv.count
    unfold CmdParams.fullEntries at hk'
    simp only [CmdParams.cut]
    omega

def Disjoined (cmdTblBase : Word) (port : HbaPort) : Prop :=
  port.clb.toNat + 0x400 ≤ 2 ^ 32 ∧ (port.clb.toNat + 0x400 ≤ cmdTblBase.toNat ∨
    cmdTblBase.toNat + cmdTblSize ≤ port.clb.toNat)

theorem get_headerRam (hdisj : Disjoined cmdTblBase port) (hbelow : cmdTblBase.toNat < 2 ^ 32)
    {f : Field} {o : ℕ} (hf : o + f.offset + f.size ≤ cmdTblSize) (t : Traced) :
    f.get (headerRam cmdTblBase port params t).mem (offset cmdTblBase o) =
      f.get t.mem (offset cmdTblBase o) := by
  obtain ⟨hlow, hapart⟩ := hdisj
  obtain ⟨new, hnew, hin⟩ := headerRam_wrote cmdTblBase port params t
  have hsize : cmdTblSize ≤ 2 ^ 32 := by decide
  apply hnew.get hin
  · unfold Field.Near
    omega
  · intro x hx hheader
    have hclb : (port.clb.setWidth 64).toNat = port.clb.toNat := by
      rw [BitVec.toNat_setWidth]
      omega
    have hunit : (offset (offset cmdTblBase o) f.offset).toNat = cmdTblBase.toNat + (o + f.offset) := by
      rw [offset_offset, offset, BitVec.toNat_add, BitVec.toNat_ofNat]
      omega
    have hx' := InRegion.toNat hx (by omega)
    have hh' := InRegion.toNat hheader (by omega)
    omega

theorem buildCommand_eq (hv : params.Valid) (hidle : port.ci ||| port.sact = 0)
    (hal : isAligned cmdTblBase 128 = true) (s : DriverState) :
    buildCommand cmdTblBase port params s = .ok (notifyCmdIsActive port 0,
      ⟨headerRam cmdTblBase port params (buildPrdt params cmdTblBase (cfisTable params cmdTblBase s.ram)),
        s.serial⟩) := by
  rw [buildCommand, findFreeCmdslot_idle hidle]
  dsimp only
  rw [buildCmdTable_eq hv, Except.bind, buildCmdheader_eq hal]
  rfl

theorem buildCommand_asks (hv : params.Valid) (hdisj : Disjoined cmdTblBase port)
    (hbelow : cmdTblBase.toNat < 2 ^ 32) (t : Traced) :
    (readRequest (headerRam cmdTblBase port params (buildPrdt params cmdTblBase
      (cfisTable params cmdTblBase t))).mem port.clb 0).Asks params := by
  have hlt := fullEntries_lt params
  have hzero : offset cmdTblBase 0 = cmdTblBase := by simp [offset]
  rw [readRequest_eq hbelow hv.count]
  apply readTable_asks hv
  · intro f v hf
    have hle : f.offset + f.size ≤ 0x80 := cfis_layout.2 f (List.mem_map.mpr ⟨_, hf, rfl⟩)
    have hkeep : f.get (headerRam cmdTblBase port params (buildPrdt params cmdTblBase
        (cfisTable params cmdTblBase t))).mem (offset cmdTblBase 0) =
        f.get (buildPrdt params cmdTblBase (cfisTable params cmdTblBase t)).mem (offset cmdTblBase 0) := by
      apply get_headerRam hdisj hbelow
      unfold cmdTblSize prdtEntrySize prdtEntryMax
      omega
    rw [hzero] at hkeep
    rw [hkeep, get_cfis cmdTblBase t hf]
  · intro k hk
    have hfield : ∀ f ∈ entryFields, f.get (headerRam cmdTblBase port params (buildPrdt params cmdTblBase
        (cfisTable params cmdTblBase t))).mem (prdtEntry cmdTblBase k) =
        f.get (buildPrdt params cmdTblBase (cfisTable params cmdTblBase t)).mem
          (prdtEntry cmdTblBase k) := by
      intro f hf
      have hle := entry_layout.2 f hf
      apply get_headerRam hdisj hbelow
      unfold cmdTblSize prdtEntrySize prdtEntryMax
      omega
    rw [← prdtRange_table hv cmdTblBase t hk]
    simp only [prdtRange, hfield HbaPrdtEntry.dba (by simp [entryFields]),
      hfield HbaPrdtEntry.dbau (by simp [entryFields]), hfield HbaPrdtEntry.dbc (by simp [entryFields])]

theorem cfisTable_wrote (params : CmdParams) (table : Word) (t : Traced) :
    Wrote (⟨table, 0x80 + 16 * (params.fullEntries + 1)⟩ ::
      ((cfisFields params).map Prod.fst).map (Field.store table)) t (cfisTable params table t) :=
  (wrote_fill t table _ _).trans (wrote_putAll _ table (cfisFields params))

theorem table_wrote (params : CmdParams) (table : Word) (t : Traced) :
    Wrote (tableStores params table) t (buildPrdt params table (cfisTable params table t)) :=
  (cfisTable_wrote params table t).trans (buildPrdt_wrote params table _)

theorem inside_cfisStores (params : CmdParams) (table : Word) :
    Inside (InRegion table cmdTblSize) (((cfisFields params).map Prod.fst).map (Field.store table)) :=
  (cfis_layout.inside (by decide)).mono (fun _ hx => hx.mono (by decide))

theorem inside_tableEntries (params : CmdParams) (table : Word) :
    Inside (InRegion table cmdTblSize) (prdtStores params table) := by
  have hlt := fullEntries_lt params
  refine (inside_prdtStores params table).mono (fun x hx => ?_)
  unfold cmdTblSize prdtEntry prdtEntrySize prdtEntryMax InRegion offset at *
  bv_omega

theorem inside_tableStores (params : CmdParams) (table : Word) :
    Inside (InRegion table cmdTblSize) (tableStores params table) := by
  have hlt := fullEntries_lt params
  have hsize : 0x80 + 16 * (params.fullEntries + 1) ≤ cmdTblSize := by
    unfold cmdTblSize prdtEntrySize prdtEntryMax
    omega
  intro e he x hx
  rw [tableStores, List.mem_cons, List.mem_append] at he
  rcases he with rfl | hcfis | hprdt
  · exact hx.mono hsize
  · exact inside_cfisStores params table e hcfis x hx
  · exact inside_tableEntries params table e hprdt x hx

end Request

/-- On an idle port every command is written as the controller reads it, and its table stays inside
the block reserved for it. -/
theorem buildCommand_decodes {h : Heap} {kheapStart : ℕ} (hal : kheapStart % blkSize = 0)
    (hbase : h.base < kheapStart) (hfreep : h.freep = h.base)
    (hlow : kheapStart + heapSize ≤ 2 ^ 32) (ports : ℕ → HbaPort) (pi : BitVec 32) :
    ∃ base h₁ d, kmalloc (initKheap h kheapStart) (cmdTblSize + 128) = some (base, h₁) ∧ base ≠ 0 ∧
      ahciInit (initKheap h kheapStart) ports pi = some d ∧
      ∀ (i : ℕ) (port : HbaPort) (params : CmdParams) (s : DriverState), i < 32 → pi >>> i ≠ 0 →
        port.clb = (d.ports i).clb → port.ci ||| port.sact = 0 → params.Valid →
        ∃ table stores header, buildCmdTable params d.cmdTblBase s = .ok table ∧
          table.ram.stores = s.ram.stores ++ stores ∧
          (∀ e ∈ stores, ∀ x, InRegion e.addr e.bytes x →
            base ≤ x.toNat ∧ x.toNat < base + (cmdTblSize + 128)) ∧
          buildCommand d.cmdTblBase port params s = .ok (notifyCmdIsActive port 0, header) ∧
          (readRequest header.ram.mem port.clb 0).Asks params ∧
          ∀ k < prdtEntryMax, Filled stores d.cmdTblBase k ↔
            k < (readRequest header.ram.mem port.clb 0).prdtl := by
  have hw := WellFormed.init hal hbase hfreep
  have hroom : Roomy [⟨kheapStart, heapSize / blkSize⟩] 0x20000 :=
    ⟨_, List.mem_singleton_self _, show 0x20000 ≤ heapSize / blkSize by decide⟩
  obtain ⟨base, h₁, d, hk, hb, hinit, hres⟩ := ahciInit_reserves hw hroom hlow ports pi
  refine ⟨base, h₁, d, hk, hb, hinit, fun i port params s hi hpi hclb hidle hv => ?_⟩
  obtain ⟨haligned, hstart, hstop, hbelow, hlists⟩ := hres
  obtain ⟨hlow, hapart⟩ := hlists i hi hpi
  have hsize : 0 < cmdTblSize := by decide
  have htable : d.cmdTblBase.toNat < 2 ^ 32 := by omega
  have hdisj : Disjoined d.cmdTblBase port := by
    rw [Disjoined, hclb]
    omega
  have hwrote := table_wrote params d.cmdTblBase s.ram
  refine ⟨_, tableStores params d.cmdTblBase, _, buildCmdTable_eq hv d.cmdTblBase s, hwrote.stores,
    fun e he x hx => ?_, buildCommand_eq hv hidle (isAligned_base haligned (by omega)) s,
    buildCommand_asks hv hdisj htable s.ram, fun k hk => ?_⟩
  · have hin := InRegion.toNat (inside_tableStores params d.cmdTblBase e he x hx) (by omega)
    omega
  · rw [readRequest_eq htable hv.count]
    exact filled_iff params d.cmdTblBase hk

theorem buildCommand_decodes_example :
    ∃ d header, ahciInit (initKheap zeroHeap 0x400000) (fun _ => ⟨0, 0, 0, 0, 0⟩) 1 = some d ∧
      buildCommand d.cmdTblBase ⟨(d.ports 0).clb, 0, 0, 0, 0⟩ (readParams 0x123456789a 33 0x900000)
        ⟨⟨fun _ => 0, []⟩, []⟩ =
        .ok (notifyCmdIsActive ⟨(d.ports 0).clb, 0, 0, 0, 0⟩ 0, header) ∧
      (readRequest header.ram.mem (d.ports 0).clb 0).Asks (readParams 0x123456789a 33 0x900000) := by
  have hal : 0x400000 % blkSize = 0 := by decide
  have hbase : zeroHeap.base < 0x400000 := by decide
  obtain ⟨base, h₁, d, -, -, hinit, hcmd⟩ :=
    buildCommand_decodes hal hbase rfl (by decide) (fun _ => ⟨0, 0, 0, 0, 0⟩) 1
  obtain ⟨table, stores, header, -, -, -, hbuild, hasks, -⟩ := hcmd 0 ⟨(d.ports 0).clb, 0, 0, 0, 0⟩
    (readParams 0x123456789a 33 0x900000) ⟨⟨fun _ => 0, []⟩, []⟩ (by decide) (by decide) rfl (BitVec.or_self ..)
    ⟨rfl, by decide, by decide, by decide, by decide, by decide⟩
  exact ⟨d, header, hinit, hbuild, hasks⟩

end MinOS
