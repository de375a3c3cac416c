import MinOS.HeapSoundness

namespace MinOS

open Library.Integers Library.Rings Library.Tilings Library.Runs

variable {h : Heap} {free live : List Block} {size alignSize : ℤ} {n : ℕ}

theorem WellFormed.setFreep {q : ℕ} (hw : WellFormed h free live)
    (hq : q ∈ h.base :: free.map Block.addr) : WellFormed (h.setFreep q) free live := by
  have hf := hw.freeList
  exact ⟨⟨hf.ring, hq, hf.base_size, hf.sizes, hf.pos, hf.above, hf.apart⟩, hw.headers,
    hw.live_pos, hw.aligned, hw.tiles, hw.base_lt⟩

theorem nunits_eq_roundUpBlock (h0 : 0 ≤ size) (hs : size ≤ 2 ^ 31 - 16) :
    (nunits size : ℤ) = roundUpBlock size blkSize + 1 := by
  obtain ⟨m, rfl⟩ := Int.eq_ofNat_of_zero_le h0
  rw [nunits_eq (by omega), roundUpBlock_eq (by omega)]
  rfl

def CutsOff (free free' : List Block) (r n : ℕ) : Prop :=
  ∃ as b bs, free = as ++ b :: bs ∧ free' = as ++ shrink b n ++ bs ∧ n ≤ b.units ∧
    r = (tailBlock b n).addr + blkSize ∧
    ∀ a, cover (free'.map Block.span) a + cover [(tailBlock b n).span] a =
      cover (free.map Block.span) a

theorem cutsOff {as bs : List Block} {b : Block} (hle : n ≤ b.units) :
    CutsOff (as ++ b :: bs) (as ++ shrink b n ++ bs) ((tailBlock b n).addr + blkSize) n := by
  refine ⟨as, b, bs, rfl, rfl, hle, rfl, fun a => ?_⟩
  have hcover := cover_shrink hle a
  simp only [List.map_append, List.map_cons, cover_append, cover_cons, cover_nil] at hcover ⊢
  omega

theorem WellFormed.kmalloc_answers (hw : WellFormed h free live) (h0 : 0 ≤ size)
    (hs : size ≤ 2 ^ 31 - 16) :
    ∃ r h', kmalloc h size = some (r, h') ∧
      (r ≠ 0 ↔ ∃ b ∈ free, roundUpBlock size blkSize + 1 ≤ b.units) ∧ (r = 0 → h' = h) ∧
      (r ≠ 0 → h'.size (r - blkSize) = nunits size ∧ h'.base = h.base ∧ h'.kheap = h.kheap ∧
        ∃ free', WellFormed h' free' (⟨r - blkSize, nunits size⟩ :: live) ∧
          CutsOff free free' r (nunits size)) := by
  have hunits := nunits_eq_roundUpBlock h0 hs
  obtain ⟨m, rfl⟩ := Int.eq_ofNat_of_zero_le h0
  have hm : m ≤ 2 ^ 31 - 16 := by omega
  rw [← hunits]
  rcases kmalloc_cases hw hm with ⟨hnone, hk⟩ | ⟨pre, q, as, b, bs, hq, rfl, hle, hk⟩
  · refine ⟨0, h, hk, ?_, fun _ => rfl, fun hr => absurd rfl hr⟩
    constructor
    · intro hr
      exact absurd rfl hr
    · rintro ⟨b, hb, hle⟩
      have := hnone b hb
      omega
  · have hb : h.size b.addr = b.units := hw.freeList.sizes b (by simp)
    have hr := takeBlock_fst h q (nunits m) hb
    have hptr : (MinOS.takeBlock h q b.addr (nunits m)).1 - blkSize = (tailBlock b (nunits m)).addr := by
      rw [hr, Nat.add_sub_cancel]
    refine ⟨(MinOS.takeBlock h q b.addr _).1, (MinOS.takeBlock h q b.addr _).2, hk, ?_,
      fun h0 => ?_, fun _ =>
        ⟨?_, by simp, by simp, as ++ shrink b (nunits m) ++ bs, ?_, ?_⟩⟩
    · constructor
      · intro _
        exact ⟨b, by simp, by exact_mod_cast hle⟩
      · intro _
        rw [hr]
        simp [blkSize]
    · rw [hr] at h0
      simp [blkSize] at h0
    · rw [hptr]
      exact takeBlock_size h q _ hb
    · rw [hptr]
      exact hw.takeBlock hq (nunits_pos hm) hle
    · rw [hr]
      exact cutsOff hle

variable {kheapStart : ℕ} {ops : List HeapOp} {s : Arena}

theorem kmalloc_exact (hal : kheapStart % blkSize = 0) (hbase : h.base < kheapStart)
    (hfreep : h.freep = h.base)
    (hrun : Run (fun s op t => HeapStep s op t ∧ op.Unaligned) ⟨initKheap h kheapStart, []⟩ ops s) :
    ∃ free, s.Sound h.base kheapStart free ∧
      ∀ q ∈ h.base :: free.map Block.addr, ∀ size : ℤ, 0 ≤ size → size ≤ 2 ^ 31 - 16 →
        ∃ r h', kmalloc (s.heap.setFreep q) size = some (r, h') ∧
          (r ≠ 0 ↔ ∃ b ∈ free, roundUpBlock size blkSize + 1 ≤ b.units) ∧
          (r = 0 → h' = s.heap.setFreep q) ∧
          (r ≠ 0 → ∃ free', (s.gain r h').Sound h.base kheapStart free' ∧
            h'.size (r - blkSize) = nunits size ∧ CutsOff free free' r (h'.size (r - blkSize))) := by
  obtain ⟨free, hw, hkheap, hb⟩ := Arena.unaligned_wellFormed hal hbase hfreep hrun
  refine ⟨free, hkheap ▸ hb ▸ Arena.sound hw, fun q hq size h0 hs => ?_⟩
  obtain ⟨r, h', hk, hiff, hnull, hserved⟩ := (hw.setFreep (hb ▸ hq)).kmalloc_answers h0 hs
  refine ⟨r, h', hk, hiff, hnull, fun hr => ?_⟩
  obtain ⟨hsize, hbase', hkheap', free', hw', hcut⟩ := hserved hr
  refine ⟨free', ?_, hsize, hsize.symm ▸ hcut⟩
  have hgain : s.gain r h' = ⟨h', ⟨r - blkSize, nunits size⟩ :: s.live⟩ := by
    simp [Arena.gain, hr, hsize]
  have hb' : h'.base = h.base := hbase'.trans hb
  have hkheap'' : h'.kheap = kheapStart := hkheap'.trans hkheap
  rw [hgain]
  exact hkheap'' ▸ hb' ▸ Arena.sound (s := ⟨h', _⟩) hw'

theorem zeroHeap_free
    (hsound : Arena.Sound ⟨initKheap zeroHeap 0x400000, []⟩ 0x1000 0x400000 free) :
    free = [⟨0x400000, 262144⟩] := by
  have hring : Circular (initKheap zeroHeap 0x400000).next 0x1000 [0x400000] := by
    simp only [Circular, List.isChain_cons_cons, List.cons_append, List.nil_append]
    exact ⟨by decide, by decide, .singleton _⟩
  have haddrs : free.map Block.addr = [0x400000] := by
    refine hsound.circular.unique hring (fun hm => ?_) (by decide)
    exact absurd ((List.pairwise_cons.mp hsound.increasing).1 _ hm) (by decide)
  obtain ⟨⟨addr, units⟩, _, rfl, hb, hnil⟩ := List.map_eq_cons_iff.mp haddrs
  obtain rfl := List.map_eq_nil_iff.mp hnil
  obtain rfl : addr = 0x400000 := hb
  have hunits := hsound.sizes ⟨0x400000, units⟩ (by simp)
  obtain rfl : 262144 = units := hunits
  rfl

theorem kmalloc_exact_example :
    (∃ r h', kmalloc (initKheap zeroHeap 0x400000) 100 = some (r, h') ∧ r ≠ 0) ∧
      ∃ r h', kmalloc ((initKheap zeroHeap 0x400000).setFreep 0x400000) 0x400000 = some (r, h') ∧
        r = 0 := by
  have hal : 0x400000 % blkSize = 0 := by decide
  obtain ⟨free, hsound, hexact⟩ := kmalloc_exact (h := zeroHeap) hal (by decide) rfl .nil
  obtain rfl := zeroHeap_free hsound
  constructor
  · obtain ⟨r, h', hk, hiff, -⟩ := hexact 0x1000 (List.mem_cons_self ..) 100 (by decide) (by decide)
    exact ⟨r, h', hk, hiff.mpr ⟨_, List.mem_cons_self .., by decide⟩⟩
  · obtain ⟨r, h', hk, hiff, -⟩ := hexact 0x400000 (by simp) 0x400000 (by decide) (by decide)
    refine ⟨r, h', hk, ?_⟩
    by_contra hr
    obtain ⟨b, hb, hle⟩ := hiff.mp hr
    rw [List.mem_singleton.mp hb] at hle
    exact absurd hle (by decide)

def HasRoom (b : Block) (alignSize : ℤ) (n a : ℕ) : Prop :=
  (a : ℤ) % alignSize = 0 ∧ a < b.addr + blkSize * b.units ∧ b.addr + blkSize ≤ a ∧
    a - blkSize + blkSize * n ≤ b.addr + blkSize * b.units

instance (b : Block) (alignSize : ℤ) (n a : ℕ) : Decidable (HasRoom b alignSize n a) :=
  inferInstanceAs (Decidable (_ ∧ _ ∧ _ ∧ _))

def LastHasRoom (b : Block) (alignSize : ℤ) (n : ℕ) : Prop :=
  ∃ a, HasRoom b alignSize n a ∧
    ∀ c : ℕ, (c : ℤ) % alignSize = 0 → c < b.addr + blkSize * b.units → c ≤ a

theorem alignedLoop_last {start align k i : ℕ} (hi : 0 < i) (hik : i ≤ k)
    (hal : (start + blkSize * i) % align = 0) :
    start + blkSize * i ≤ alignedLoop start align k := by
  induction k with
  | zero => omega
  | succ k ih =>
    rw [alignedLoop]
    split_ifs with hlast
    · have := Nat.mul_le_mul_left blkSize hik
      omega
    · apply ih
      rcases Nat.lt_or_eq_of_le hik with hlt | rfl
      · omega
      · exact absurd hal hlast

theorem takeAligned_returns (h : Heap) (q p a n : ℕ) : ∃ h', takeAligned h q p a n = (a, h') := by
  unfold takeAligned
  split_ifs
  · exact ⟨_, rfl⟩
  · exact ⟨_, rfl⟩

namespace WellFormed

variable {b : Block} {align : ℕ}

theorem alignedAddr_eq (hw : WellFormed h free live) (hb : b ∈ free) (hlt : align < 2 ^ 31) :
    alignedAddr h align b.addr = alignedLoop b.addr align (b.units - 1) := by
  have hle := hw.units_le (b := b) (by simp [hb])
  simp only [heapSize, blkSize] at hle
  have hsize : int32 (h.size b.addr) = b.units := by
    rw [hw.freeList.sizes b hb, int32_eq (by omega) (by omega)]
  have hun : uint64 (align : ℤ) = align := uint64_eq (by omega)
  have hcount : ((b.units : ℤ) - 1).toNat = b.units - 1 := by omega
  rw [alignedAddr, getAlignedAddress, hsize, hun, hcount]

theorem header_of_aligned (hw : WellFormed h free live) (hb : b ∈ free) {a : ℕ}
    (hdvd : blkSize ∣ align) (ha : (a : ℤ) % align = 0) (hlo : b.addr ≤ a) :
    ∃ i, a = b.addr + blkSize * i := by
  have hbal := hw.aligned b (by simp [hb])
  have hmul : blkSize ∣ a := by
    apply Nat.dvd_trans hdvd
    apply Nat.dvd_of_mod_eq_zero
    exact_mod_cast ha
  simp only [blkSize] at hbal hmul ⊢
  exact ⟨(a - b.addr) / 16, by omega⟩

theorem le_alignedAddr (hw : WellFormed h free live) (hb : b ∈ free) (hdvd : blkSize ∣ align)
    (hlt : align < 2 ^ 31) {c : ℕ} (hc : (c : ℤ) % align = 0) (hlo : b.addr < c)
    (hhi : c < b.addr + blkSize * b.units) : c ≤ alignedAddr h align b.addr := by
  obtain ⟨i, rfl⟩ := hw.header_of_aligned hb hdvd hc hlo.le
  simp only [blkSize] at hlo hhi
  rw [hw.alignedAddr_eq hb hlt]
  apply alignedLoop_last (by omega) (by omega)
  exact_mod_cast hc

theorem hasRoom_of_fits (hw : WellFormed h free live) (hb : b ∈ free) (hpos : 0 < align)
    (hlt : align < 2 ^ 31) (hfit : fitsAligned h align n b.addr = true) :
    HasRoom b align n (alignedAddr h align b.addr) := by
  have hsize : h.size b.addr = b.units := hw.freeList.sizes b hb
  simp only [fitsAligned, decide_eq_true_eq, hsize] at hfit
  obtain ⟨hnz, hroom⟩ := hfit
  rcases hw.alignedAddr_cases hb (Int.natCast_pos.mpr hpos) (by exact_mod_cast hlt) with
    hz | ⟨i, hipos, hi, he, hmod⟩
  · exact absurd hz hnz
  · refine ⟨hmod, ?_, ?_, hroom⟩
    · simp only [he, blkSize]
      omega
    · simp only [he, blkSize]
      omega

theorem fitsAligned_iff (hw : WellFormed h free live) (hb : b ∈ free) (hdvd : blkSize ∣ align)
    (hpos : 0 < align) (hlt : align < 2 ^ 31) :
    fitsAligned h align n b.addr = true ↔ LastHasRoom b align n := by
  have hsize : h.size b.addr = b.units := hw.freeList.sizes b hb
  have hcases := hw.alignedAddr_cases hb (Int.natCast_pos.mpr hpos) (by exact_mod_cast hlt)
  constructor
  · intro hfit
    have hroom := hw.hasRoom_of_fits hb hpos hlt hfit
    refine ⟨_, hroom, fun c hc hhi => ?_⟩
    rcases Nat.lt_or_ge b.addr c with hlo | hlo
    · exact hw.le_alignedAddr hb hdvd hlt hc hlo hhi
    · exact hlo.trans ((Nat.le_add_right ..).trans hroom.2.2.1)
  · rintro ⟨a, ⟨hmod, hhi, hlo, hroom⟩, hmax⟩
    simp only [blkSize] at hlo
    have hle := hw.le_alignedAddr hb hdvd hlt hmod (by omega) hhi
    rcases hcases with hz | ⟨i, hipos, hi, he, hmod'⟩
    · omega
    · have hge := hmax _ hmod' (by rw [he]; simp only [blkSize]; omega)
      have haa : alignedAddr h align b.addr = a := by omega
      simp only [fitsAligned, decide_eq_true_eq, hsize, haa]
      exact ⟨by omega, hroom⟩

theorem kmallocAlignas_answers (hw : WellFormed h free live) (hdvd : blkSize ∣ align)
    (hgt : 16 < align) (hlt : align < 2 ^ 31) :
    ∃ r h', kmallocAlignas h size align = some (r, h') ∧
      (r ≠ 0 ↔ ∃ b ∈ free, LastHasRoom b align (nunits size)) ∧ (r = 0 → h' = h) ∧
      (r ≠ 0 → ∃ b ∈ free, HasRoom b align (nunits size) r) := by
  have hbig : ¬ (align : ℤ) ≤ 16 := by omega
  rcases hw.freeList.search_cases hw.length_lt _ (hw.fitsAligned_base align (nunits size)) with
    ⟨hnone, hsearch⟩ | ⟨pre, q, as, b, bs, -, rfl, ⟨_, _, _, hfit⟩, hsearch⟩
  · refine ⟨0, h, by simp only [kmallocAlignas, if_neg hbig, hsearch], ?_, fun _ => rfl,
      fun hr => absurd rfl hr⟩
    constructor
    · intro hr
      exact absurd rfl hr
    · rintro ⟨b, hb, hlast⟩
      have hfit := (hw.fitsAligned_iff hb hdvd (by omega) hlt).mpr hlast
      exact absurd hfit (by simp [hnone b hb])
  · have hb : b ∈ as ++ b :: bs := by simp
    have hnz : alignedAddr h align b.addr ≠ 0 := by
      simp only [fitsAligned, decide_eq_true_eq] at hfit
      exact hfit.1
    obtain ⟨h', htake⟩ :=
      takeAligned_returns h q b.addr (alignedAddr h align b.addr) (nunits size)
    refine ⟨alignedAddr h align b.addr, h', ?_, ?_, fun h0 => absurd h0 hnz,
      fun _ => ⟨b, hb, hw.hasRoom_of_fits hb (by omega) hlt hfit⟩⟩
    · simp only [kmallocAlignas, if_neg hbig, hsearch, htake]
    · exact iff_of_true hnz ⟨b, hb, (hw.fitsAligned_iff hb hdvd (by omega) hlt).mp hfit⟩

end WellFormed

theorem LastHasRoom.length_le {b : Block} {align : ℕ} (h : LastHasRoom b align n) (hpos : 0 < align) :
    blkSize * n ≤ align + blkSize := by
  obtain ⟨a, ⟨hmod, hhi, hlo, hroom⟩, hmax⟩ := h
  by_contra hlt
  have hnext : ((a + align : ℕ) : ℤ) % align = 0 := by
    push_cast
    rw [Int.add_emod_right]
    exact hmod
  have := hmax (a + align) hnext (by omega)
  omega

theorem WellFormed.kmallocAlignas_long {align : ℕ} (hw : WellFormed h free live) (hdvd : blkSize ∣ align)
    (hgt : 16 < align) (hlt : align < 2 ^ 31) (hlong : align + blkSize < blkSize * nunits size) :
    kmallocAlignas h size align = some (0, h) := by
  obtain ⟨r, h', hk, hiff, hnull, -⟩ : ∃ r h', kmallocAlignas h size align = some (r, h') ∧ _ ∧ _ ∧ _ :=
    hw.kmallocAlignas_answers hdvd hgt hlt
  have hr : r = 0 := by
    by_contra hr
    obtain ⟨b, -, hroom⟩ := hiff.mp hr
    have := hroom.length_le (by omega)
    omega
  rw [hk, hr, hnull hr]

theorem blkSize_dvd_two_pow {k : ℕ} (hk : 16 < 2 ^ k) : blkSize ∣ 2 ^ k := by
  apply Nat.pow_dvd_pow 2 (m := 4)
  by_contra hlt
  have := Nat.pow_le_pow_right (n := 2) (by omega) (show k ≤ 4 by omega)
  omega

def AnswersRoom (h : Heap) (free : List Block) (size alignSize : ℤ) : Prop :=
  ∃ r h', kmallocAlignas h size alignSize = some (r, h') ∧
    ((∃ b ∈ free, ∃ a, HasRoom b alignSize (nunits size) a) → r ≠ 0) ∧
    ((¬ ∃ b ∈ free, ∃ a, HasRoom b alignSize (nunits size) a) → r = 0 ∧ h' = h)

theorem kmallocAlignas_answers_iff (hal : kheapStart % blkSize = 0) (hbase : h.base < kheapStart)
    (hfreep : h.freep = h.base)
    (hrun : Run (fun s op t => HeapStep s op t ∧ op.Unaligned) ⟨initKheap h kheapStart, []⟩ ops s) :
    ∃ free, s.Sound h.base kheapStart free ∧
      ∀ size : ℤ, 0 ≤ size → size ≤ 2 ^ 31 - 16 → ∀ k : ℕ, 16 < 2 ^ k → 2 ^ k < 2 ^ 31 →
        (AnswersRoom s.heap free size (2 ^ k : ℕ) ↔
          ((∃ b ∈ free, ∃ a, HasRoom b (2 ^ k : ℕ) (nunits size) a) →
            ∃ b ∈ free, LastHasRoom b (2 ^ k : ℕ) (nunits size))) := by
  obtain ⟨free, hw, hkheap, hb⟩ := Arena.unaligned_wellFormed hal hbase hfreep hrun
  refine ⟨free, hkheap ▸ hb ▸ Arena.sound hw, fun size h0 hs k hgt hlt => ?_⟩
  obtain ⟨r, h', hk, hiff, hnull, -⟩ : ∃ r h', kmallocAlignas s.heap size (2 ^ k : ℕ) = some (r, h') ∧
      (r ≠ 0 ↔ ∃ b ∈ free, LastHasRoom b (2 ^ k : ℕ) (nunits size)) ∧ (r = 0 → h' = s.heap) ∧ _ :=
    hw.kmallocAlignas_answers (blkSize_dvd_two_pow hgt) hgt hlt
  have hlast : (∃ b ∈ free, LastHasRoom b (2 ^ k : ℕ) (nunits size)) →
      ∃ b ∈ free, ∃ a, HasRoom b (2 ^ k : ℕ) (nunits size) a := by
    rintro ⟨b, hb, a, ha, -⟩
    exact ⟨b, hb, a, ha⟩
  constructor
  · rintro ⟨r', h'', hk', hroom, -⟩ hex
    have hsame : (r', h'') = (r, h') := Option.some.inj (hk'.symm.trans hk)
    obtain ⟨rfl, rfl⟩ := Prod.mk.inj hsame
    exact hiff.mp (hroom hex)
  · intro hcond
    refine ⟨r, h', hk, fun hex => hiff.mpr (hcond hex), fun hno => ?_⟩
    have hr : r = 0 := by
      by_contra hr
      exact hno (hlast (hiff.mp hr))
    exact ⟨hr, hnull hr⟩

theorem kmallocAlignas_answers_iff_example :
    AnswersRoom (initKheap zeroHeap 0x400000) [⟨0x400000, 262144⟩] 256 (2 ^ 12 : ℕ) := by
  have hal : 0x400000 % blkSize = 0 := by decide
  obtain ⟨free, hsound, hiff⟩ := kmallocAlignas_answers_iff (h := zeroHeap) hal (by decide) rfl .nil
  obtain rfl := zeroHeap_free hsound
  refine (hiff 256 (by decide) (by decide) 12 (by decide) (by decide)).mpr (fun _ => ?_)
  refine ⟨_, List.mem_cons_self .., 0x7ff000, by decide, fun c hc hhi => ?_⟩
  simp only [blkSize] at hhi
  omega

/-- 8 KiB aligned to 4 KiB: the last page of an empty heap is too short, and no other is tried. -/
theorem kmallocAlignas_misses_room :
    Run (fun s op t => HeapStep s op t ∧ HeapOp.Unaligned op) ⟨initKheap zeroHeap 0x400000, []⟩ []
        ⟨initKheap zeroHeap 0x400000, []⟩ ∧
      Arena.Sound ⟨initKheap zeroHeap 0x400000, []⟩ 0x1000 0x400000 [⟨0x400000, 262144⟩] ∧
      ¬ AnswersRoom (initKheap zeroHeap 0x400000) [⟨0x400000, 262144⟩] 0x2000 (2 ^ 12 : ℕ) := by
  have hal : 0x400000 % blkSize = 0 := by decide
  have hbase : zeroHeap.base < 0x400000 := by decide
  refine ⟨.nil, Arena.sound (s := ⟨_, []⟩) (WellFormed.init hal hbase rfl), ?_⟩
  rintro ⟨r, h', hk, hroom, -⟩
  have hval : (kmallocAlignas (initKheap zeroHeap 0x400000) 0x2000 (2 ^ 12 : ℕ)).map Prod.fst =
      some 0 := by decide +kernel
  rw [hk] at hval
  obtain rfl : r = 0 := Option.some.inj hval
  exact hroom ⟨_, List.mem_cons_self .., 0x401000, by decide⟩ rfl

end MinOS
