import MinOS.AlignedAllocation
import MinOS.HeapRelease
import MinOS.Library.Runs

namespace MinOS

open Library.Rings Library.Tilings Library.Runs

structure Arena where
  heap : Heap
  live : List Block

inductive HeapOp where
  | kmalloc (size : ℤ)
  | kmallocAlignas (size alignSize : ℤ)
  | kfree (b : Block)
  | write (mem : ℕ → MallocHeader)

namespace Arena

def gain (s : Arena) (r : ℕ) (h : Heap) : Arena :=
  ⟨h, if r = 0 then s.live else ⟨r - blkSize, h.size (r - blkSize)⟩ :: s.live⟩

def Payload (s : Arena) (a : ℕ) : Prop :=
  ∃ b ∈ s.live, b.addr + blkSize ≤ a ∧ a < b.addr + blkSize * b.units

end Arena

inductive HeapStep : Arena → HeapOp → Arena → Prop
  | kmalloc {s : Arena} {size : ℤ} {r : ℕ} {h : Heap} : 0 ≤ size → size ≤ 2 ^ 31 - 16 →
      kmalloc s.heap size = some (r, h) → HeapStep s (.kmalloc size) (s.gain r h)
  | kmallocAlignas {s : Arena} {size alignSize : ℤ} {r : ℕ} {h : Heap} : 0 ≤ size →
      size ≤ 2 ^ 31 - 16 → alignSize < 2 ^ 31 → kmallocAlignas s.heap size alignSize = some (r, h) →
      HeapStep s (.kmallocAlignas size alignSize) (s.gain r h)
  | kfree {s : Arena} {b : Block} {h : Heap} : b ∈ s.live →
      kfree s.heap (b.addr + blkSize) = some h → HeapStep s (.kfree b) ⟨h, s.live.erase b⟩
  | write {s : Arena} {mem : ℕ → MallocHeader} : (∀ a, mem a ≠ s.heap.mem a → s.Payload a) →
      HeapStep s (.write mem) { s with heap := { s.heap with mem := mem } }

def HeapOp.Fills (s : Arena) : HeapOp → Prop
  | .kmallocAlignas size alignSize => 16 < alignSize → FillsToEnd s.heap alignSize (nunits size)
  | _ => True

def HeapOp.Unaligned : HeapOp → Prop
  | .kmallocAlignas _ _ => False
  | _ => True

def Serves (h : Heap) (live : List Block) (n : ℕ) (r : ℕ) (h' : Heap) : Prop :=
  r = 0 ∧ h' = h ∨ r ≠ 0 ∧ r % blkSize = 0 ∧ h'.size (r - blkSize) = n ∧ h'.kheap = h.kheap ∧
    h'.base = h.base ∧ ∃ free, WellFormed h' free (⟨r - blkSize, n⟩ :: live)

namespace WellFormed

variable {h : Heap} {free live : List Block}

theorem takeBlock_serves {as bs : List Block} {b : Block} {pre : List ℕ} {q n : ℕ}
    (hw : WellFormed h (as ++ b :: bs) live) (hq : h.base :: as.map Block.addr = pre ++ [q])
    (hn : 0 < n) (hle : n ≤ b.units) :
    Serves h live n (MinOS.takeBlock h q b.addr n).1 (MinOS.takeBlock h q b.addr n).2 := by
  have hb : h.size b.addr = b.units := hw.freeList.sizes b (by simp)
  have hw' := hw.takeBlock hq hn hle
  have htail := hw'.aligned (tailBlock b n) (by simp)
  rw [takeBlock_fst h q n hb]
  refine .inr ⟨by simp [blkSize], by simp [htail], ?_, by simp, by simp, _, hw'⟩
  rw [Nat.add_sub_cancel]
  exact takeBlock_size h q n hb

theorem kmalloc_serves (hw : WellFormed h free live) {size : ℕ} (hs : size ≤ 2 ^ 31 - 16) :
    ∃ r h', MinOS.kmalloc h size = some (r, h') ∧ Serves h live (nunits size) r h' := by
  rcases kmalloc_cases hw hs with ⟨-, hk⟩ | ⟨pre, q, as, b, bs, hq, rfl, hle, hk⟩
  · exact ⟨0, h, hk, .inl ⟨rfl, rfl⟩⟩
  · exact ⟨(MinOS.takeBlock h q b.addr _).1, (MinOS.takeBlock h q b.addr _).2, hk, hw.takeBlock_serves hq (nunits_pos hs) hle⟩

theorem kmallocAlignas_serves (hw : WellFormed h free live) {size : ℕ} {alignSize : ℤ}
    (hs : size ≤ 2 ^ 31 - 16) (hal : 16 < alignSize) (hlt : alignSize < 2 ^ 31)
    (hfill : FillsToEnd h alignSize (nunits size)) :
    ∃ r h', MinOS.kmallocAlignas h size alignSize = some (r, h') ∧ (r : ℤ) % alignSize = 0 ∧
      Serves h live (nunits size) r h' := by
  rcases kmallocAlignas_cases hw hs hal hlt hfill with hk | ⟨pre, q, as, b, bs, hq, rfl, hle, hmod, hk⟩
  · exact ⟨0, h, hk, by simp, .inl ⟨rfl, rfl⟩⟩
  · refine ⟨(MinOS.takeBlock h q b.addr _).1, (MinOS.takeBlock h q b.addr _).2, hk, ?_,
      hw.takeBlock_serves hq (nunits_pos hs) hle⟩
    rw [takeBlock_fst h q _ (hw.freeList.sizes b (by simp))]
    exact_mod_cast hmod

theorem write {s : Arena} {mem : ℕ → MallocHeader} (hw : WellFormed s.heap free s.live)
    (hmem : ∀ a, mem a ≠ s.heap.mem a → s.Payload a) :
    WellFormed { s.heap with mem := mem } free s.live := by
  have hheader : ∀ b ∈ free ++ s.live, mem b.addr = s.heap.mem b.addr := by
    intro b hb
    by_contra hne
    obtain ⟨c, hc, hlo, hhi⟩ := hmem _ hne
    have hbpos := hw.pos b hb
    have hbc : b ≠ c := by
      rintro rfl
      simp only [blkSize] at hlo
      omega
    have hdisj := hw.disjoint hb (List.mem_append_right _ hc) hbc
    simp only [Span.Disjoint, Block.span_start, Block.span_length, blkSize] at *
    omega
  have hbase : mem s.heap.base = s.heap.mem s.heap.base := by
    by_contra hne
    obtain ⟨c, hc, hlo, -⟩ := hmem _ hne
    have := (hw.within (b := c) (by simp [hc])).1
    have := hw.base_lt
    omega
  have hlist : ∀ a ∈ s.heap.base :: free.map Block.addr, mem a = s.heap.mem a := by
    intro a ha
    rcases List.mem_cons.mp ha with rfl | ha
    · exact hbase
    · obtain ⟨b, hb, rfl⟩ := List.mem_map.mp ha
      exact hheader b (List.mem_append_left _ hb)
  have hf := hw.freeList
  refine ⟨⟨hf.ring.congr (fun a ha => ?_), hf.freep_mem, ?_, fun b hb => ?_, hf.pos, hf.above,
    hf.apart⟩, fun b hb => ?_, hw.live_pos, hw.aligned, hw.tiles, hw.base_lt⟩
  · simp only [Heap.next, hlist a ha]
  · rw [← hf.base_size]
    simp only [Heap.size, hbase]
  · rw [← hf.sizes b hb]
    simp only [Heap.size, hheader b (List.mem_append_left _ hb)]
  · rw [← hw.headers b hb]
    simp only [Heap.size, hheader b (List.mem_append_right _ hb)]

theorem init {h : Heap} {kheapStart : ℕ} (hal : kheapStart % blkSize = 0)
    (hbase : h.base < kheapStart) (hfreep : h.freep = h.base) :
    WellFormed (initKheap h kheapStart) [⟨kheapStart, heapSize / blkSize⟩] [] := by
  have hne : h.base ≠ kheapStart := hbase.ne
  refine ⟨⟨?_, ?_, ?_, ?_, ?_, ?_, ?_⟩, by simp, by simp, ?_, fun a => ?_, hbase⟩
  · simp [Circular, initKheap, hne.symm]
  · simp [initKheap, hfreep, Heap.setNext, Heap.setSize]
  · simp [initKheap]
  · simp [initKheap, hne.symm]
  · simp [heapSize, blkSize]
  · simp [initKheap, hbase]
  · simp
  · simpa using hal
  · have hkheap : (initKheap h kheapStart).kheap = kheapStart := rfl
    have hlen : blkSize * (heapSize / blkSize) = heapSize := rfl
    simp [Block.span, hkheap, hlen]

end WellFormed

namespace Arena

variable {s t : Arena} {free : List Block} {op : HeapOp} {n r : ℕ} {h : Heap}

theorem gain_wellFormed (hw : WellFormed s.heap free s.live) (hs : Serves s.heap s.live n r h) :
    ∃ free', WellFormed (s.gain r h).heap free' (s.gain r h).live ∧
      h.kheap = s.heap.kheap ∧ h.base = s.heap.base := by
  rcases hs with ⟨rfl, rfl⟩ | ⟨hr, -, hsize, hkheap, hbase, free', hw'⟩
  · exact ⟨free, hw, rfl, rfl⟩
  · refine ⟨free', ?_, hkheap, hbase⟩
    simpa [gain, hr, hsize] using hw'

theorem step_wellFormed (hw : WellFormed s.heap free s.live) (hstep : HeapStep s op t)
    (hfill : op.Fills s) : ∃ free', WellFormed t.heap free' t.live ∧
      t.heap.kheap = s.heap.kheap ∧ t.heap.base = s.heap.base := by
  cases hstep with
  | @kmalloc size r h h0 hs hk =>
    obtain ⟨m, rfl⟩ := Int.eq_ofNat_of_zero_le h0
    obtain ⟨r', h', hk', hserves⟩ := hw.kmalloc_serves (show m ≤ 2 ^ 31 - 16 by omega)
    obtain ⟨rfl, rfl⟩ : r = r' ∧ h = h' := by simpa [hk'] using hk.symm
    exact gain_wellFormed hw hserves
  | @kmallocAlignas size alignSize r h h0 hs hlt hk =>
    obtain ⟨m, rfl⟩ := Int.eq_ofNat_of_zero_le h0
    by_cases hal : alignSize ≤ 16
    · obtain ⟨r', h', hk', hserves⟩ := hw.kmalloc_serves (show m ≤ 2 ^ 31 - 16 by omega)
      rw [MinOS.kmallocAlignas, if_pos hal] at hk
      obtain ⟨rfl, rfl⟩ : r = r' ∧ h = h' := by simpa [hk'] using hk.symm
      exact gain_wellFormed hw hserves
    · obtain ⟨r', h', hk', -, hserves⟩ := hw.kmallocAlignas_serves (show m ≤ 2 ^ 31 - 16 by omega)
        (by omega) hlt (hfill (by omega))
      obtain ⟨rfl, rfl⟩ : r = r' ∧ h = h' := by simpa [hk'] using hk.symm
      exact gain_wellFormed hw hserves
  | @kfree b h hb hk =>
    obtain ⟨h', free', hk', hkheap, hbase, hw'⟩ := hw.kfree hb
    obtain rfl : h = h' := by simpa [hk'] using hk.symm
    exact ⟨free', hw', hkheap, hbase⟩
  | write hmem => exact ⟨free, hw.write hmem, rfl, rfl⟩

structure Sound (s : Arena) (base kheap : ℕ) (free : List Block) : Prop where
  circular : Circular s.heap.next base (free.map Block.addr)
  freep_mem : s.heap.freep ∈ base :: free.map Block.addr
  increasing : (base :: free.map Block.addr).Pairwise (· < ·)
  sizes : ∀ b ∈ free ++ s.live, s.heap.size b.addr = b.units
  disjoint : (free ++ s.live).Pairwise (fun b c => b.span.Disjoint c.span)
  inside : ∀ b ∈ free ++ s.live, kheap ≤ b.addr ∧ b.addr + blkSize * b.units ≤ kheap + heapSize
  tiles : Tiles ((free ++ s.live).map Block.span) kheap (kheap + heapSize)
  units : ((free ++ s.live).map Block.units).sum = heapSize / blkSize

theorem sound (hw : WellFormed s.heap free s.live) : s.Sound s.heap.base s.heap.kheap free := by
  have hf := hw.freeList
  refine ⟨hf.ring, hf.freep_mem, hf.increasing, fun b hb => ?_, hw.pairwise,
    fun b hb => hw.within hb, hw.tiles, hw.sum_units⟩
  rcases List.mem_append.mp hb with hb | hb
  · exact hf.sizes b hb
  · exact hw.headers b hb

theorem run_wellFormed {h : Heap} {kheapStart : ℕ} {ops : List HeapOp}
    (hal : kheapStart % blkSize = 0) (hbase : h.base < kheapStart) (hfreep : h.freep = h.base)
    (hrun : Run (fun s op t => HeapStep s op t ∧ op.Fills s) ⟨initKheap h kheapStart, []⟩ ops s) :
    ∃ free, WellFormed s.heap free s.live ∧ s.heap.kheap = kheapStart ∧ s.heap.base = h.base := by
  refine hrun.invariant (I := fun s => ∃ free, WellFormed s.heap free s.live ∧
    s.heap.kheap = kheapStart ∧ s.heap.base = h.base)
    ⟨_, WellFormed.init hal hbase hfreep, rfl, rfl⟩ ?_
  rintro s op t ⟨free, hw, hkheap, hbase⟩ ⟨hstep, hfill⟩
  obtain ⟨free', hw', hkheap', hbase'⟩ := step_wellFormed hw hstep hfill
  exact ⟨free', hw', hkheap'.trans hkheap, hbase'.trans hbase⟩

theorem unaligned_wellFormed {h : Heap} {kheapStart : ℕ} {ops : List HeapOp}
    (hal : kheapStart % blkSize = 0) (hbase : h.base < kheapStart) (hfreep : h.freep = h.base)
    (hrun : Run (fun s op t => HeapStep s op t ∧ op.Unaligned) ⟨initKheap h kheapStart, []⟩ ops s) :
    ∃ free, WellFormed s.heap free s.live ∧ s.heap.kheap = kheapStart ∧ s.heap.base = h.base := by
  apply run_wellFormed hal hbase hfreep
  refine hrun.mono (fun {t op u} ⟨hstep, hplain⟩ => ⟨hstep, ?_⟩)
  cases op <;> trivial

end Arena

end MinOS
