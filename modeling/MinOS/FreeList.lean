import MinOS.Heap
import MinOS.Library.Tilings

/-!
What the heap looks like between two calls: the free list as a list of blocks, and the
free and the live blocks as a tiling of the heap area.
-/

namespace MinOS

open Library.Rings Library.Tilings

structure Block where
  addr : ℕ
  units : ℕ
deriving DecidableEq

def Block.span (b : Block) : Span := ⟨b.addr, blkSize * b.units⟩

@[simp] theorem Block.span_start (b : Block) : b.span.start = b.addr := rfl
@[simp] theorem Block.span_length (b : Block) : b.span.length = blkSize * b.units := rfl

structure FreeList (h : Heap) (free : List Block) : Prop where
  ring : Circular h.next h.base (free.map Block.addr)
  freep_mem : h.freep ∈ h.base :: free.map Block.addr
  base_size : h.size h.base = 0
  sizes : ∀ b ∈ free, h.size b.addr = b.units
  pos : ∀ b ∈ free, 0 < b.units
  above : ∀ b ∈ free, h.base < b.addr
  apart : free.Pairwise (fun b c => b.addr + blkSize * b.units < c.addr)

/-- The free blocks `free` and the blocks `live` that clients hold tile the heap area. -/
structure WellFormed (h : Heap) (free live : List Block) : Prop where
  freeList : FreeList h free
  headers : ∀ b ∈ live, h.size b.addr = b.units
  live_pos : ∀ b ∈ live, 0 < b.units
  aligned : ∀ b ∈ free ++ live, b.addr % blkSize = 0
  tiles : Tiles ((free ++ live).map Block.span) h.kheap (h.kheap + heapSize)
  base_lt : h.base < h.kheap

namespace FreeList

variable {h : Heap} {free : List Block}

theorem increasing (hf : FreeList h free) :
    (h.base :: free.map Block.addr).Pairwise (· < ·) := by
  refine .cons ?_ ?_
  · intro a ha
    obtain ⟨b, hb, rfl⟩ := List.mem_map.mp ha
    exact hf.above b hb
  · rw [List.pairwise_map]
    exact hf.apart.imp (fun hbc => by omega)

theorem nodup (hf : FreeList h free) : (h.base :: free.map Block.addr).Nodup :=
  hf.increasing.imp Nat.ne_of_lt

theorem next_last {as bs : List Block} {pre : List ℕ} {q : ℕ} (hf : FreeList h (as ++ bs))
    (hq : h.base :: as.map Block.addr = pre ++ [q]) :
    h.next q = (bs.map Block.addr).headD h.base := by
  have hring := hf.ring
  rw [List.map_append] at hring
  exact hring.next_last hq

theorem ne_of_mem {as bs : List Block} {pre : List ℕ} {q a : ℕ} (hf : FreeList h (as ++ bs))
    (hq : h.base :: as.map Block.addr = pre ++ [q]) (ha : a ∈ pre ++ bs.map Block.addr) :
    a ≠ q := by
  have hnd := hf.nodup
  have hshape : h.base :: (as ++ bs).map Block.addr = pre ++ q :: bs.map Block.addr := by
    rw [List.map_append, ← List.cons_append, hq]; simp
  rw [hshape, List.nodup_middle] at hnd
  rintro rfl
  exact (List.nodup_cons.mp hnd).1 ha

theorem relink {as ms ms' bs : List Block} {pre : List ℕ} {q : ℕ} {h' : Heap}
    (hf : FreeList h (as ++ ms ++ bs)) (hq : h.base :: as.map Block.addr = pre ++ [q])
    (hbase : h'.base = h.base) (hother : ∀ a ∈ pre ++ bs.map Block.addr, h'.next a = h.next a)
    (hmid : List.IsChain (fun a b => h'.next a = b)
      (q :: (ms'.map Block.addr ++ [(bs.map Block.addr).headD h.base]))) :
    Circular h'.next h'.base ((as ++ ms' ++ bs).map Block.addr) := by
  have hring := hf.ring
  simp only [List.map_append] at hring ⊢
  rw [hbase]
  exact hring.relink hq (fun a ha => hother a (List.mem_append_left _ ha))
    (fun b hb => hother b (List.mem_append_right _ hb)) hmid

theorem last_mem {as bs : List Block} {pre : List ℕ} {q : ℕ}
    (hq : h.base :: as.map Block.addr = pre ++ [q]) :
    q ∈ h.base :: (as ++ bs).map Block.addr := by
  rw [List.map_append, ← List.cons_append, hq]
  simp

theorem replace {as ms bs : List Block} {m : Block} {pre : List ℕ} {q : ℕ} {h' : Heap}
    (hf : FreeList h (as ++ ms ++ bs)) (hq : h.base :: as.map Block.addr = pre ++ [q])
    (hbase : h'.base = h.base) (hfreep : h'.freep ∈ h.base :: (as ++ m :: bs).map Block.addr)
    (hnextq : h'.next q = m.addr) (hnextm : h'.next m.addr = (bs.map Block.addr).headD h.base)
    (hnext : ∀ a ∈ pre ++ bs.map Block.addr, h'.next a = h.next a)
    (hsizem : h'.size m.addr = m.units)
    (hsize : ∀ a ∈ h.base :: (as ++ bs).map Block.addr, h'.size a = h.size a)
    (hpos : 0 < m.units) (habove : h.base < m.addr)
    (hbefore : ∀ a ∈ as, a.addr + blkSize * a.units < m.addr)
    (hafter : ∀ c ∈ bs, m.addr + blkSize * m.units < c.addr) :
    FreeList h' (as ++ m :: bs) := by
  have hold : ∀ {c}, c ∈ as ++ bs → c ∈ as ++ ms ++ bs := by
    intro c hc
    simp only [List.mem_append] at hc ⊢
    tauto
  have hnew : ∀ c ∈ as ++ m :: bs, c = m ∨ c ∈ as ++ bs := by
    intro c hc
    simp only [List.mem_append, List.mem_cons] at hc ⊢
    tauto
  refine ⟨?_, hbase ▸ hfreep, ?_, fun c hc => ?_, fun c hc => ?_, fun c hc => ?_, ?_⟩
  · have hring : Circular h'.next h'.base ((as ++ [m] ++ bs).map Block.addr) :=
      relink hf hq hbase hnext (by simp [hnextq, hnextm])
    simpa using hring
  · rw [hbase, hsize _ (by simp)]; exact hf.base_size
  · rcases hnew c hc with rfl | hc
    · exact hsizem
    · rw [hsize _ (List.mem_cons_of_mem _ (List.mem_map_of_mem hc))]
      exact hf.sizes c (hold hc)
  · rcases hnew c hc with rfl | hc
    · exact hpos
    · exact hf.pos c (hold hc)
  · rw [hbase]
    rcases hnew c hc with rfl | hc
    · exact habove
    · exact hf.above c (hold hc)
  · have happ := List.pairwise_append.mp hf.apart
    have hleft := (List.pairwise_append.mp happ.1).1
    refine List.pairwise_append.mpr ⟨hleft, .cons hafter happ.2.1, fun a ha c hc => ?_⟩
    rcases List.mem_cons.mp hc with rfl | hc
    · exact hbefore a ha
    · exact happ.2.2 a (List.mem_append_left _ ha) c hc

theorem search_cases (hf : FreeList h free) (hlen : free.length < loopBound) (fits : ℕ → Bool)
    (hbase : fits h.base = false) :
    ((∀ b ∈ free, fits b.addr = false) ∧
        search h.next fits h.freep loopBound h.freep (h.next h.freep) = some none) ∨
      ∃ pre q as b bs, h.base :: as.map Block.addr = pre ++ [q] ∧ free = as ++ b :: bs ∧
        FirstFit h.next fits h.freep b.addr ∧
        search h.next fits h.freep loopBound h.freep (h.next h.freep) = some (some (q, b.addr)) := by
  rcases hf.ring.search hf.nodup hf.freep_mem (n := loopBound) (by simpa using hlen) with
    ⟨hnone, hs⟩ | ⟨q, hq, hfirst, hs⟩
  · exact .inl ⟨fun b hb => hnone _ (List.mem_cons_of_mem _ (List.mem_map_of_mem hb)), hs⟩
  · obtain ⟨pre, as, ds, hpre, hsplit, hnext⟩ := hf.ring.split_at hq
    have hfit : fits (h.next q) = true := by obtain ⟨_, _, _, hfit⟩ := hfirst; exact hfit
    cases ds with
    | nil => rw [hnext, List.headD_nil, hbase] at hfit; exact absurd hfit (by simp)
    | cons d ds =>
      obtain ⟨as', ds', rfl, rfl, hds⟩ := List.map_eq_append_iff.mp hsplit
      obtain ⟨b, bs, rfl, rfl, rfl⟩ := List.map_eq_cons_iff.mp hds
      rw [hnext, List.headD_cons] at hfirst hs
      exact .inr ⟨pre, q, as', b, bs, hpre, rfl, hfirst, hs⟩

end FreeList

namespace WellFormed

variable {h : Heap} {free live : List Block}

theorem pos (hw : WellFormed h free live) : ∀ b ∈ free ++ live, 0 < b.units := by
  intro b hb
  rcases List.mem_append.mp hb with hb | hb
  · exact hw.freeList.pos b hb
  · exact hw.live_pos b hb

theorem span_pos (hw : WellFormed h free live) :
    ∀ s ∈ (free ++ live).map Block.span, 0 < s.length := by
  intro s hs
  obtain ⟨b, hb, rfl⟩ := List.mem_map.mp hs
  have := hw.pos b hb
  simp only [Block.span_length, blkSize]
  omega

theorem within (hw : WellFormed h free live) {b : Block} (hb : b ∈ free ++ live) :
    h.kheap ≤ b.addr ∧ b.addr + blkSize * b.units ≤ h.kheap + heapSize := by
  have hs := List.mem_map_of_mem (f := Block.span) hb
  exact hw.tiles.within hs (hw.span_pos _ hs)

theorem pairwise (hw : WellFormed h free live) :
    (free ++ live).Pairwise (fun b c => b.span.Disjoint c.span) :=
  List.pairwise_map.mp (hw.tiles.pairwise hw.span_pos)

theorem apart (hw : WellFormed h free live) {b c : Block} (hb : b ∈ free) (hc : c ∈ live) :
    b.addr + blkSize * b.units ≤ c.addr ∨ c.addr + blkSize * c.units ≤ b.addr :=
  (List.pairwise_append.mp hw.pairwise).2.2 b hb c hc

theorem disjoint (hw : WellFormed h free live) {b c : Block} (hb : b ∈ free ++ live)
    (hc : c ∈ free ++ live) (hne : b ≠ c) : b.span.Disjoint c.span := by
  have : Std.Symm (fun b c : Block => b.span.Disjoint c.span) := ⟨fun _ _ h => Or.symm h⟩
  exact hw.pairwise.forall hb hc hne

theorem sum_units (hw : WellFormed h free live) :
    ((free ++ live).map Block.units).sum = heapSize / blkSize := by
  have hsum := hw.tiles.sum_length hw.span_pos
  rw [List.map_map] at hsum
  have hmul : ∀ bs : List Block,
      (bs.map (Span.length ∘ Block.span)).sum = blkSize * (bs.map Block.units).sum := by
    intro bs
    induction bs with
    | nil => rfl
    | cons b bs ih =>
      simp only [List.map_cons, List.sum_cons, ih, Function.comp_apply, Block.span_length]
      rw [Nat.mul_add]
  rw [hmul] at hsum
  simp only [blkSize, heapSize] at hsum ⊢
  omega

theorem units_le (hw : WellFormed h free live) {b : Block} (hb : b ∈ free ++ live) :
    b.units ≤ heapSize / blkSize := by
  have := hw.within hb
  simp only [blkSize, heapSize] at this ⊢
  omega

theorem length_lt (hw : WellFormed h free live) : free.length < loopBound := by
  have hone : ∀ u ∈ (free ++ live).map Block.units, 1 ≤ u := by
    intro u hu
    obtain ⟨b, hb, rfl⟩ := List.mem_map.mp hu
    exact hw.pos b hb
  have hle := List.length_le_sum_of_one_le _ hone
  rw [hw.sum_units, List.length_map, List.length_append] at hle
  simp only [loopBound]
  omega

end WellFormed

end MinOS
