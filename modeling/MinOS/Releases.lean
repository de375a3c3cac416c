import MinOS.HeapRequests

namespace MinOS

structure FreeCall where
  ptr : ℕ
  live : List Block

def Held (live : List Block) (p : ℕ) : Prop := ∃ b ∈ live, b.addr + blkSize = p

instance (live : List Block) (p : ℕ) : Decidable (Held live p) :=
  inferInstanceAs (Decidable (∃ b ∈ live, b.addr + blkSize = p))

def release (live : List Block) (p : ℕ) : List Block :=
  live.filter (fun b => decide (b.addr + blkSize ≠ p))

def freeCalls (live : List Block) : List ℕ → List FreeCall
  | [] => []
  | p :: ps => ⟨p, live⟩ :: freeCalls (release live p) ps

section Releases

variable {h : Heap} {free live : List Block} {p q : ℕ} {ps : List ℕ}

theorem Held.gained (hp : Held live p) (r n : ℕ) : Held (gained live r n) p := by
  obtain ⟨b, hb, rfl⟩ := hp
  exact ⟨b, mem_gained_of_mem r n hb, rfl⟩

theorem Held.gainedAll {sizes : List ℤ} {rs : List ℕ} (hp : Held live p) (hans : Answers live sizes rs) :
    Held (gainedAll live sizes rs) p := by
  induction hans with
  | nil => exact hp
  | cons _ _ _ ih => exact ih (hp.gained _ _)

theorem held_gained_self {r n : ℕ} (hr : r ≠ 0) (hpos : blkSize ≤ r) : Held (gained live r n) r :=
  ⟨_, mem_gained_self live n hr, Nat.sub_add_cancel hpos⟩

theorem Held.release (hp : Held live p) (hne : p ≠ q) : Held (release live q) p := by
  obtain ⟨b, hb, rfl⟩ := hp
  exact ⟨b, List.mem_filter.mpr ⟨hb, by simpa using hne⟩, rfl⟩

theorem Held.releaseAll (hp : Held live p) (hnot : p ∉ ps) : Held (ps.foldl MinOS.release live) p := by
  induction ps generalizing live with
  | nil => exact hp
  | cons q ps ih =>
    rw [List.mem_cons, not_or] at hnot
    exact ih (hp.release hnot.1) hnot.2

theorem WellFormed.eq_of_addr {b c : Block} (hw : WellFormed h free live) (hb : b ∈ live)
    (hc : c ∈ live) (he : b.addr = c.addr) : b = c := by
  by_contra hne
  have hdisj := hw.disjoint (List.mem_append_right _ hb) (List.mem_append_right _ hc) hne
  have := hw.live_pos b hb
  have := hw.live_pos c hc
  simp only [Library.Tilings.Span.Disjoint, Block.span_start, Block.span_length, blkSize] at hdisj
  omega

theorem WellFormed.nodup (hw : WellFormed h free live) : live.Nodup := by
  have hlive := (List.pairwise_append.mp hw.pairwise).2.1
  apply hlive.imp_of_mem
  rintro b _ hb - hdisj rfl
  have := hw.live_pos b hb
  simp only [Library.Tilings.Span.Disjoint, Block.span_start, Block.span_length, blkSize] at hdisj
  omega

theorem WellFormed.kfree_release (hw : WellFormed h free live) (hp : Held live p) :
    ∃ h' free', MinOS.kfree h p = some h' ∧ h'.kheap = h.kheap ∧ h'.base = h.base ∧
      WellFormed h' free' (release live p) := by
  obtain ⟨b, hb, rfl⟩ := hp
  obtain ⟨h', free', hk, hkheap, hbase, hw'⟩ := hw.kfree hb
  have hsame : release live (b.addr + blkSize) = live.erase b := by
    rw [hw.nodup.erase_eq_filter]
    apply List.filter_congr
    intro c hc
    have hiff : c.addr + blkSize ≠ b.addr + blkSize ↔ c ≠ b :=
      not_congr ⟨fun he => hw.eq_of_addr hc hb (by omega), fun he => by rw [he]⟩
    rw [bne, beq_eq_decide, ← decide_not]
    exact decide_eq_decide.mpr hiff
  rw [hsame]
  exact ⟨h', free', hk, hkheap, hbase, hw'⟩

theorem WellFormed.kfreeAll (hw : WellFormed h free live) (hnodup : ps.Nodup)
    (hheld : ∀ p ∈ ps, Held live p) :
    ∃ h' free', ps.foldlM MinOS.kfree h = some h' ∧ h'.kheap = h.kheap ∧ h'.base = h.base ∧
      WellFormed h' free' (ps.foldl release live) ∧ ∀ c ∈ freeCalls live ps, Held c.live c.ptr := by
  induction ps generalizing h free live with
  | nil => exact ⟨h, free, rfl, rfl, rfl, hw, fun c hc => absurd hc List.not_mem_nil⟩
  | cons p ps ih =>
    obtain ⟨hnot, hnodup⟩ := List.nodup_cons.mp hnodup
    have hpheld := hheld p (List.mem_cons_self ..)
    obtain ⟨h₁, free₁, hk, hkheap, hbase, hw₁⟩ := hw.kfree_release hpheld
    obtain ⟨h', free', hks, hkheap', hbase', hw', hcalls⟩ := ih hw₁ hnodup
      (fun q hq => (hheld q (List.mem_cons_of_mem _ hq)).release (fun he => hnot (he ▸ hq)))
    refine ⟨h', free', ?_, hkheap'.trans hkheap, hbase'.trans hbase, hw', fun c hc => ?_⟩
    · rw [List.foldlM_cons, hk]
      exact hks
    · rcases List.mem_cons.mp hc with rfl | hc
      · exact hpheld
      · exact hcalls c hc

theorem mem_releaseAll {b : Block} :
    b ∈ ps.foldl release live ↔ b ∈ live ∧ b.addr + blkSize ∉ ps := by
  induction ps generalizing live with
  | nil => simp
  | cons p ps ih => simp [ih, release, and_assoc]

end Releases

/-- What a block of the heap is for. A stack belongs to the structure of a thread, a pipe structure
to the cell of the semaphore it is shared with, and a buffer to its pipe structure. -/
inductive Role where
  | thread
  | stack (thread : ℕ)
  | sid
  | pstruct (sidPtr : ℕ)
  | pipe (pstruct : ℕ)
deriving DecidableEq

def assign (role : ℕ → Role) : List ℕ → List Role → ℕ → Role
  | r :: rs, x :: xs => assign (Function.update role r x) rs xs
  | _, _ => role

structure Has (live : List Block) (role : ℕ → Role) (p : ℕ) (x : Role) : Prop where
  held : Held live p
  role : role p = x

namespace Has

variable {live : List Block} {role : ℕ → Role} {p r n : ℕ} {x y : Role} {rs ps : List ℕ}
  {sizes : List ℤ}

theorem ne {q : ℕ} (h : Has live role p x) (h' : Has live role q y) (hne : x ≠ y) : p ≠ q := by
  rintro rfl
  exact hne (h.role.symm.trans h'.role)

theorem new (hr : r ≠ 0) (hpos : r ≠ 0 → blkSize ≤ r) :
    Has (gained live r n) (Function.update role r x) r x :=
  ⟨held_gained_self hr (hpos hr), Function.update_self ..⟩

theorem kept (h : Has live role p x) (xs : List Role) (hans : Answers live sizes rs) :
    Has (gainedAll live sizes rs) (assign role rs xs) p x := by
  induction hans generalizing role xs with
  | nil => exact h
  | @cons live size sizes r rs hpos hnew hans ih =>
    cases xs with
    | nil => exact ⟨(h.held.gained r _).gainedAll hans, h.role⟩
    | cons y xs =>
      apply ih
      obtain ⟨b, hb, hbp⟩ := h.held
      have hne : p ≠ r := hbp ▸ hnew b hb
      exact ⟨h.held.gained r _, (Function.update_of_ne hne ..).trans h.role⟩

theorem releaseAll (h : Has live role p x) (hnot : p ∉ ps) :
    Has (ps.foldl release live) role p x :=
  ⟨h.held.releaseAll hnot, h.role⟩

theorem not_mem (h : Has live role p x) (hx : x ∉ ps.map role) : p ∉ ps := by
  intro hp
  exact hx (List.mem_map.mpr ⟨p, hp, h.role⟩)

end Has

end MinOS
