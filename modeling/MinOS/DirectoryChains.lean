import MinOS.Directories

namespace MinOS

open Library.Images Library.Integers

def DirEvent.entryOf (depth : ℕ) : DirEvent → Option LinkedDirEntryExt2
  | .entry d lde _ => if d = depth then some lde else none
  | _ => none

def handled (depth : ℕ) (t : List DirEvent) : List LinkedDirEntryExt2 :=
  t.filterMap (DirEvent.entryOf depth)

namespace Volume

inductive Chain (v : Volume) (index : ℤ) : ℕ → List LinkedDirEntryExt2 → Prop
  | nil : Chain v index v.blockSize []
  | cons {o : ℕ} {es : List LinkedDirEntryExt2} (haligned : (v.entryAt index o).recLen % 4 = 0)
      (hlong : 8 + (v.entryAt index o).nameLen ≤ (v.entryAt index o).recLen)
      (hrest : Chain v index (o + (v.entryAt index o).recLen) es) :
      Chain v index o (v.entryAt index o :: es)

def WalksRight (v : Volume) (index : ℤ) (depth : ℕ) (es : List LinkedDirEntryExt2) : Prop :=
  ∃ n t, v.ext2ReadDirRecFromInode n index depth 0 [] = some t ∧
    handled depth t = es.filter (fun lde => lde.inode ≠ 0) ∧
    ∀ o byte, .pool depth o byte ∈ t → 0 ≤ o ∧ o + byte ≤ v.blockSize

section Chains

variable {v : Volume} {index offset : ℤ} {depth n o : ℕ} {t t' : List DirEvent}
  {lde : LinkedDirEntryExt2} {name : List (BitVec 8)} {es : List LinkedDirEntryExt2}

@[simp] theorem handled_append (d : ℕ) (s t : List DirEvent) :
    handled d (s ++ t) = handled d s ++ handled d t := List.filterMap_append

theorem afterName_afterLde : afterName index depth offset (afterLde index depth offset t) lde name =
    t ++ [.index index, .pool depth offset 8, .index index,
      .pool depth (int32 (offset + 8)) lde.nameLen, .entry depth lde name] := by
  rw [afterName, afterLde, List.append_assoc]
  rfl

def Appends (depth : ℕ) (t t' : List DirEvent) : Prop :=
  ∃ s, t' = t ++ s ∧ ∀ d, d < depth → handled d s = []

theorem Appends.trans {t₁ t₂ : List DirEvent} (h₁ : Appends depth t t₁) (h₂ : Appends depth t₁ t₂) :
    Appends depth t t₂ := by
  obtain ⟨s₁, rfl, hs₁⟩ := h₁
  obtain ⟨s₂, rfl, hs₂⟩ := h₂
  refine ⟨s₁ ++ s₂, List.append_assoc .., fun d hd => ?_⟩
  rw [handled_append, hs₁ d hd, hs₂ d hd, List.append_nil]

theorem Appends.of_le {k : ℕ} (h : Appends k t t') (hle : depth ≤ k) : Appends depth t t' := by
  obtain ⟨s, rfl, hs⟩ := h
  exact ⟨s, rfl, fun d hd => hs d (by omega)⟩

theorem Appends.afterLde : Appends depth t (afterLde index depth offset t) := ⟨_, rfl, fun _ _ => rfl⟩

theorem Appends.afterName : Appends depth t (afterName index depth offset t lde name) := by
  refine ⟨_, rfl, fun d hd => ?_⟩
  simp [handled, DirEvent.entryOf, hd.ne']

theorem Appends.afterFile : Appends (depth + 1) t (v.afterFile depth t lde) := by
  rw [Volume.afterFile]
  split_ifs
  · exact ⟨_, rfl, fun _ _ => rfl⟩
  · exact ⟨_, rfl, fun _ _ => rfl⟩

theorem Handled.appends {t₁ : List DirEvent} (h : Handled v n depth lde name t t₁)
    (hcalls : ∀ {index offset : ℤ} {d : ℕ} {t t' : List DirEvent},
      v.ext2ReadDirRecFromInode n index d offset t = some t' → Appends d t t') :
    Appends (depth + 1) t t₁ := by
  cases h with
  | subdir hsub hcall =>
    have hpool : Appends (depth + 1) t (t ++ [.pool depth 0 128]) := ⟨_, rfl, fun _ _ => rfl⟩
    exact hpool.trans (hcalls hcall)
  | file hfile => exact .afterFile
  | other => exact ⟨[], (List.append_nil t).symm, fun _ _ => rfl⟩

theorem Appends.readDir (h : v.ext2ReadDirRecFromInode n index depth offset t = some t') :
    Appends depth t t' := by
  induction n generalizing index depth offset t t' with
  | zero => cases h
  | succ n ih =>
    by_cases hlen : (v.readLde index offset t).recLen = 0
    · rw [readDir_stops hlen] at h
      obtain rfl := Option.some.inj h
      exact .afterLde
    · obtain ⟨t₁, hhandled, hrest⟩ := (readDir_turn_iff hlen).mp h
      have hturn := (hhandled.appends ih).of_le (Nat.le_succ depth)
      exact Appends.afterLde.trans (Appends.afterName.trans (hturn.trans (ih hrest)))

theorem readDir_turn (hlen : (v.readLde index offset t).recLen ≠ 0)
    (h : v.ext2ReadDirRecFromInode (n + 1) index depth offset t = some t') :
    ∃ t₁ s₁ s₂, v.ext2ReadDirRecFromInode n index depth
        (int32 (offset + (v.readLde index offset t).recLen)) t₁ = some t' ∧
      t₁ = t ++ s₁ ∧ t' = t₁ ++ s₂ ∧ handled depth s₁ = [v.readLde index offset t] ∧
        .pool depth offset 8 ∈ s₁ := by
  obtain ⟨t₁, hhandled, hrest⟩ := (readDir_turn_iff hlen).mp h
  obtain ⟨s, rfl, hs⟩ := hhandled.appends Appends.readDir
  obtain ⟨s₂, rfl, -⟩ := Appends.readDir hrest
  rw [afterName_afterLde] at hrest ⊢
  refine ⟨_, _, s₂, hrest, List.append_assoc .., rfl, ?_, ?_⟩
  · rw [handled_append, hs depth (Nat.lt_succ_self depth), List.append_nil]
    simp [handled, List.filterMap_cons, DirEvent.entryOf]
  · simp

theorem Chain.le (h : v.Chain index o es) : o ≤ v.blockSize := by
  induction h with
  | nil => exact le_refl _
  | cons _ _ _ ih => omega

/-- The loop handles every entry of a chain, also those that are not in use, and then decodes what
follows the block. -/
theorem readDir_chain (hchain : v.Chain index o es)
    (h : v.ext2ReadDirRecFromInode n index depth o t = some t') :
    ∃ s, t' = t ++ s ∧ es <+: handled depth s ∧ .pool depth v.blockSize 8 ∈ s := by
  induction hchain generalizing n t t' with
  | nil =>
    -- whatever is decoded behind the block, it was decoded
    obtain ⟨n, rfl⟩ := readDir_pos h
    by_cases hlen : (v.readLde index v.blockSize t).recLen = 0
    · rw [readDir_stops hlen] at h
      obtain rfl := Option.some.inj h
      refine ⟨_, rfl, List.nil_prefix, ?_⟩
      simp
    · obtain ⟨t₁, s₁, s₂, -, rfl, rfl, -, hpool⟩ := readDir_turn hlen h
      exact ⟨s₁ ++ s₂, List.append_assoc .., List.nil_prefix, List.mem_append_left _ hpool⟩
  | @cons o es _ hlong hrest ih =>
    obtain ⟨n, rfl⟩ := readDir_pos h
    have hle := hrest.le
    have hlt := v.blockSize_lt
    have hlde : v.readLde index o t = v.entryAt index o :=
      readLde_inside (Int.natCast_nonneg o) (by omega)
    obtain ⟨t₁, s₁, s₂, hnext, rfl, rfl, hs₁, -⟩ := readDir_turn (by rw [hlde]; omega) h
    rw [hlde] at hnext hs₁
    rw [int32_eq (by omega) (by omega), ← Nat.cast_add] at hnext
    obtain ⟨s, hs, hhandled, hpool⟩ := ih hnext
    obtain rfl := List.append_cancel_left hs
    refine ⟨s₁ ++ s₂, List.append_assoc .., ?_, List.mem_append_right _ hpool⟩
    rw [handled_append, hs₁, List.singleton_append]
    exact List.cons_prefix_cons.mpr ⟨rfl, hhandled⟩

theorem chain_never_walked_right (hchain : v.Chain index 0 es) : ¬ v.WalksRight index depth es := by
  rintro ⟨n, t, hwalk, -, hinside⟩
  obtain ⟨s, rfl, -, hpool⟩ := readDir_chain hchain hwalk
  have hend := (hinside _ _ hpool).2
  omega

end Chains

def rootBlock (bytes : List (BitVec 8)) : Volume where
  disk k := if 5 * 1024 ≤ k then bytes.getD (k - 5 * 1024) 0 else 0
  blockSize := 1024
  inodeTable _ := List.replicate 40 0 ++ [5, 0, 0, 0]
  garbage _ _ := 0
  blockSize_eq := ⟨0, rfl⟩

theorem chain_never_walked_right_example :
    ¬ (rootBlock [2, 0, 0, 0, 0, 4, 1, 2, 46]).WalksRight 1 0 [⟨2, 1024, 1, 2⟩] :=
  chain_never_walked_right (.cons (by decide) (by decide) .nil)

def deletedFile : Volume :=
  rootBlock [2, 0, 0, 0, 12, 0, 1, 2, 46, 0, 0, 0, 0, 0, 0, 0, 0xf4, 3, 1, 1, 97]

theorem deleted_file_handled : deletedFile.Chain 1 0 [⟨2, 12, 1, 2⟩, ⟨0, 1012, 1, 1⟩] ∧
    ¬ deletedFile.WalksRight 1 0 [⟨2, 12, 1, 2⟩, ⟨0, 1012, 1, 1⟩] := by
  constructor
  · exact .cons (by decide) (by decide) (.cons (by decide) (by decide) .nil)
  · rintro ⟨n, t, hwalk, hhandled, -⟩
    have hrun : (deletedFile.ext2ReadDirRecFromInode 3 1 0 0 []).map (handled 0) =
        some [⟨2, 12, 1, 2⟩, ⟨0, 1012, 1, 1⟩] := by decide
    obtain ⟨t', ht', hall⟩ := Option.map_eq_some_iff.mp hrun
    rw [readDir_unique hwalk ht', hall] at hhandled
    exact absurd hhandled (by decide)

end Volume

end MinOS
