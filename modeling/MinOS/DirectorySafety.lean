import Mathlib.Data.Finite.Prod
import Mathlib.Data.Int.Interval
import MinOS.DirectoryChains
import MinOS.Library.Reachability

namespace MinOS

open Library.Images Library.Integers Library.Reachability

def DirEvent.InBounds (v : Volume) (len : ℕ) : DirEvent → Prop
  | .index i => 0 ≤ i ∧ i < len
  | .pool _ offset byte => ∀ k : ℕ, k < byte → 0 ≤ offset + k ∧ offset + k < 512 * v.block
  | _ => True

namespace Volume

def ReadsSafely (v : Volume) (len : ℕ) (index : ℤ) (depth : ℕ) : Prop :=
  ∃ n t, v.ext2ReadDirRecFromInode n index depth 0 [] = some t ∧ ∀ ev ∈ t, ev.InBounds v len

inductive Next (v : Volume) : ℤ × ℤ → ℤ × ℤ → Prop
  | entry {index offset : ℤ} (hlen : (v.entryAt index offset).recLen ≠ 0) :
      Next v (index, offset) (index, offset + (v.entryAt index offset).recLen)
  | subdir {index offset : ℤ} (hlen : (v.entryAt index offset).recLen ≠ 0)
      (hsub : (v.entryAt index offset).IsSubdir (v.nameAt index offset)) :
      Next v (index, offset) (subdirIndex (v.entryAt index offset), 0)

structure Fits (v : Volume) (len : ℕ) (p : ℤ × ℤ) : Prop where
  index : 0 ≤ p.1 ∧ p.1 < len
  entry : 0 ≤ p.2 ∧ p.2 + 8 ≤ v.blockSize
  name : (v.entryAt p.1 p.2).recLen ≠ 0 → p.2 + 8 + (v.entryAt p.1 p.2).nameLen ≤ v.blockSize
  file : (v.entryAt p.1 p.2).recLen ≠ 0 → (v.entryAt p.1 p.2).fileType = ext2FtRegFile →
    fileIndex (v.entryAt p.1 p.2) < len

section Safety

variable {v : Volume} {len n m depth byte : ℕ} {index offset : ℤ} {t t' : List DirEvent}
  {lde : LinkedDirEntryExt2} {name : List (BitVec 8)}

theorem fits_finite (v : Volume) (len : ℕ) : {p | v.Fits len p}.Finite := by
  apply ((Set.finite_Ico 0 (len : ℤ)).prod (Set.finite_Icc 0 (v.blockSize : ℤ))).subset
  intro p hp
  have hentry := hp.entry
  exact ⟨⟨hp.index.1, hp.index.2⟩, hentry.1, by omega⟩

theorem inBounds_pool (hlo : 0 ≤ offset) (hhi : offset + byte ≤ v.blockSize) :
    (DirEvent.pool depth offset byte).InBounds v len := by
  intro k hk
  have hblock := v.block_mul
  omega

theorem inside_of_inBounds (hbyte : 0 < byte)
    (h : (DirEvent.pool depth offset byte).InBounds v len) : 0 ≤ offset ∧ offset + byte ≤ v.blockSize := by
  have hfirst := h 0 hbyte
  have hlast := h (byte - 1) (by omega)
  have hblock := v.block_mul
  omega

theorem fileIndex_nonneg (lde : LinkedDirEntryExt2) : 0 ≤ fileIndex lde :=
  Int.emod_nonneg _ (by decide)

def Returns (v : Volume) (len : ℕ) (index : ℤ) (depth : ℕ) (offset : ℤ) (t : List DirEvent) : Prop :=
  ∃ n s, v.ext2ReadDirRecFromInode n index depth offset t = some (t ++ s) ∧
    ∀ ev ∈ s, ev.InBounds v len

theorem readsSafely_iff_returns : v.ReadsSafely len index depth ↔ v.Returns len index depth 0 [] :=
  Iff.rfl

theorem Handled.subdir_events {s : List DirEvent} (h : Handled v n depth lde name t (t ++ s))
    (hsub : lde.IsSubdir name) : ∃ s', s = .pool depth 0 128 :: s' ∧
      v.ext2ReadDirRecFromInode n (subdirIndex lde) (depth + 1) 0 (t ++ [.pool depth 0 128]) =
        some (t ++ [.pool depth 0 128] ++ s') := by
  generalize ht' : t ++ s = t' at h
  cases h with
  | subdir _ hcall =>
    obtain ⟨s', rfl, -⟩ := Appends.readDir hcall
    rw [List.append_assoc] at ht'
    exact ⟨s', List.append_cancel_left ht', hcall⟩
  | file hfile => exact absurd hsub (not_isSubdir_of_file hfile)
  | other hnot => exact absurd hsub hnot

theorem Handled.file_events {s : List DirEvent} (h : Handled v n depth lde name t (t ++ s))
    (hfile : lde.fileType = ext2FtRegFile) : .index (fileIndex lde) ∈ s := by
  generalize ht' : t ++ s = t' at h
  cases h with
  | subdir hsub => exact absurd hsub (not_isSubdir_of_file hfile)
  | file =>
    rw [afterFile] at ht'
    split_ifs at ht' with hmode
    · obtain rfl := List.append_cancel_left ht'
      simp
    · obtain rfl := List.append_cancel_left ht'
      simp
  | other _ hnot => exact absurd hfile hnot

theorem explored_of_readDir {s : List DirEvent}
    (h : v.ext2ReadDirRecFromInode n index depth offset t = some (t ++ s))
    (hs : ∀ ev ∈ s, ev.InBounds v len) : Explored v.Next (v.Fits len) (index, offset) := by
  induction n generalizing index depth offset t s with
  | zero => cases h
  | succ n ih =>
    by_cases hlen : (v.readLde index offset t).recLen = 0
    · rw [readDir_stops hlen] at h
      obtain rfl := List.append_cancel_left (Option.some.inj h)
      have hin := inside_of_inBounds (by decide) (hs (.pool depth offset 8) (by simp))
      rw [readLde_inside hin.1 hin.2] at hlen
      refine .intro ⟨hs (.index index) (by simp), hin, absurd hlen, absurd hlen⟩ ?_
      intro q hq
      cases hq with
      | entry hne => exact absurd hlen hne
      | subdir hne => exact absurd hlen hne
    · obtain ⟨t₁, hhandled, hrest⟩ := (readDir_turn_iff hlen).mp h
      obtain ⟨s₁, rfl, -⟩ := hhandled.appends Appends.readDir
      obtain ⟨s₂, hs₂, -⟩ := Appends.readDir hrest
      rw [hs₂] at hrest
      rw [afterName_afterLde] at hhandled hrest hs₂
      rw [List.append_assoc, List.append_assoc] at hs₂
      obtain rfl := List.append_cancel_left hs₂
      have hin := inside_of_inBounds (by decide) (hs (.pool depth offset 8) (by simp))
      have hlt := v.blockSize_lt
      -- the first read was in bounds, so that the entry is the one on the disk
      rw [readLde_inside hin.1 hin.2] at hlen hhandled hrest hs
      have hname : offset + 8 + (v.entryAt index offset).nameLen ≤ v.blockSize := by
        obtain hzero | hpos := Nat.eq_zero_or_pos (v.entryAt index offset).nameLen
        · omega
        · have hbytes := inside_of_inBounds hpos
            (hs (.pool depth (int32 (offset + 8)) (v.entryAt index offset).nameLen) (by simp))
          rw [int32_eq (by omega) (by omega)] at hbytes
          exact hbytes.2
      rw [readName_inside hin.1 hname] at hhandled
      refine .intro ⟨hs (.index index) (by simp), hin, fun _ => hname, fun _ hfile => ?_⟩ ?_
      · exact (hs _ (List.mem_append_right _ (List.mem_append_left _ (hhandled.file_events hfile)))).2
      · intro q hq
        cases hq with
        | entry hne =>
          have hstep := v.entryAt_recLen_lt index offset
          rw [int32_eq (by omega) (by omega)] at hrest
          exact ih hrest (fun ev hev => hs ev (by simp [hev]))
        | subdir hne hsub =>
          obtain ⟨s', rfl, hcall⟩ := hhandled.subdir_events hsub
          exact ih hcall (fun ev hev => hs ev (by simp [hev]))

theorem readDir_turn_of_fits (hfits : v.Fits len (index, offset))
    (hlen : (v.entryAt index offset).recLen ≠ 0) :
    v.ext2ReadDirRecFromInode (n + 1) index depth offset t = some t' ↔
      ∃ t₁, Handled v n depth (v.entryAt index offset) (v.nameAt index offset)
          (t ++ [.index index, .pool depth offset 8, .index index,
            .pool depth (offset + 8) (v.entryAt index offset).nameLen,
            .entry depth (v.entryAt index offset) (v.nameAt index offset)]) t₁ ∧
        v.ext2ReadDirRecFromInode n index depth (offset + (v.entryAt index offset).recLen) t₁ = some t' := by
  have hlt := v.blockSize_lt
  have hstep := v.entryAt_recLen_lt index offset
  have hentry := hfits.entry
  have hname := hfits.name hlen
  dsimp only at hentry hname
  have hlde : v.readLde index offset t = v.entryAt index offset := readLde_inside hentry.1 hentry.2
  have hturn : (v.readLde index offset t).recLen ≠ 0 := by
    rw [hlde]
    exact hlen
  refine (readDir_turn_iff hturn).trans ?_
  rw [hlde, readName_inside hentry.1 hname, afterName_afterLde, int32_eq (by omega) (by omega),
    int32_eq (by omega) (by omega)]

theorem returns_handled (hfits : v.Fits len (index, offset)) (hlen : (v.entryAt index offset).recLen ≠ 0)
    (hsub : (v.entryAt index offset).IsSubdir (v.nameAt index offset) →
      ∀ t, v.Returns len (subdirIndex (v.entryAt index offset)) (depth + 1) 0 t) (t : List DirEvent) :
    ∃ n s, Handled v n depth (v.entryAt index offset) (v.nameAt index offset) t (t ++ s) ∧
      ∀ ev ∈ s, ev.InBounds v len := by
  have hentry := hfits.entry
  have hblock := v.block_mul
  have hhead : ∀ byte, byte ≤ 512 → (DirEvent.pool depth 0 byte).InBounds v len := by
    intro byte hbyte
    apply inBounds_pool (le_refl 0)
    omega
  by_cases hdir : (v.entryAt index offset).IsSubdir (v.nameAt index offset)
  · obtain ⟨n, s, hcall, hs⟩ := hsub hdir (t ++ [.pool depth 0 128])
    rw [List.append_assoc] at hcall
    exact ⟨n, _, .subdir hdir hcall, List.forall_mem_cons.mpr ⟨hhead 128 (by decide), hs⟩⟩
  by_cases hfile : (v.entryAt index offset).fileType = ext2FtRegFile
  · have hindex : (DirEvent.index (fileIndex (v.entryAt index offset))).InBounds v len :=
      ⟨fileIndex_nonneg _, hfits.file hlen hfile⟩
    have hevents : ∃ s, v.afterFile depth t (v.entryAt index offset) = t ++ s ∧
        ∀ ev ∈ s, ev.InBounds v len := by
      rw [afterFile]
      split_ifs
      · exact ⟨_, rfl, by simpa using hindex⟩
      · refine ⟨_, rfl, ?_⟩
        simp only [List.forall_mem_cons]
        exact ⟨hindex, hindex, hhead 63 (by decide), trivial, List.forall_mem_nil _⟩
    obtain ⟨s, hafter, hs⟩ := hevents
    exact ⟨0, s, hafter ▸ .file hfile, hs⟩
  · exact ⟨0, [], (List.append_nil t).symm ▸ .other hdir hfile, List.forall_mem_nil _⟩

theorem returns_of_explored {p : ℤ × ℤ} (h : Explored v.Next (v.Fits len) p) (depth : ℕ)
    (t : List DirEvent) : v.Returns len p.1 depth p.2 t := by
  induction h generalizing depth t with
  | @intro p hfits _ ih =>
    obtain ⟨index, offset⟩ := p
    have hentry := hfits.entry
    dsimp only at hentry ⊢
    have hindex : (DirEvent.index index).InBounds v len := hfits.index
    have hpool : (DirEvent.pool depth offset 8).InBounds v len := inBounds_pool hentry.1 hentry.2
    by_cases hlen : (v.entryAt index offset).recLen = 0
    · have hstop : (v.readLde index offset t).recLen = 0 := by
        rw [readLde_inside hentry.1 hentry.2]
        exact hlen
      refine ⟨1, _, readDir_stops hstop, ?_⟩
      simp only [List.forall_mem_cons]
      exact ⟨hindex, hpool, List.forall_mem_nil _⟩
    · have hname : (DirEvent.pool depth (offset + 8) (v.entryAt index offset).nameLen).InBounds v len :=
        inBounds_pool (by omega) (hfits.name hlen)
      obtain ⟨n, s₁, hhandled, hs₁⟩ := returns_handled hfits hlen
        (fun hsub => ih _ (.subdir hlen hsub) (depth + 1)) (t ++ [.index index, .pool depth offset 8,
          .index index, .pool depth (offset + 8) (v.entryAt index offset).nameLen,
          .entry depth (v.entryAt index offset) (v.nameAt index offset)])
      obtain ⟨m, s₂, hrest, hs₂⟩ := ih _ (.entry hlen) depth _
      have hrun := (readDir_turn_of_fits hfits hlen).mpr ⟨_,
        hhandled.imp (readDir_mono (Nat.le_max_left n m)), readDir_mono (Nat.le_max_right n m) hrest⟩
      rw [List.append_assoc, List.append_assoc] at hrun
      refine ⟨_, _, hrun, ?_⟩
      simp only [List.forall_mem_append, List.forall_mem_cons]
      exact ⟨⟨hindex, hpool, hindex, hname, trivial, List.forall_mem_nil _⟩, hs₁, hs₂⟩

theorem reads_safely_iff (v : Volume) (len : ℕ) (index : ℤ) (depth : ℕ) :
    v.ReadsSafely len index depth ↔ Sound v.Next (v.Fits len) (index, 0) := by
  rw [← explored_iff_sound (v.fits_finite len), readsSafely_iff_returns]
  constructor
  · rintro ⟨n, s, h, hs⟩
    exact explored_of_readDir h hs
  · intro h
    exact returns_of_explored h depth []

end Safety

/-- The root directory contains itself, as `"a"`. -/
theorem cycle_not_left : ¬ (rootBlock [2, 0, 0, 0, 0, 4, 1, 2, 97]).ReadsSafely 16 1 0 := by
  rintro ⟨n, t, hwalk, hsafe⟩
  have hself : (rootBlock [2, 0, 0, 0, 0, 4, 1, 2, 97]).Next (1, 0) (1, 0) :=
    .subdir (by decide) (by decide)
  exact (explored_of_readDir hwalk hsafe).not_transGen (.single hself)

end Volume

end MinOS
