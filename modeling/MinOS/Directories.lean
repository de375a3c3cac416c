import MinOS.Ext2

namespace MinOS

open Library.Images Library.Integers

structure LinkedDirEntryExt2 where
  inode : ℕ
  recLen : ℕ
  nameLen : ℕ
  fileType : ℕ
deriving DecidableEq

def LinkedDirEntryExt2.ofBytes (bytes : List (BitVec 8)) : LinkedDirEntryExt2 where
  inode := number (slice bytes 0 4)
  recLen := number (slice bytes 4 2)
  nameLen := number (slice bytes 6 1)
  fileType := number (slice bytes 7 1)

def iMode (inode : List (BitVec 8)) : ℕ := number (slice inode 0 2)

def iBlock0 (inode : List (BitVec 8)) : ℕ := number (slice inode 40 4)

def ext2FtRegFile : ℕ := 1

def ext2FtDir : ℕ := 2

def ext2SIrusr : ℕ := 0x100

def isDots (name : List (BitVec 8)) : Prop :=
  name.takeWhile (· ≠ 0) = [46] ∨ name.takeWhile (· ≠ 0) = [46, 46]

instance (name : List (BitVec 8)) : Decidable (isDots name) := inferInstanceAs (Decidable (_ ∨ _))

def LinkedDirEntryExt2.IsSubdir (lde : LinkedDirEntryExt2) (name : List (BitVec 8)) : Prop :=
  lde.fileType = ext2FtDir ∧ ¬ isDots name

instance (lde : LinkedDirEntryExt2) (name : List (BitVec 8)) : Decidable (lde.IsSubdir name) :=
  inferInstanceAs (Decidable (_ ∧ _))

/-- What the call does, by the depth it does it at: `inode_table[i]` is used, `byte` bytes of the
buffer `pool` are copied from `offset` on, a line is printed for an entry, or the beginning of a
file is. -/
inductive DirEvent
  | index (i : ℤ)
  | pool (depth : ℕ) (offset : ℤ) (byte : ℕ)
  | entry (depth : ℕ) (lde : LinkedDirEntryExt2) (name : List (BitVec 8))
  | text (textHead : List (BitVec 8))
deriving DecidableEq

/-- The memory at `inode_table` may be read beyond its length, and `pool` beyond the sectors that
were read; what is found there depends on what happened before. -/
structure Volume where
  disk : Disk
  blockSize : ℕ
  inodeTable : ℤ → List (BitVec 8)
  garbage : List DirEvent → ℤ → BitVec 8
  blockSize_eq : ∃ k, blockSize = 1024 * 2 ^ k % 2 ^ 16

namespace Volume

def block (v : Volume) : ℕ := v.blockSize / 512

def sector (v : Volume) (index : ℤ) : ℕ := iBlock0 (v.inodeTable index) * v.block % 2 ^ 32

def pool (v : Volume) (t : List DirEvent) (startSector : ℕ) (i : ℤ) : BitVec 8 :=
  if 0 ≤ i ∧ i < 512 * v.block then v.disk (512 * startSector + i.toNat) else v.garbage t i

def readByte (v : Volume) (t : List DirEvent) (startSector byte : ℕ) (offset : ℤ) : List (BitVec 8) :=
  (List.range byte).map (fun i : ℕ => v.pool t startSector (i + offset))

section Loop

variable (v : Volume) (index : ℤ) (depth : ℕ) (offset : ℤ) (t : List DirEvent)

def readLde : LinkedDirEntryExt2 := .ofBytes (v.readByte t (v.sector index) 8 offset)

def afterLde : List DirEvent := t ++ [.index index, .pool depth offset 8]

def readName (lde : LinkedDirEntryExt2) : List (BitVec 8) :=
  v.readByte t (v.sector index) lde.nameLen (int32 (offset + 8))

def afterName (lde : LinkedDirEntryExt2) (name : List (BitVec 8)) : List DirEvent :=
  t ++ [.index index, .pool depth (int32 (offset + 8)) lde.nameLen, .entry depth lde name]

def fileIndex (lde : LinkedDirEntryExt2) : ℤ := ((lde.inode : ℤ) - 1) % 2 ^ 32

def afterFile (lde : LinkedDirEntryExt2) : List DirEvent :=
  let i := fileIndex lde
  if iMode (v.inodeTable i) &&& ext2SIrusr = 0 then t ++ [.index i]
  else t ++ [.index i, .index i, .pool depth 0 63, .text (v.readByte t (v.sector i) 63 0)]

def subdirIndex (lde : LinkedDirEntryExt2) : ℤ := int32 ((lde.inode : ℤ) - 1)

def ext2ReadDirRecFromInode (v : Volume) :
    ℕ → ℤ → ℕ → ℤ → List DirEvent → Option (List DirEvent)
  | 0, _, _, _, _ => none
  | n + 1, index, depth, offset, t => do
    let lde := v.readLde index offset t
    let t := afterLde index depth offset t
    -- the only test that ends the loop
    if lde.recLen = 0 then some t
    else
      let name := v.readName index offset t lde
      let t := afterName index depth offset t lde name
      let t ← (if lde.IsSubdir name then
          ext2ReadDirRecFromInode v n (subdirIndex lde) (depth + 1) 0 (t ++ [.pool depth 0 128])
        else if lde.fileType = ext2FtRegFile then some (v.afterFile depth t lde)
        else some t)
      ext2ReadDirRecFromInode v n index depth (int32 (offset + lde.recLen)) t

inductive Handled (v : Volume) (n depth : ℕ) (lde : LinkedDirEntryExt2) (name : List (BitVec 8))
    (t : List DirEvent) : List DirEvent → Prop
  | subdir {t' : List DirEvent} (hsub : lde.IsSubdir name) (hcall : v.ext2ReadDirRecFromInode n
      (subdirIndex lde) (depth + 1) 0 (t ++ [.pool depth 0 128]) = some t') :
      Handled v n depth lde name t t'
  | file (hfile : lde.fileType = ext2FtRegFile) : Handled v n depth lde name t (v.afterFile depth t lde)
  | other (hsub : ¬ lde.IsSubdir name) (hfile : lde.fileType ≠ ext2FtRegFile) :
      Handled v n depth lde name t t

end Loop

section Steps

variable {v : Volume} {index offset : ℤ} {depth n m startSector byte : ℕ} {t t' : List DirEvent}
  {lde : LinkedDirEntryExt2} {name : List (BitVec 8)}

theorem not_isSubdir_of_file (hfile : lde.fileType = ext2FtRegFile) : ¬ lde.IsSubdir name := by
  rintro ⟨hdir, _⟩
  rw [hfile] at hdir
  exact absurd hdir (by decide)

theorem readDir_stops (h : (v.readLde index offset t).recLen = 0) :
    v.ext2ReadDirRecFromInode (n + 1) index depth offset t =
      some (afterLde index depth offset t) := by
  rw [ext2ReadDirRecFromInode]
  exact if_pos h

theorem readDir_turn_iff (h : (v.readLde index offset t).recLen ≠ 0) :
    let lde := v.readLde index offset t
    let s := afterLde index depth offset t
    let name := v.readName index offset s lde
    v.ext2ReadDirRecFromInode (n + 1) index depth offset t = some t' ↔
      ∃ t₁, Handled v n depth lde name (afterName index depth offset s lde name) t₁ ∧
        v.ext2ReadDirRecFromInode n index depth (int32 (offset + lde.recLen)) t₁ = some t' := by
  intro lde s name
  rw [ext2ReadDirRecFromInode]
  dsimp only
  rw [if_neg h, Option.bind_eq_bind, Option.bind_eq_some_iff]
  apply exists_congr
  intro t₁
  apply and_congr_left
  intro _
  constructor
  · intro hsome
    split_ifs at hsome with hsub hfile
    · exact .subdir hsub hsome
    · obtain rfl := Option.some.inj hsome
      exact .file hfile
    · obtain rfl := Option.some.inj hsome
      exact .other hsub hfile
  · intro hhandled
    cases hhandled with
    | subdir hsub hcall => rw [if_pos hsub, hcall]
    | file hfile => rw [if_neg (not_isSubdir_of_file hfile), if_pos hfile]
    | other hsub hfile => rw [if_neg hsub, if_neg hfile]

theorem Handled.imp (h : Handled v n depth lde name t t') (hcalls : ∀ {index : ℤ} {t t' : List DirEvent},
    v.ext2ReadDirRecFromInode n index (depth + 1) 0 t = some t' →
      v.ext2ReadDirRecFromInode m index (depth + 1) 0 t = some t') : Handled v m depth lde name t t' := by
  cases h with
  | subdir hsub hcall => exact .subdir hsub (hcalls hcall)
  | file hfile => exact .file hfile
  | other hsub hfile => exact .other hsub hfile

theorem readDir_mono (hle : n ≤ m) (h : v.ext2ReadDirRecFromInode n index depth offset t = some t') :
    v.ext2ReadDirRecFromInode m index depth offset t = some t' := by
  induction n generalizing m index depth offset t t' with
  | zero => cases h
  | succ n ih =>
    obtain ⟨m, rfl⟩ : ∃ k, m = k + 1 := ⟨m - 1, by omega⟩
    by_cases hlen : (v.readLde index offset t).recLen = 0
    · rw [readDir_stops hlen] at h ⊢
      exact h
    · obtain ⟨t₁, hhandled, hrest⟩ := (readDir_turn_iff hlen).mp h
      have hmore : n ≤ m := by omega
      exact (readDir_turn_iff hlen).mpr ⟨t₁, hhandled.imp (ih hmore), ih hmore hrest⟩

theorem readDir_unique {t₁ t₂ : List DirEvent}
    (h₁ : v.ext2ReadDirRecFromInode n index depth offset t = some t₁)
    (h₂ : v.ext2ReadDirRecFromInode m index depth offset t = some t₂) : t₁ = t₂ := by
  have hmax₁ := readDir_mono (Nat.le_max_left n m) h₁
  have hmax₂ := readDir_mono (Nat.le_max_right n m) h₂
  exact Option.some.inj (hmax₁.symm.trans hmax₂)

theorem block_mul (v : Volume) : 512 * v.block = v.blockSize := by
  obtain ⟨k, hk⟩ := v.blockSize_eq
  have hdvd : 512 ∣ 1024 * 2 ^ k % 2 ^ 16 := by
    apply (Nat.dvd_mod_iff (by decide)).mpr
    exact Dvd.dvd.mul_right (by decide) _
  rw [block, hk]
  exact Nat.mul_div_cancel' hdvd

theorem blockSize_lt (v : Volume) : v.blockSize < 2 ^ 16 := by
  obtain ⟨k, hk⟩ := v.blockSize_eq
  omega

theorem readByte_succ (v : Volume) (t : List DirEvent) (startSector byte : ℕ) (offset : ℤ) :
    v.readByte t startSector (byte + 1) offset =
      v.pool t startSector offset :: v.readByte t startSector byte (offset + 1) := by
  rw [readByte, List.range_succ_eq_map, List.map_cons, List.map_map, readByte]
  congr 1
  · rw [Nat.cast_zero, zero_add]
  · apply List.map_congr_left
    intro i _
    rw [Function.comp_apply, Nat.cast_succ]
    congr 1
    omega

theorem readByte_inside (t : List DirEvent) (startSector : ℕ) (hlo : 0 ≤ offset)
    (hhi : offset + byte ≤ v.blockSize) : v.readByte t startSector byte offset =
      bytesAt v.disk (512 * startSector + offset.toNat) byte := by
  induction byte generalizing offset with
  | zero => rfl
  | succ byte ih =>
    have hin : 0 ≤ offset ∧ offset < 512 * v.block := by
      have hblock := v.block_mul
      omega
    rw [readByte_succ, bytesAt, pool, if_pos hin, ih (by omega) (by omega)]
    congr 2
    omega

theorem readByte_of_ahciReadByte {bytes : List (BitVec 8)} {k : ℕ} (t : List DirEvent)
    (h : ahciReadByte v.disk startSector v.block byte k = some bytes) :
    v.readByte t startSector byte k = bytes := by
  rw [ahciReadByte, v.block_mul] at h
  split_ifs at h with hfit
  rw [readByte_inside t startSector (Int.natCast_nonneg k) (by omega), Int.toNat_natCast]
  exact Option.some.inj h

theorem readDir_pos (h : v.ext2ReadDirRecFromInode n index depth offset t = some t') :
    ∃ m, n = m + 1 := by
  cases n with
  | zero => cases h
  | succ m => exact ⟨m, rfl⟩

end Steps

def entryAt (v : Volume) (index offset : ℤ) : LinkedDirEntryExt2 :=
  .ofBytes (bytesAt v.disk (512 * v.sector index + offset.toNat) 8)

def nameAt (v : Volume) (index offset : ℤ) : List (BitVec 8) :=
  bytesAt v.disk (512 * v.sector index + (offset + 8).toNat) (v.entryAt index offset).nameLen

theorem entryAt_recLen_lt (v : Volume) (index offset : ℤ) :
    (v.entryAt index offset).recLen < 2 ^ 16 := number_slice_lt _ 4 2

section Inside

variable {v : Volume} {index offset : ℤ} {t : List DirEvent}

theorem readLde_inside (hlo : 0 ≤ offset) (hhi : offset + 8 ≤ v.blockSize) :
    v.readLde index offset t = v.entryAt index offset := by
  rw [readLde, readByte_inside t _ hlo hhi, entryAt]

theorem readName_inside (hlo : 0 ≤ offset)
    (hhi : offset + 8 + (v.entryAt index offset).nameLen ≤ v.blockSize) :
    v.readName index offset t (v.entryAt index offset) = v.nameAt index offset := by
  have hlt := v.blockSize_lt
  rw [readName, int32_eq (by omega) (by omega), readByte_inside t _ (by omega) hhi, nameAt]

end Inside

end Volume

end MinOS
