import MinOS.Library.Arrays

namespace MinOS

open Library.Arrays Library.Words

def kernelStart : Word := 0x100000

/-- `e_shoff` is at 40 in the header of the file, a section header has 64 bytes, and `sh_offset` is at 24
in it. -/
def updateStartAddr (m : Memory) (startAddr : Word) : Word :=
  let sectionHeader := startAddr + load64 m (startAddr + 40)
  startAddr + ((load64 m (sectionHeader + 64 + 24)).setWidth 32).signExtend 64

section Image

def fileWord (file : ℕ → BitVec 8) (k : ℕ) : Word := load64 (fun x => file x.toNat) (offset 0 k)

def firstSection (file : ℕ → BitVec 8) : ℕ := (fileWord file ((fileWord file 40).toNat + 88)).toNat

structure KernelCopied (m : Memory) (file : ℕ → BitVec 8) (n : ℕ) : Prop where
  size : n < 2 ^ 63
  headers : (fileWord file 40).toNat + 128 ≤ n
  copied : ∀ k < n, m (offset kernelStart k) = file k

variable {m : Memory} {file : ℕ → BitVec 8} {n k : ℕ}

theorem KernelCopied.word (h : KernelCopied m file n) (hk : k + 8 ≤ n) :
    load64 m (offset kernelStart k) = fileWord file k := by
  have hsize := h.size
  apply load64_moved
  intro j hj
  have hplace : (offset 0 (k + j)).toNat = k + j := by
    unfold offset
    bv_omega
  rw [h.copied _ (by omega), hplace]

theorem KernelCopied.updateStartAddr_eq (h : KernelCopied m file n) : updateStartAddr m kernelStart =
    kernelStart + ((BitVec.ofNat 64 (firstSection file)).setWidth 32).signExtend 64 := by
  have hheaders := h.headers
  have hplace : kernelStart + fileWord file 40 + 64 + 24 =
      offset kernelStart ((fileWord file 40).toNat + 88) := by
    unfold offset
    bv_omega
  have hbefore : 40 + 8 ≤ n := by omega
  have hshoff : load64 m (kernelStart + 40) = fileWord file 40 := h.word hbefore
  rw [updateStartAddr, hshoff, hplace, h.word (by omega), firstSection, BitVec.ofNat_toNat, BitVec.setWidth_eq]

/-- The kernel is entered at the first byte of the copied section exactly when the section begins below
2 GiB in the file: the offset goes through an `int`. -/
theorem updateStartAddr_iff (h : KernelCopied m file n) (hin : firstSection file < n) :
    (∀ k, firstSection file + k < n →
        m (offset (updateStartAddr m kernelStart) k) = file (firstSection file + k)) ∧
      updateStartAddr m kernelStart = offset kernelStart (firstSection file) ↔ firstSection file < 2 ^ 31 := by
  have hsize := h.size
  have hext : (((BitVec.ofNat 64 (firstSection file)).setWidth 32).signExtend 64).toNat =
      firstSection file % 2 ^ 32 + if 2 ^ 31 ≤ firstSection file % 2 ^ 32 then 2 ^ 64 - 2 ^ 32 else 0 := by
    rw [BitVec.toNat_signExtend, BitVec.msb_eq_decide, BitVec.toNat_setWidth, BitVec.toNat_setWidth,
      BitVec.toNat_ofNat]
    have hlow : firstSection file % 2 ^ 64 % 2 ^ 32 = firstSection file % 2 ^ 32 := by omega
    have hfits : firstSection file % 2 ^ 32 % 2 ^ 64 = firstSection file % 2 ^ 32 := by omega
    rw [hlow, hfits]
    simp only [decide_eq_true_iff]
  rw [h.updateStartAddr_eq]
  constructor
  · rintro ⟨-, heq⟩
    have hword := congrArg BitVec.toNat ((BitVec.add_right_inj _).mp heq)
    rw [hext, BitVec.toNat_ofNat] at hword
    split_ifs at hword <;> omega
  · intro hlow
    have heq : ((BitVec.ofNat 64 (firstSection file)).setWidth 32).signExtend 64 =
        BitVec.ofNat 64 (firstSection file) := by
      apply BitVec.eq_of_toNat_eq
      rw [hext, BitVec.toNat_ofNat]
      split_ifs <;> omega
    rw [heq]
    refine ⟨fun k hk => ?_, rfl⟩
    exact (congrArg m (offset_offset _ _ _)).trans (h.copied _ hk)

def smallKernel (k : ℕ) : BitVec 8 := if k = 40 then 64 else if k = 153 then 0x10 else 0

theorem updateStartAddr_iff_small :
    updateStartAddr (fun x => smallKernel (x - kernelStart).toNat) kernelStart = 0x101000 := by
  have hcopied : KernelCopied (fun x => smallKernel (x - kernelStart).toNat) smallKernel 0x2000 := by
    refine ⟨by decide, by decide, fun k hk => ?_⟩
    have hplace : (offset kernelStart k - kernelStart).toNat = k := by
      unfold offset
      bv_omega
    rw [hplace]
  exact ((updateStartAddr_iff hcopied (by decide)).mpr (by decide)).2

end Image

end MinOS
