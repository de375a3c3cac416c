import Mathlib.Algebra.Ring.Nat
import MinOS.Library.Interleavings

/-!
The calls of the boot services at the end of `UefiMain`. The firmware is not part of the program: its
services and its state are a parameter, and what the loader may rely on are named hypotheses.
-/

namespace MinOS

open Library.Interleavings Library.Runs

inductive EfiStatus where
  | success
  | bufferTooSmall
  | invalidParameter
  | outOfResources
  deriving DecidableEq

/-- `getMemoryMap` gets the size and the address of the buffer and answers with a size and a key,
`allocatePool` answers with an address. `background` is what the firmware does by itself. -/
structure BootServices (σ : Type) where
  getMemoryMap : ℕ → ℕ → σ → (EfiStatus × ℕ × ℕ) × σ
  allocatePool : ℕ → σ → (EfiStatus × ℕ) × σ
  freePool : ℕ → σ → σ
  exitBootServices : ℕ → σ → EfiStatus × σ
  background : σ → σ → Prop

structure BootMemory where
  mapSize : ℕ
  mapKey : ℕ
  pools : List (ℕ × ℕ)
  exited : Bool

/-- The documented behaviour of the boot services while they last. A failed `AllocatePool` leaves any
address behind, and a failed `GetMemoryMap` any key. -/
structure BootServices.Documented {σ : Type} (bs : BootServices σ) (view : σ → BootMemory) : Prop where
  size_pos : ∀ fw, 0 < (view fw).mapSize
  size_fits : ∀ fw, (view fw).mapSize + 0x1000 < 2 ^ 64
  map_tooSmall : ∀ fw size buffer, (view fw).exited = false → size < (view fw).mapSize →
    ∃ key fw', bs.getMemoryMap size buffer fw = ((.bufferTooSmall, (view fw).mapSize, key), fw') ∧
      view fw' = view fw
  map_null : ∀ fw size, (view fw).exited = false → (view fw).mapSize ≤ size →
    ∃ size' key fw', bs.getMemoryMap size 0 fw = ((.invalidParameter, size', key), fw') ∧
      view fw' = view fw
  map_returned : ∀ fw size buffer cap, (view fw).exited = false → (view fw).mapSize ≤ size →
    buffer ≠ 0 → (buffer, cap) ∈ (view fw).pools → size ≤ cap →
      ∃ fw', bs.getMemoryMap size buffer fw =
        ((.success, (view fw).mapSize, (view fw).mapKey), fw') ∧ view fw' = view fw
  allocated : ∀ fw size p fw', (view fw).exited = false →
    bs.allocatePool size fw = ((.success, p), fw') →
      p ≠ 0 ∧ (view fw').pools = (p, size) :: (view fw).pools ∧ (view fw').exited = false
  not_allocated : ∀ fw size status p fw', (view fw).exited = false →
    bs.allocatePool size fw = ((status, p), fw') → status ≠ .success →
      (view fw').pools = (view fw).pools ∧ (view fw').exited = false
  freed : ∀ fw p cap, (view fw).exited = false → (p, cap) ∈ (view fw).pools →
    (view (bs.freePool p fw)).pools = (view fw).pools.filter (·.1 ≠ p) ∧
      (view (bs.freePool p fw)).exited = false
  exit_taken : ∀ fw, (view fw).exited = false →
    ∃ fw', bs.exitBootServices (view fw).mapKey fw = (.success, fw') ∧
      view fw' = { view fw with exited := true }
  exit_refused : ∀ fw key, (view fw).exited = false → key ≠ (view fw).mapKey →
    ∃ fw', bs.exitBootServices key fw = (.invalidParameter, fw') ∧
      (view fw').pools = (view fw).pools ∧ (view fw').exited = false
  background_keeps : ∀ fw fw', (view fw).exited = false → bs.background fw fw' →
    (view fw').pools = (view fw).pools ∧ (view fw').exited = false

inductive LoaderPoint where
  | outerMap
  | test
  | freePool
  | allocatePool
  | innerMap
  | exitBootServices
  | jumped
  deriving DecidableEq

structure Loader (σ : Type) where
  point : LoaderPoint
  status : EfiStatus
  mmapsize : ℕ
  mmap : ℕ
  mapkey : ℕ
  fw : σ

inductive BootEvent where
  | next
  | change

namespace BootEvent

def isNext : BootEvent → Bool
  | next => true
  | change => false

end BootEvent

namespace Loader

variable {σ : Type} (bs : BootServices σ) (view : σ → BootMemory)

def getMemoryMap (s : Loader σ) : Loader σ :=
  let ((status, mmapsize, mapkey), fw) := bs.getMemoryMap s.mmapsize s.mmap s.fw
  { s with status := status, mmapsize := mmapsize, mapkey := mapkey, fw := fw }

def freePool (s : Loader σ) : Loader σ :=
  if s.mmap ≠ 0 then { s with fw := bs.freePool s.mmap s.fw } else s

def allocatePool (s : Loader σ) : Loader σ :=
  let mmapsize := (s.mmapsize + 0x1000) % 2 ^ 64
  let ((status, mmap), fw) := bs.allocatePool mmapsize s.fw
  { s with status := status, mmapsize := mmapsize, mmap := mmap, fw := fw }

def exitBootServices (s : Loader σ) : Loader σ :=
  let (status, fw) := bs.exitBootServices s.mapkey s.fw
  { s with status := status, fw := fw }

def next (s : Loader σ) : Option (Loader σ) :=
  match s.point with
  | .outerMap | .innerMap => some { s.getMemoryMap bs with point := .test }
  | .test => some { s with point := if s.status = .bufferTooSmall then .freePool else .exitBootServices }
  | .freePool => some { s.freePool bs with point := .allocatePool }
  | .allocatePool => some { s.allocatePool bs with point := .innerMap }
  | .exitBootServices =>
    let s := s.exitBootServices bs
    some { s with point := if s.status ≠ .success then .outerMap else .jumped }
  | .jumped => none

def start (mapkey : ℕ) (fw : σ) : Loader σ := ⟨.outerMap, .success, 0, 0, mapkey, fw⟩

inductive Step : Loader σ → BootEvent → Loader σ → Prop
  | next {s t : Loader σ} : s.next bs = some t → Step s .next t
  | change {s : Loader σ} {fw : σ} : (view s.fw).exited = false → bs.background s.fw fw →
      Step s .change { s with fw := fw }

def Granted (s : Loader σ) : Prop :=
  s.point = .allocatePool → (s.allocatePool bs).status = .success

structure Safe (s : Loader σ) : Prop where
  written : s.point = .outerMap ∨ s.point = .innerMap → s.mmap ≠ 0 →
    ∃ cap, (s.mmap, cap) ∈ (view s.fw).pools ∧ s.mmapsize ≤ cap
  freed : s.point = .freePool → s.mmap ≠ 0 → ∃ cap, (s.mmap, cap) ∈ (view s.fw).pools
  pools : (view s.fw).pools.length ≤ 1
  exited : (view s.fw).exited = true ↔ s.point = .jumped
  key : s.point = .jumped → s.mapkey = (view s.fw).mapKey

def Holds (s : Loader σ) (size : ℕ) : Prop := (s.mmap = 0 ∧ (view s.fw).pools = []) ∨
  (s.mmap ≠ 0 ∧ ∃ cap, (view s.fw).pools = [(s.mmap, cap)] ∧ size ≤ cap)

def Knows (s : Loader σ) : Prop :=
  match s.point with
  | .outerMap | .innerMap | .exitBootServices => s.Holds view s.mmapsize
  | .test => s.Holds view (if s.status = .bufferTooSmall then 0 else s.mmapsize)
  | .freePool => s.Holds view 0
  | .allocatePool => (view s.fw).pools = []
  | .jumped => s.Holds view s.mmapsize ∧ s.mapkey = (view s.fw).mapKey

structure Inv (s : Loader σ) : Prop where
  knows : s.Knows view
  exited : (view s.fw).exited = decide (s.point = .jumped)

variable {bs : BootServices σ} {view : σ → BootMemory} {s t : Loader σ} {e : BootEvent} {size : ℕ}

theorem Holds.mono {size' : ℕ} (h : s.Holds view size) (hle : size' ≤ size) : s.Holds view size' :=
  h.imp_right (fun ⟨hne, cap, hpools, hcap⟩ => ⟨hne, cap, hpools, Nat.le_trans hle hcap⟩)

theorem Holds.mem (h : s.Holds view size) (hne : s.mmap ≠ 0) :
    ∃ cap, (s.mmap, cap) ∈ (view s.fw).pools ∧ size ≤ cap := by
  rcases h with ⟨hnull, -⟩ | ⟨-, cap, hpools, hcap⟩
  · exact absurd hnull hne
  · exact ⟨cap, by rw [hpools]; exact List.mem_singleton_self _, hcap⟩

theorem Holds.length_le (h : s.Holds view size) : (view s.fw).pools.length ≤ 1 := by
  rcases h with ⟨-, hpools⟩ | ⟨-, cap, hpools, -⟩
  all_goals
    rw [hpools]
    simp

theorem Holds.of_same (h : s.Holds view size) (hmmap : t.mmap = s.mmap)
    (hpools : (view t.fw).pools = (view s.fw).pools) : t.Holds view size := by
  unfold Holds at *
  rwa [hmmap, hpools]

theorem Knows.length_le (h : s.Knows view) : (view s.fw).pools.length ≤ 1 := by
  unfold Knows at h
  split at h
  · exact h.length_le
  · exact h.length_le
  · exact h.length_le
  · exact h.length_le
  · exact h.length_le
  · rw [h]
    exact Nat.zero_le 1
  · exact h.1.length_le

theorem getMemoryMap_cases (hdoc : bs.Documented view) (hlast : (view s.fw).exited = false)
    (h : s.Holds view s.mmapsize) : view (s.getMemoryMap bs).fw = view s.fw ∧
      (s.getMemoryMap bs).mmap = s.mmap ∧
      ((s.mmapsize < (view s.fw).mapSize ∧ (s.getMemoryMap bs).status = .bufferTooSmall ∧
          (s.getMemoryMap bs).mmapsize = (view s.fw).mapSize) ∨
        (s.mmap = 0 ∧ (view s.fw).mapSize ≤ s.mmapsize ∧
          (s.getMemoryMap bs).status = .invalidParameter) ∨
        (s.mmap ≠ 0 ∧ (view s.fw).mapSize ≤ s.mmapsize ∧ (s.getMemoryMap bs).status = .success ∧
          (s.getMemoryMap bs).mmapsize = (view s.fw).mapSize ∧
          (s.getMemoryMap bs).mapkey = (view s.fw).mapKey)) := by
  by_cases hsmall : s.mmapsize < (view s.fw).mapSize
  · obtain ⟨key, fw', hcall, hview⟩ := hdoc.map_tooSmall s.fw s.mmapsize s.mmap hlast hsmall
    rw [getMemoryMap, hcall]
    exact ⟨hview, rfl, .inl ⟨hsmall, rfl, rfl⟩⟩
  · by_cases hnull : s.mmap = 0
    · obtain ⟨size', key, fw', hcall, hview⟩ := hdoc.map_null s.fw s.mmapsize hlast (not_lt.mp hsmall)
      rw [getMemoryMap, hnull, hcall]
      exact ⟨hview, rfl, .inr (.inl ⟨rfl, not_lt.mp hsmall, rfl⟩)⟩
    · obtain ⟨cap, hmem, hcap⟩ := h.mem hnull
      obtain ⟨fw', hcall, hview⟩ :=
        hdoc.map_returned s.fw s.mmapsize s.mmap cap hlast (not_lt.mp hsmall) hnull hmem hcap
      rw [getMemoryMap, hcall]
      exact ⟨hview, rfl, .inr (.inr ⟨hnull, not_lt.mp hsmall, rfl, rfl, rfl⟩)⟩

theorem Holds.getMemoryMap (hdoc : bs.Documented view) (hlast : (view s.fw).exited = false)
    (h : s.Holds view s.mmapsize) : (s.getMemoryMap bs).Holds view
      (if (s.getMemoryMap bs).status = .bufferTooSmall then 0 else (s.getMemoryMap bs).mmapsize) := by
  obtain ⟨hview, hmmap, hcases⟩ := getMemoryMap_cases hdoc hlast h
  have hpools := congrArg BootMemory.pools hview
  rcases hcases with ⟨-, hstatus, -⟩ | ⟨hnull, -, -⟩ | ⟨-, hsize, hstatus, hmmapsize, -⟩
  · rw [hstatus, if_pos rfl]
    exact (h.mono (Nat.zero_le _)).of_same hmmap hpools
  · rcases h with ⟨-, hnone⟩ | ⟨hne, -⟩
    · exact .inl ⟨hmmap.trans hnull, hpools.trans hnone⟩
    · exact absurd hnull hne
  · rw [hstatus, if_neg (by decide), hmmapsize]
    exact (h.mono hsize).of_same hmmap hpools

theorem Holds.freePool (hdoc : bs.Documented view) (hlast : (view s.fw).exited = false)
    (h : s.Holds view size) :
    (view (s.freePool bs).fw).pools = [] ∧ (view (s.freePool bs).fw).exited = false := by
  rcases h with ⟨hnull, hpools⟩ | ⟨hne, cap, hpools, -⟩
  · rw [Loader.freePool, if_neg (not_not.mpr hnull)]
    exact ⟨hpools, hlast⟩
  · rw [Loader.freePool, if_pos hne]
    obtain ⟨hfreed, hsame⟩ := hdoc.freed s.fw s.mmap cap hlast (by rw [hpools]; exact List.mem_singleton_self _)
    refine ⟨?_, hsame⟩
    rw [hfreed, hpools]
    simp

theorem allocatePool_cases (hdoc : bs.Documented view) (hlast : (view s.fw).exited = false)
    (hnone : (view s.fw).pools = []) : (view (s.allocatePool bs).fw).exited = false ∧
      (s.allocatePool bs).mmapsize = (s.mmapsize + 0x1000) % 2 ^ 64 ∧
      (((s.allocatePool bs).status = .success ∧ (s.allocatePool bs).mmap ≠ 0 ∧
          (s.allocatePool bs).Holds view (s.allocatePool bs).mmapsize) ∨
        ((s.allocatePool bs).status ≠ .success ∧ (view (s.allocatePool bs).fw).pools = [])) := by
  rcases hcall : bs.allocatePool ((s.mmapsize + 0x1000) % 2 ^ 64) s.fw with ⟨⟨status, p⟩, fw'⟩
  have heq : s.allocatePool bs =
      { s with status := status, mmapsize := (s.mmapsize + 0x1000) % 2 ^ 64, mmap := p, fw := fw' } := by
    rw [allocatePool, hcall]
  rw [heq]
  by_cases hstatus : status = .success
  · subst hstatus
    obtain ⟨hne, hpools, hsame⟩ := hdoc.allocated s.fw _ p fw' hlast hcall
    refine ⟨hsame, rfl, .inl ⟨rfl, hne, .inr ⟨hne, _, ?_, le_refl _⟩⟩⟩
    rw [← hnone]
    exact hpools
  · obtain ⟨hpools, hsame⟩ := hdoc.not_allocated s.fw _ status p fw' hlast hcall hstatus
    exact ⟨hsame, rfl, .inr ⟨hstatus, hpools.trans hnone⟩⟩

theorem exitBootServices_cases (hdoc : bs.Documented view) (hlast : (view s.fw).exited = false) :
    ∃ fw, (view fw).pools = (view s.fw).pools ∧
      ((s.mapkey = (view s.fw).mapKey ∧ s.exitBootServices bs = { s with status := .success, fw := fw } ∧
          (view fw).mapKey = (view s.fw).mapKey ∧ (view fw).exited = true) ∨
        (s.mapkey ≠ (view s.fw).mapKey ∧
          s.exitBootServices bs = { s with status := .invalidParameter, fw := fw } ∧
          (view fw).exited = false)) := by
  by_cases hkey : s.mapkey = (view s.fw).mapKey
  · obtain ⟨fw', hcall, hview⟩ := hdoc.exit_taken s.fw hlast
    rw [← hkey] at hcall
    rw [exitBootServices, hcall]
    exact ⟨fw', by rw [hview], .inl ⟨hkey, rfl, by rw [hview], by rw [hview]⟩⟩
  · obtain ⟨fw', hcall, hpools, hsame⟩ := hdoc.exit_refused s.fw s.mapkey hlast hkey
    rw [exitBootServices, hcall]
    exact ⟨fw', hpools, .inr ⟨hkey, rfl, hsame⟩⟩

theorem Inv.next (hdoc : bs.Documented view) (h : s.Inv view) (hnext : s.next bs = some t)
    (hgranted : s.Granted bs) : t.Inv view := by
  obtain ⟨hknows, hexited⟩ := h
  obtain ⟨point, status, mmapsize, mmap, mapkey, fw⟩ := s
  cases point with
  | outerMap | innerMap =>
    have hcases := getMemoryMap_cases hdoc hexited hknows
    have hholds := Holds.getMemoryMap hdoc hexited hknows
    obtain rfl := Option.some.inj hnext
    exact ⟨hholds, (congrArg BootMemory.exited hcases.1).trans hexited⟩
  | test =>
    obtain rfl := Option.some.inj hnext
    change Holds view _ (if status = .bufferTooSmall then 0 else mmapsize) at hknows
    by_cases hsmall : status = .bufferTooSmall
    · rw [if_pos hsmall] at hknows ⊢
      exact ⟨hknows, hexited⟩
    · rw [if_neg hsmall] at hknows ⊢
      exact ⟨hknows, hexited⟩
  | freePool =>
    obtain ⟨hpools, hsame⟩ := Holds.freePool hdoc hexited hknows
    obtain rfl := Option.some.inj hnext
    exact ⟨hpools, hsame⟩
  | allocatePool =>
    obtain ⟨hsame, -, ⟨-, -, hholds⟩ | ⟨hfailed, -⟩⟩ := allocatePool_cases hdoc hexited hknows
    · obtain rfl := Option.some.inj hnext
      exact ⟨hholds, hsame⟩
    · exact absurd (hgranted rfl) hfailed
  | exitBootServices =>
    obtain ⟨fw', hpools, ⟨hkey, heq, hsame, hended⟩ | ⟨hkey, heq, hlast⟩⟩ :=
      exitBootServices_cases hdoc hexited
    · simp only [Loader.next, heq] at hnext
      obtain rfl := Option.some.inj hnext
      exact ⟨⟨Holds.of_same hknows rfl hpools, hkey.trans hsame.symm⟩, hended⟩
    · simp only [Loader.next, heq] at hnext
      obtain rfl := Option.some.inj hnext
      exact ⟨Holds.of_same hknows rfl hpools, hlast⟩
  | jumped => exact absurd hnext (by simp [Loader.next])

theorem Inv.step (hdoc : bs.Documented view) (h : s.Inv view) (hstep : s.Step bs view e t)
    (hgranted : e = .next → s.Granted bs) : t.Inv view := by
  cases hstep with
  | next hnext => exact h.next hdoc hnext (hgranted rfl)
  | @change fw hlast hback =>
    obtain ⟨hpools, hsame⟩ := hdoc.background_keeps s.fw fw hlast hback
    obtain ⟨hknows, hexited⟩ := h
    refine ⟨?_, hsame.trans (hlast.symm.trans hexited)⟩
    obtain ⟨point, status, mmapsize, mmap, mapkey, fw⟩ := s
    cases point with
    | jumped =>
      rw [hlast] at hexited
      cases hexited
    | allocatePool => exact hpools.trans hknows
    | _ => exact Holds.of_same hknows rfl hpools

theorem Inv.safe (h : s.Inv view) : s.Safe view := by
  obtain ⟨hknows, hexited⟩ := h
  have hpools := hknows.length_le
  obtain ⟨point, status, mmapsize, mmap, mapkey, fw⟩ := s
  refine ⟨fun hpoint hne => ?_, fun hpoint hne => ?_, hpools, ?_, fun hpoint => ?_⟩
  · rcases hpoint with rfl | rfl
    · exact Holds.mem hknows hne
    · exact Holds.mem hknows hne
  · obtain rfl := hpoint
    obtain ⟨cap, hmem, -⟩ := Holds.mem hknows hne
    exact ⟨cap, hmem⟩
  · rw [hexited, decide_eq_true_iff]
  · obtain rfl := hpoint
    exact hknows.2

theorem Inv.start (mapkey : ℕ) {fw : σ} (hpools : (view fw).pools = []) (hlast : (view fw).exited = false) :
    (start mapkey fw).Inv view :=
  ⟨.inl ⟨rfl, hpools⟩, hlast⟩

/-- A failed `AllocatePool` is not noticed: the map goes where `mmap` happens to point. -/
theorem Inv.not_granted (hdoc : bs.Documented view) (h : s.Inv view) (hnext : s.next bs = some t)
    (hnot : ¬ s.Granted bs) (hmmap : t.mmap ≠ 0) : ¬ t.Safe view := by
  obtain ⟨hpoint, hfailed⟩ := Classical.not_imp.mp hnot
  obtain ⟨hknows, hexited⟩ := h
  rw [hpoint] at hexited
  rw [Knows, hpoint] at hknows
  obtain ⟨-, -, ⟨hstatus, -⟩ | ⟨-, hpools⟩⟩ := allocatePool_cases hdoc hexited hknows
  · exact absurd hstatus hfailed
  · rw [Loader.next, hpoint] at hnext
    obtain rfl := Option.some.inj hnext
    intro hsafe
    obtain ⟨cap, hmem, -⟩ := hsafe.written (.inr rfl) hmmap
    rw [hpools] at hmem
    cases hmem

/-- As long as `AllocatePool` succeeds, the loader calls the firmware as it may, whatever changes in
between, and jumps only behind `ExitBootServices`. -/
theorem boot_calls_safe (hdoc : bs.Documented view) {mapkey : ℕ} {fw : σ} {es : List BootEvent}
    (hpools : (view fw).pools = []) (hlast : (view fw).exited = false)
    (hrun : Run (fun s e t => s.Step bs view e t ∧ (e = .next → s.Granted bs)) (start mapkey fw) es t) :
    t.Safe view ∧ ∀ u, t.next bs = some u → ¬ t.Granted bs → u.mmap ≠ 0 → ¬ u.Safe view := by
  have h : t.Inv view :=
    hrun.invariant (.start mapkey hpools hlast) (fun h hstep => h.step hdoc hstep.1 hstep.2)
  exact ⟨h.safe, fun u hnext hnot hne => h.not_granted hdoc hnext hnot hne⟩

section Jump

def Paced (s : Loader σ) : Prop :=
  match s.point with
  | .outerMap => s.mmap = 0 → s.mmapsize = 0
  | .test => if s.status = .bufferTooSmall then s.mmapsize + 0x1000 < 2 ^ 64 else s.mmap ≠ 0
  | .freePool | .allocatePool => s.mmapsize + 0x1000 < 2 ^ 64
  | .innerMap | .exitBootServices => s.mmap ≠ 0
  | .jumped => True

def left (view : σ → BootMemory) (s : Loader σ) : ℕ :=
  match s.point with
  | .outerMap | .innerMap => if (view s.fw).mapSize ≤ s.mmapsize ∧ s.mmap ≠ 0 then 3 else 7
  | .test => if s.status = .bufferTooSmall then 6 else if s.mapkey = (view s.fw).mapKey then 2 else 9
  | .freePool => 5
  | .allocatePool => 4
  | .exitBootServices => if s.mapkey = (view s.fw).mapKey then 1 else 8
  | .jumped => 0

def Roomy (bs : BootServices σ) (view : σ → BootMemory) (s : Loader σ) : Prop :=
  s.point = .allocatePool → (view (s.allocatePool bs).fw).mapSize ≤ s.mmapsize + 0x1000

theorem left_le (s : Loader σ) : s.left view ≤ 9 := by
  grind [left]

theorem left_eq_zero (h : s.left view = 0) : s.point = .jumped := by
  grind [left]

theorem getMemoryMap_paced (hdoc : bs.Documented view) (hlast : (view s.fw).exited = false)
    (hholds : s.Holds view s.mmapsize) (h : s.mmap = 0 → s.mmapsize = 0) :
    Paced { s.getMemoryMap bs with point := .test } ∧
      left view { s.getMemoryMap bs with point := .test } + 1 ≤
        if (view s.fw).mapSize ≤ s.mmapsize ∧ s.mmap ≠ 0 then 3 else 7 := by
  have hpos := hdoc.size_pos s.fw
  obtain ⟨hview, hmmap, hcases⟩ := getMemoryMap_cases hdoc hlast hholds
  rw [Paced, left]
  dsimp only
  rcases hcases with ⟨hsmall, hstatus, hsize⟩ | ⟨hnull, hroom, -⟩ | ⟨hne, hroom, hstatus, -, hkey⟩
  · rw [hstatus, hsize, if_pos rfl, if_pos rfl, if_neg (fun hroom => absurd hroom.1 (not_le.mpr hsmall))]
    exact ⟨hdoc.size_fits s.fw, le_refl 7⟩
  · have hzero := h hnull
    omega
  · rw [hstatus, hmmap, hkey, hview, if_neg (by decide), if_neg (by decide), if_pos rfl,
      if_pos ⟨hroom, hne⟩]
    exact ⟨hne, le_refl 3⟩

theorem Paced.next (hdoc : bs.Documented view) (hinv : s.Inv view) (h : s.Paced)
    (hnext : s.next bs = some t) (hgranted : s.Granted bs) (hroomy : s.Roomy bs view) :
    t.Paced ∧ t.left view + 1 ≤ s.left view := by
  obtain ⟨hknows, hexited⟩ := hinv
  obtain ⟨point, status, mmapsize, mmap, mapkey, fw⟩ := s
  cases point with
  | outerMap =>
    have hpaced := getMemoryMap_paced hdoc hexited hknows h
    obtain rfl := Option.some.inj hnext
    exact hpaced
  | innerMap =>
    have hpaced := getMemoryMap_paced hdoc hexited hknows (fun hnull => absurd hnull h)
    obtain rfl := Option.some.inj hnext
    exact hpaced
  | test =>
    obtain rfl := Option.some.inj hnext
    change if status = .bufferTooSmall then mmapsize + 0x1000 < 2 ^ 64 else mmap ≠ 0 at h
    by_cases hsmall : status = .bufferTooSmall
    · rw [if_pos hsmall] at h ⊢
      refine ⟨h, ?_⟩
      change 5 + 1 ≤ if status = .bufferTooSmall then 6 else _
      rw [if_pos hsmall]
    · rw [if_neg hsmall] at h ⊢
      refine ⟨h, ?_⟩
      change (if mapkey = (view fw).mapKey then 1 else 8) + 1 ≤ if status = .bufferTooSmall then 6 else
        if mapkey = (view fw).mapKey then 2 else 9
      rw [if_neg hsmall]
      split_ifs <;> decide
  | freePool =>
    obtain rfl := Option.some.inj hnext
    refine ⟨?_, le_refl 5⟩
    rw [Loader.freePool]
    by_cases hnull : mmap ≠ 0
    · rw [if_pos hnull]
      exact h
    · rw [if_neg hnull]
      exact h
  | allocatePool =>
    obtain ⟨-, hsize, ⟨-, hne, -⟩ | ⟨hfailed, -⟩⟩ := allocatePool_cases hdoc hexited hknows
    · have hroom := hroomy rfl
      have hsum : (mmapsize + 0x1000) % 2 ^ 64 = mmapsize + 0x1000 := Nat.mod_eq_of_lt h
      dsimp only at hsize hroom
      rw [hsum] at hsize
      rw [← hsize] at hroom
      obtain rfl := Option.some.inj hnext
      refine ⟨hne, ?_⟩
      rw [left]
      dsimp only
      rw [if_pos ⟨hroom, hne⟩]
      exact le_refl 4
    · exact absurd (hgranted rfl) hfailed
  | exitBootServices =>
    obtain ⟨fw', hpools, ⟨hkey, heq, hsame, hended⟩ | ⟨hkey, heq, hlast⟩⟩ :=
      exitBootServices_cases hdoc hexited
    · simp only [Loader.next, heq] at hnext
      obtain rfl := Option.some.inj hnext
      refine ⟨trivial, ?_⟩
      change 0 + 1 ≤ if mapkey = (view fw).mapKey then 1 else 8
      rw [if_pos hkey]
    · simp only [Loader.next, heq] at hnext
      obtain rfl := Option.some.inj hnext
      refine ⟨fun hnull => absurd hnull h, ?_⟩
      change (if (view fw').mapSize ≤ mmapsize ∧ mmap ≠ 0 then 3 else 7) + 1 ≤
        if mapkey = (view fw).mapKey then 1 else 8
      rw [if_neg hkey]
      split_ifs <;> decide
  | jumped => exact absurd hnext (by simp [Loader.next])

theorem Paced.step (hdoc : bs.Documented view) (hinv : s.Inv view) (h : s.Paced)
    (hstep : s.Step bs view e t) (hgranted : e = .next → s.Granted bs ∧ s.Roomy bs view) :
    t.Paced ∧ t.left view + (if e.isNext then 1 else 0) ≤ s.left view + if !e.isNext then 9 else 0 := by
  cases hstep with
  | next hnext => exact h.next hdoc hinv hnext (hgranted rfl).1 (hgranted rfl).2
  | @change fw _ _ =>
    have hle : left view { s with fw := fw } ≤ 9 := left_le _
    exact ⟨h, Nat.le_trans hle (Nat.le_add_left 9 _)⟩

/-- The loader comes to the jump in seven steps, and in nine more for each thing that the firmware does
by itself. -/
theorem boot_jumps (hdoc : bs.Documented view) {mapkey : ℕ} {fw : σ} {es : List BootEvent}
    (hpools : (view fw).pools = []) (hlast : (view fw).exited = false)
    (hrun : Run (fun s e t => s.Step bs view e t ∧ (e = .next → s.Granted bs ∧ s.Roomy bs view))
      (start mapkey fw) es t)
    (hsteps : 7 + 9 * es.countP (fun e => !e.isNext) ≤ es.countP BootEvent.isNext) :
    t.point = .jumped := by
  have hboth : (start mapkey fw).Inv view ∧ (start mapkey fw).Paced :=
    ⟨.start mapkey hpools hlast, fun _ => rfl⟩
  obtain ⟨-, hsum⟩ := @Run.potential _ _ _ _ _ _ (fun s => s.Inv view ∧ s.Paced) (left view)
    BootEvent.isNext (fun e => !e.isNext) 9 hrun hboth
    (fun h hstep => by
      obtain ⟨hpaced, hless⟩ := h.2.step hdoc h.1 hstep.1 hstep.2
      exact ⟨⟨h.1.step hdoc hstep.1 (fun he => (hstep.2 he).1), hpaced⟩, hless⟩)
  have hstart : (start mapkey fw).left view = 7 := if_neg (fun hroom => hroom.2 rfl)
  have hzero : t.left view = 0 := by omega
  exact left_eq_zero hzero

end Jump

end Loader

section Example

structure Firmware where
  descriptors : ℕ
  key : ℕ
  pools : List (ℕ × ℕ)
  exited : Bool

namespace Firmware

def view (fw : Firmware) : BootMemory :=
  ⟨48 * (fw.descriptors % 2 ^ 20 + 1), fw.key, fw.pools, fw.exited⟩

def services : BootServices Firmware where
  getMemoryMap size buffer fw :=
    if size < fw.view.mapSize then ((.bufferTooSmall, fw.view.mapSize, 0), fw)
    else if buffer = 0 then ((.invalidParameter, size, 0), fw)
    else ((.success, fw.view.mapSize, fw.key), fw)
  allocatePool size fw :=
    if 2 ^ 30 < size then ((.outOfResources, 0x123), fw)
    else
      let p := 0x7e000000 + (fw.pools.map Prod.fst).sum
      ((.success, p), ⟨fw.descriptors + 1, fw.key + 1, (p, size) :: fw.pools, fw.exited⟩)
  freePool p fw := { fw with key := fw.key + 1, pools := fw.pools.filter (·.1 ≠ p) }
  exitBootServices key fw :=
    if key = fw.key then (.success, { fw with exited := true }) else (.invalidParameter, fw)
  background fw fw' := fw'.pools = fw.pools ∧ fw'.exited = fw.exited

theorem documented : services.Documented view where
  size_pos fw := by simp [view]
  size_fits fw := by
    simp only [view]
    omega
  map_tooSmall fw size buffer _ hsmall := ⟨0, fw, if_pos hsmall, rfl⟩
  map_null fw size _ hroom :=
    ⟨size, 0, fw, (if_neg (not_lt.mpr hroom)).trans (if_pos rfl), rfl⟩
  map_returned fw size buffer cap _ hroom hne _ _ :=
    ⟨fw, (if_neg (not_lt.mpr hroom)).trans (if_neg hne), rfl⟩
  allocated fw size p fw' hlast hcall := by
    simp only [services] at hcall
    split_ifs at hcall with hlarge
    · cases hcall
    · obtain ⟨hp, rfl⟩ := Prod.mk.inj hcall
      obtain rfl := (Prod.mk.inj hp).2
      exact ⟨by omega, rfl, hlast⟩
  not_allocated fw size status p fw' hlast hcall hstatus := by
    simp only [services] at hcall
    split_ifs at hcall with hlarge
    · obtain ⟨-, rfl⟩ := Prod.mk.inj hcall
      exact ⟨rfl, hlast⟩
    · obtain ⟨hp, -⟩ := Prod.mk.inj hcall
      exact absurd (Prod.mk.inj hp).1.symm hstatus
  freed fw p cap hlast _ := ⟨rfl, hlast⟩
  exit_taken fw _ := ⟨{ fw with exited := true }, if_pos rfl, rfl⟩
  exit_refused fw key hlast hkey := ⟨fw, if_neg hkey, rfl, hlast⟩
  background_keeps fw fw' hlast hback := ⟨hback.1, hback.2.trans hlast⟩

def boot (s : Loader Firmware) : BootEvent → Option (Loader Firmware)
  | .next =>
    if s.point = .allocatePool ∧ ((s.allocatePool services).status ≠ .success ∨
        s.mmapsize + 0x1000 < (s.allocatePool services).fw.view.mapSize) then none
    else s.next services
  | .change =>
    if s.fw.exited then none
    else some { s with fw := { s.fw with descriptors := s.fw.descriptors + 1, key := s.fw.key + 1 } }

theorem boot_step {s t : Loader Firmware} {e : BootEvent} (h : boot s e = some t) :
    s.Step services view e t ∧ (e = .next → s.Granted services ∧ s.Roomy services view) := by
  cases e with
  | next =>
    obtain ⟨hgranted, hnext⟩ := Option.ite_none_left_eq_some.mp h
    refine ⟨.next hnext, fun _ => ⟨fun hpoint => ?_, fun hpoint => ?_⟩⟩
    · by_contra hfailed
      exact hgranted ⟨hpoint, .inl hfailed⟩
    · by_contra hlong
      exact hgranted ⟨hpoint, .inr (not_le.mp hlong)⟩
  | change =>
    obtain ⟨hlast, heq⟩ := Option.ite_none_left_eq_some.mp h
    obtain rfl := Option.some.inj heq
    exact ⟨.change (Bool.not_eq_true _ ▸ hlast) ⟨rfl, rfl⟩, fun he => (by cases he)⟩

def first : Firmware := ⟨47, 7, [], false⟩

def changedOnce : List BootEvent :=
  List.replicate 6 .next ++ .change :: List.replicate 8 .next

end Firmware

theorem Loader.boot_calls_safe_example : ∃ t : Loader Firmware, t.point = .jumped ∧
    t.fw.pools = [(0x7e000000, 6496)] ∧ t.Safe Firmware.view := by
  let t := (execAll Firmware.boot (Loader.start 0 Firmware.first) Firmware.changedOnce).get (by decide +kernel)
  have ht : execAll Firmware.boot (Loader.start 0 Firmware.first) Firmware.changedOnce = some t :=
    (Option.some_get _).symm
  have hrun := (execAll_run ht).mono Firmware.boot_step
  exact ⟨t, by decide +kernel, by decide +kernel, (boot_calls_safe Firmware.documented rfl rfl
    (hrun.mono fun h => ⟨h.1, fun he => (h.2 he).1⟩)).1⟩

theorem Loader.boot_jumps_example :
    ∃ t : Loader Firmware, t.fw.pools = [(0x7e000000, 6400)] ∧ t.point = .jumped := by
  let t := (execAll Firmware.boot (Loader.start 0 Firmware.first) (List.replicate 7 .next)).get
    (by decide +kernel)
  have ht : execAll Firmware.boot (Loader.start 0 Firmware.first) (List.replicate 7 .next) = some t :=
    (Option.some_get _).symm
  exact ⟨t, by decide +kernel, boot_jumps Firmware.documented rfl rfl
    ((execAll_run ht).mono Firmware.boot_step) (by decide)⟩

end Example

end MinOS
