import Mathlib.Data.List.Basic
import Mathlib.Data.List.Induction
import MinOS.Graphics

namespace MinOS

namespace Graphics

variable (g : Graphics) (fonts : ℤ → BitVec 8)

def glyphIndex (c : BitVec 8) (i : ℕ) : ℤ := (c - 0x20).toInt * 16 + i

/-- `fonts` also has what stands in memory around the array. -/
def printchar (ulX ulY : BitVec 32) (color bcolor : PixFormat) (c : BitVec 8) (fb : FrameBuffer) :
    FrameBuffer :=
  let fb := (List.range 16).foldl (fun fb i => (List.range 8).foldl
    (fun fb j => g.drawDot (ulX + .ofNat 32 j) (ulY + .ofNat 32 i) bcolor fb) fb) fb
  (List.range 16).foldl (fun fb i => (List.range 8).foldl
    (fun fb j =>
      if (fonts (glyphIndex c i)).getLsbD (7 - j) then
        g.drawDot (ulX + .ofNat 32 j) (ulY + .ofNat 32 i) color fb
      else fb) fb) fb

def printstr (ulX ulY : BitVec 32) (color bcolor : PixFormat) (s : List (BitVec 8)) (fb : FrameBuffer) :
    FrameBuffer :=
  (s.takeWhile (· ≠ 0)).zipIdx.foldl (fun fb x =>
    g.printchar fonts (ulX + .ofNat 32 (x.2 * 8)) ulY color bcolor x.1 fb) fb

def fontReads (s : List (BitVec 8)) : List ℤ :=
  (s.takeWhile (· ≠ 0)).flatMap (fun c => (List.range 16).map (glyphIndex c))

end Graphics

def newline : BitVec 8 := 0x0a
def carriageReturn : BitVec 8 := 0x0d
def del : BitVec 8 := 0x7f

structure ComState where
  key : BitVec 8
  xIchi : BitVec 32
  yIchi : BitVec 32
  fb : FrameBuffer

def ComState.start (fb : FrameBuffer) : ComState := ⟨newline, 0, 0, fb⟩

section Handler

variable (g : Graphics) (fonts : ℤ → BitVec 8)

def comHandler (s : ComState) (key : BitVec 8) : ComState :=
  if key ≠ newline ∧ key ≠ carriageReturn ∧ key ≠ del then
    ⟨key, s.xIchi + 8, s.yIchi, g.printstr fonts (50 + s.xIchi) (50 + s.yIchi) green black [key, 0] s.fb⟩
  else if key = del then
    let xIchi := s.xIchi - 8
    ⟨key, xIchi, s.yIchi, g.printstr fonts (50 + xIchi) (50 + s.yIchi) white white [0x20, 0] s.fb⟩
  else ⟨key, 0, s.yIchi + 16, s.fb⟩

def comHandlers (s : ComState) (keys : List (BitVec 8)) : ComState := keys.foldl (comHandler g fonts) s

def comReads (key : BitVec 8) : List ℤ :=
  if key ≠ newline ∧ key ≠ carriageReturn ∧ key ≠ del then Graphics.fontReads [key, 0]
  else if key = del then Graphics.fontReads [0x20, 0]
  else []

end Handler

def lineStep (n : ℕ) (key : BitVec 8) : ℕ :=
  if key = newline ∨ key = carriageReturn then 0 else if key = del then n - 1 else n + 1

def lineLength (keys : List (BitVec 8)) : ℕ := keys.foldl lineStep 0

def fontsSize : ℤ := 1520

def FollowsLine (g : Graphics) (fonts : ℤ → BitVec 8) (fb : FrameBuffer) (keys : List (BitVec 8)) : Prop :=
  (∀ p, p <+: keys → (comHandlers g fonts (.start fb) p).xIchi.toNat = 8 * lineLength p) ∧
    ∀ i ∈ keys.flatMap comReads, 0 ≤ i ∧ i < fontsSize

def Typed (p : List (BitVec 8)) (key : BitVec 8) : Prop :=
  key = 0 ∨ key = newline ∨ key = carriageReturn ∨ (0x20 ≤ key ∧ key < del) ∨
    (key = del ∧ lineLength p ≠ 0)

namespace Graphics

variable {g : Graphics} {fonts fonts' : ℤ → BitVec 8} {c : BitVec 8} {k i : ℤ}

theorem printchar_congr (h : ∀ i ∈ List.range 16, fonts (glyphIndex c i) = fonts' (glyphIndex c i))
    (ulX ulY : BitVec 32) (color bcolor : PixFormat) (fb : FrameBuffer) :
    g.printchar fonts ulX ulY color bcolor c fb = g.printchar fonts' ulX ulY color bcolor c fb := by
  unfold printchar
  apply List.foldl_ext
  intro fb i hi
  rw [h i hi]

theorem printstr_congr {s : List (BitVec 8)} (h : ∀ k ∈ fontReads s, fonts k = fonts' k)
    (ulX ulY : BitVec 32) (color bcolor : PixFormat) (fb : FrameBuffer) :
    g.printstr fonts ulX ulY color bcolor s fb = g.printstr fonts' ulX ulY color bcolor s fb := by
  apply List.foldl_ext
  rintro fb ⟨c, n⟩ hmem
  have hc : c ∈ s.takeWhile (· ≠ 0) := List.fst_mem_of_mem_zipIdx hmem
  apply printchar_congr
  intro i hi
  exact h _ (List.mem_flatMap.mpr ⟨c, hc, List.mem_map_of_mem hi⟩)

theorem glyphs_iff : (∀ i ∈ (List.range 16).map (glyphIndex c), 0 ≤ i ∧ i < fontsSize) ↔
    0x20 ≤ c ∧ c < del := by
  have hnum : 0x20 ≤ c ∧ c < del ↔ 0 ≤ (c - 0x20).toInt ∧ (c - 0x20).toInt < 95 := by
    unfold del
    rw [BitVec.toInt_eq_toNat_cond]
    split_ifs <;> bv_omega
  rw [hnum, List.forall_mem_map]
  simp only [List.mem_range, glyphIndex, fontsSize]
  constructor
  · intro h
    have hfirst := h 0 (by decide)
    have hlast := h 15 (by decide)
    omega
  · intro h i hi
    omega

end Graphics

section Typing

variable {g : Graphics} {fonts fonts' : ℤ → BitVec 8} {fb : FrameBuffer} {s : ComState} {keys p : List (BitVec 8)}
  {key : BitVec 8}

theorem comHandler_cases (g : Graphics) (fonts : ℤ → BitVec 8) (s : ComState) (key : BitVec 8) :
    ((key = newline ∨ key = carriageReturn) ∧ comReads key = [] ∧
        (comHandler g fonts s key).xIchi = 0) ∨
      (key = del ∧ comReads key = Graphics.fontReads [0x20, 0] ∧
        (comHandler g fonts s key).xIchi = s.xIchi - 8) ∨
      ((key ≠ newline ∧ key ≠ carriageReturn ∧ key ≠ del) ∧ comReads key = Graphics.fontReads [key, 0] ∧
        (comHandler g fonts s key).xIchi = s.xIchi + 8) := by
  by_cases hprinted : key ≠ newline ∧ key ≠ carriageReturn ∧ key ≠ del
  · refine .inr (.inr ⟨hprinted, if_pos hprinted, ?_⟩)
    rw [comHandler, if_pos hprinted]
  · by_cases hdel : key = del
    · refine .inr (.inl ⟨hdel, (if_neg hprinted).trans (if_pos hdel), ?_⟩)
      rw [comHandler, if_neg hprinted, if_pos hdel]
    · refine .inl ⟨?_, (if_neg hprinted).trans (if_neg hdel), ?_⟩
      · by_contra hline
        rw [not_or] at hline
        exact hprinted ⟨hline.1, hline.2, hdel⟩
      · rw [comHandler, if_neg hprinted, if_neg hdel]

theorem comHandler_congr (h : ∀ i ∈ comReads key, fonts i = fonts' i) :
    comHandler g fonts s key = comHandler g fonts' s key := by
  unfold comHandler comReads at *
  split_ifs at h ⊢
  · rw [Graphics.printstr_congr h]
  · dsimp only
    rw [Graphics.printstr_congr h]
  · rfl

theorem comHandlers_congr (h : ∀ i ∈ keys.flatMap comReads, fonts i = fonts' i) :
    comHandlers g fonts s keys = comHandlers g fonts' s keys := by
  induction keys generalizing s with
  | nil => rfl
  | cons key keys ih =>
    rw [List.flatMap_cons, List.forall_mem_append] at h
    rw [comHandlers, List.foldl_cons, comHandler_congr h.1]
    exact ih h.2

theorem fontReads_nul : Graphics.fontReads [0, 0] = [] := rfl

theorem fontReads_char (hkey : key ≠ 0) :
    Graphics.fontReads [key, 0] = (List.range 16).map (Graphics.glyphIndex key) := by
  have hstring : [key, 0].takeWhile (fun c => decide (c ≠ 0)) = [key] :=
    List.takeWhile_cons_of_pos (p := fun c => decide (c ≠ 0)) (decide_eq_true hkey)
  rw [Graphics.fontReads, hstring, List.flatMap_singleton]

theorem lineLength_snoc : lineLength (keys ++ [key]) = lineStep (lineLength keys) key := by
  rw [lineLength, List.foldl_append]
  rfl

theorem comHandlers_snoc : comHandlers g fonts s (keys ++ [key]) =
    comHandler g fonts (comHandlers g fonts s keys) key := by
  rw [comHandlers, List.foldl_append]
  rfl

theorem lineLength_le (keys : List (BitVec 8)) : lineLength keys ≤ keys.length := by
  induction keys using List.reverseRecOn with
  | nil => exact le_refl 0
  | append_singleton keys key ih =>
    rw [lineLength_snoc, lineStep, List.length_append, List.length_singleton]
    split_ifs <;> omega

theorem step_iff (hx : s.xIchi.toNat = 8 * lineLength keys) (hlen : lineLength keys + 1 < 2 ^ 28) :
    ((comHandler g fonts s key).xIchi.toNat = 8 * lineLength (keys ++ [key]) ∧
      ∀ i ∈ comReads key, 0 ≤ i ∧ i < fontsSize) ↔ Typed keys key := by
  rw [lineLength_snoc, lineStep, Typed]
  rcases comHandler_cases g fonts s key with
    ⟨hkey, hreads, hcursor⟩ | ⟨rfl, hreads, hcursor⟩ | ⟨⟨hnewline, hreturn, hdel⟩, hreads, hcursor⟩
  · rw [hreads, hcursor, if_pos hkey]
    apply iff_of_true ⟨rfl, List.forall_mem_nil _⟩
    exact .inr (hkey.imp_right .inl)
  · have hspace : ∀ i ∈ Graphics.fontReads [0x20, 0], 0 ≤ i ∧ i < fontsSize := by decide
    rw [hreads, hcursor, if_neg (by decide), if_pos rfl]
    constructor
    · rintro ⟨hcount, -⟩
      refine .inr (.inr (.inr (.inr ⟨rfl, fun hzero => ?_⟩)))
      -- the cursor of an empty line wraps around
      rw [hzero] at hx hcount
      bv_omega
    · rintro (h | h | h | h | ⟨-, hnonempty⟩)
      · exact absurd h (by decide)
      · exact absurd h (by decide)
      · exact absurd h (by decide)
      · exact absurd h.2 (by decide)
      · exact ⟨by bv_omega, hspace⟩
  · have hcount : (s.xIchi + 8).toNat = 8 * (lineLength keys + 1) := by bv_omega
    rw [hreads, hcursor, if_neg (not_or.mpr ⟨hnewline, hreturn⟩), if_neg hdel]
    simp only [hcount, hnewline, hreturn, hdel, true_and, false_or, false_and, or_false]
    by_cases hkey : key = 0
    · rw [hkey, fontReads_nul]
      exact iff_of_true (List.forall_mem_nil _) (.inl rfl)
    · rw [fontReads_char hkey, Graphics.glyphs_iff, or_iff_right hkey]

theorem followsLine_snoc : FollowsLine g fonts fb (keys ++ [key]) ↔ FollowsLine g fonts fb keys ∧
    (comHandlers g fonts (.start fb) (keys ++ [key])).xIchi.toNat = 8 * lineLength (keys ++ [key]) ∧
      ∀ i ∈ comReads key, 0 ≤ i ∧ i < fontsSize := by
  simp only [FollowsLine, List.prefix_concat_iff, List.flatMap_append, List.flatMap_singleton,
    List.forall_mem_append, forall_eq_or_imp]
  constructor
  · rintro ⟨⟨hlast, hkeys⟩, hreads, hread⟩
    exact ⟨⟨hkeys, hreads⟩, hlast, hread⟩
  · rintro ⟨⟨hkeys, hreads⟩, hlast, hread⟩
    exact ⟨⟨hlast, hkeys⟩, hreads, hread⟩

theorem typed_snoc : (∀ p k, p ++ [k] <+: keys ++ [key] → Typed p k) ↔
    (∀ p k, p ++ [k] <+: keys → Typed p k) ∧ Typed keys key := by
  simp only [List.prefix_concat_iff]
  constructor
  · intro h
    exact ⟨fun p k hpre => h p k (.inr hpre), h keys key (.inl rfl)⟩
  · rintro ⟨hkeys, hlast⟩ p k (heq | hpre)
    · obtain ⟨rfl, hk⟩ := List.append_inj' heq rfl
      obtain rfl := List.singleton_inj.mp hk
      exact hlast
    · exact hkeys p k hpre

/-- The cursor follows the line exactly as long as each byte is one that the handler can draw, and
DEL comes only behind a character. -/
theorem followsLine_iff (fonts : ℤ → BitVec 8) (hlen : keys.length < 2 ^ 28) :
    FollowsLine g fonts fb keys ↔ ∀ p key, p ++ [key] <+: keys → Typed p key := by
  induction keys using List.reverseRecOn with
  | nil => simp [FollowsLine, comHandlers, ComState.start, lineLength]
  | append_singleton keys key ih =>
    rw [List.length_append, List.length_singleton] at hlen
    have hle := lineLength_le keys
    rw [followsLine_snoc, typed_snoc, ← ih (by omega), comHandlers_snoc]
    apply and_congr_right
    intro hfollows
    exact step_iff (hfollows.1 keys (List.prefix_refl keys)) (by omega)

theorem followsLine_iff_typed :
    FollowsLine (initGraphics Graphics.landscape) (fun _ => 0) (fun _ => black) [0x61, del] := by
  apply (followsLine_iff (fun _ => 0) (by decide)).mpr
  have hfirst : ∀ p key, p ++ [key] <+: [] ++ [0x61] → Typed p key := by
    apply typed_snoc.mpr
    exact ⟨by simp, .inr (.inr (.inr (.inl (by decide))))⟩
  have hboth : ∀ p key, p ++ [key] <+: [0x61] ++ [del] → Typed p key := by
    apply typed_snoc.mpr
    exact ⟨hfirst, .inr (.inr (.inr (.inr ⟨rfl, by decide⟩)))⟩
  exact hboth

theorem not_followsLine_del :
    ¬ FollowsLine (initGraphics Graphics.landscape) (fun _ => 0) (fun _ => black) [del] := by
  rintro ⟨hcursor, -⟩
  exact absurd (hcursor [del] (List.prefix_refl _)) (by decide)

end Typing

end MinOS
