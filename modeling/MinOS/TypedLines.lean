import MinOS.ScreenTexts

namespace MinOS

structure Terminal where
  above : List (List (BitVec 8))
  line : List (BitVec 8)
  cells : ℕ → ℕ → Option (Option (BitVec 8))

namespace Terminal

def put (t : Terminal) (column : ℕ) (v : Option (BitVec 8)) : ℕ → ℕ → Option (Option (BitVec 8)) :=
  fun i j => if i = t.above.length ∧ j = column then some v else t.cells i j

def blank : Terminal := ⟨[], [], fun _ _ => none⟩

/-- The byte 0 takes a cell without writing to it. -/
def type (t : Terminal) (key : BitVec 8) : Terminal :=
  if key = newline ∨ key = carriageReturn then ⟨t.above ++ [t.line], [], t.cells⟩
  else if key = del then ⟨t.above, t.line.dropLast, t.put (t.line.length - 1) none⟩
  else if key = 0 then ⟨t.above, t.line ++ [0], t.cells⟩
  else ⟨t.above, t.line ++ [key], t.put t.line.length (some key)⟩

def typed (keys : List (BitVec 8)) : Terminal := keys.foldl type blank

def lines (t : Terminal) : List (List (BitVec 8)) := t.above ++ [t.line]

def pixel (t : Terminal) (fonts : ℤ → BitVec 8) (X Y : ℕ) (old : PixFormat) : PixFormat :=
  if 50 ≤ X ∧ 50 ≤ Y then
    match t.cells ((Y - 50) / 16) ((X - 50) / 8) with
    | some (some c) => if inkAt fonts c ((Y - 50) % 16, (X - 50) % 8) then green else black
    | some none => white
    | none => old
  else old

variable {t : Terminal} {keys p : List (BitVec 8)} {key c : BitVec 8} {fonts : ℤ → BitVec 8}
  {X Y i j column : ℕ}
  {v : Option (BitVec 8)} {old : PixFormat} {text : List (BitVec 8)}

theorem typed_snoc : typed (keys ++ [key]) = (typed keys).type key := by
  rw [typed, List.foldl_append]
  rfl

theorem length_line (keys : List (BitVec 8)) : (typed keys).line.length = lineLength keys := by
  induction keys using List.reverseRecOn with
  | nil => rfl
  | append_singleton keys key ih =>
    rw [typed_snoc, lineLength_snoc, lineStep, type, ← ih]
    split_ifs <;> simp

theorem length_typed (keys : List (BitVec 8)) :
    (typed keys).above.length + (typed keys).line.length ≤ keys.length := by
  induction keys using List.reverseRecOn with
  | nil => exact le_refl 0
  | append_singleton keys key ih =>
    rw [typed_snoc, type, List.length_append, List.length_singleton]
    split_ifs <;> simp <;> omega

theorem concat_cases {α : Type*} {l : List α} {a b : α} (h : (l ++ [a])[i]? = some b) :
    (i < l.length ∧ l[i]? = some b) ∨ (i = l.length ∧ b = a) := by
  rw [List.getElem?_append] at h
  split_ifs at h with hi
  · exact .inl ⟨hi, h⟩
  · rw [List.getElem?_singleton] at h
    split_ifs at h with h0
    exact .inr ⟨by omega, (Option.some.inj h).symm⟩

theorem put_self (t : Terminal) (column : ℕ) (v : Option (BitVec 8)) :
    t.put column v t.above.length column = some v := if_pos ⟨rfl, rfl⟩

theorem put_other (h : i ≠ t.above.length ∨ j ≠ column) : t.put column v i j = t.cells i j :=
  if_neg (fun heq => h.elim (fun hi => hi heq.1) (fun hj => hj heq.2))

structure Holds (t : Terminal) : Prop where
  above : ∀ i text, t.above[i]? = some text → ∀ j c, text[j]? = some c → c ≠ 0 →
    t.cells i j = some (some c)
  line : ∀ j c, t.line[j]? = some c → c ≠ 0 → t.cells t.above.length j = some (some c)

theorem Holds.put_above (h : t.Holds) (htext : t.above[i]? = some text) (hc : text[j]? = some c)
    (hne : c ≠ 0) : t.put column v i j = some (some c) := by
  have hi := (List.getElem?_eq_some_iff.mp htext).1
  rw [put_other (.inl hi.ne)]
  exact h.above i text htext j c hc hne

theorem Holds.type (h : t.Holds) (key : BitVec 8) : (t.type key).Holds := by
  rw [Terminal.type]
  by_cases hend : key = newline ∨ key = carriageReturn
  · rw [if_pos hend]
    refine ⟨fun i text htext j c hc hne => ?_, fun j c hc => by simp at hc⟩
    obtain ⟨hi, habove⟩ | ⟨rfl, rfl⟩ := concat_cases htext
    · exact h.above i text habove j c hc hne
    · exact h.line j c hc hne
  · rw [if_neg hend]
    by_cases hdel : key = del
    · rw [if_pos hdel]
      refine ⟨fun i text htext j c hc hne => h.put_above htext hc hne, fun j c hc hne => ?_⟩
      have hj := (List.getElem?_eq_some_iff.mp hc).1
      dsimp only at hj hc
      rw [List.length_dropLast] at hj
      rw [List.getElem?_dropLast, if_pos hj] at hc
      exact (put_other (.inr (by omega))).trans (h.line j c hc hne)
    · rw [if_neg hdel]
      by_cases hzero : key = 0
      · rw [if_pos hzero]
        refine ⟨h.above, fun j c hc hne => ?_⟩
        obtain ⟨-, hline⟩ | ⟨-, rfl⟩ := concat_cases hc
        · exact h.line j c hline hne
        · exact absurd rfl hne
      · rw [if_neg hzero]
        refine ⟨fun i text htext j c hc hne => h.put_above htext hc hne, fun j c hc hne => ?_⟩
        obtain ⟨hj, hline⟩ | ⟨rfl, rfl⟩ := concat_cases hc
        · exact (put_other (.inr hj.ne)).trans (h.line j c hline hne)
        · exact put_self t _ _

theorem typed_holds (keys : List (BitVec 8)) : (typed keys).Holds := by
  induction keys using List.reverseRecOn with
  | nil =>
    exact ⟨fun i text htext => by simp [typed, blank] at htext,
      fun j c hc => by simp [typed, blank] at hc⟩
  | append_singleton keys key ih =>
    rw [typed_snoc]
    exact ih.type key

theorem Holds.lines (h : t.Holds) (htext : t.lines[i]? = some text) (hc : text[j]? = some c) (hne : c ≠ 0) :
    t.cells i j = some (some c) := by
  obtain ⟨-, habove⟩ | ⟨rfl, rfl⟩ := concat_cases htext
  · exact h.above i text habove j c hc hne
  · exact h.line j c hc hne

theorem pixel_put (t : Terminal) (above : List (List (BitVec 8))) (line : List (BitVec 8)) (column : ℕ)
    (v : Option (BitVec 8)) (old : PixFormat) :
    (⟨above, line, t.put column v⟩ : Terminal).pixel fonts X Y old =
      if 50 + 8 * column ≤ X ∧ X < 50 + 8 * column + 8 ∧ 50 + 16 * t.above.length ≤ Y ∧
          Y < 50 + 16 * t.above.length + 16 then
        match v with
        | some c =>
          if inkAt fonts c (Y - (50 + 16 * t.above.length), X - (50 + 8 * column)) then green else black
        | none => white
      else t.pixel fonts X Y old := by
  by_cases hin : 50 + 8 * column ≤ X ∧ X < 50 + 8 * column + 8 ∧ 50 + 16 * t.above.length ≤ Y ∧
      Y < 50 + 16 * t.above.length + 16
  · have hrow : (Y - 50) / 16 = t.above.length := by omega
    have hcolumn : (X - 50) / 8 = column := by omega
    have hrest : (Y - 50) % 16 = Y - (50 + 16 * t.above.length) := by omega
    have hrest' : (X - 50) % 8 = X - (50 + 8 * column) := by omega
    have hcorner : 50 ≤ X ∧ 50 ≤ Y := by omega
    rw [if_pos hin, pixel, if_pos hcorner]
    dsimp only
    rw [hrow, hcolumn, put_self, hrest, hrest']
    cases v <;> rfl
  · rw [if_neg hin, pixel, pixel]
    by_cases hcorner : 50 ≤ X ∧ 50 ≤ Y
    · have hother : (Y - 50) / 16 ≠ t.above.length ∨ (X - 50) / 8 ≠ column := by
        by_contra hboth
        rw [not_or, not_ne_iff, not_ne_iff] at hboth
        exact hin (by omega)
      rw [if_pos hcorner, if_pos hcorner]
      dsimp only
      rw [put_other hother]
    · rw [if_neg hcorner, if_neg hcorner]

end Terminal

section Screen

open Graphics

variable {g : Graphics} {fonts : ℤ → BitVec 8} {fb : FrameBuffer} {s : ComState} {t : Terminal}
  {keys p : List (BitVec 8)} {key : BitVec 8} {ulX ulY : BitVec 32} {color bcolor : PixFormat} {X Y : ℕ}

theorem printstr_nul (fb : FrameBuffer) : g.printstr fonts ulX ulY color bcolor [key, 0] fb =
    g.printstr fonts ulX ulY color bcolor [key] fb := by
  have htake : [key, 0].takeWhile (fun c => decide (c ≠ 0)) = [key].takeWhile (fun c => decide (c ≠ 0)) := by
    simp only [List.takeWhile_cons]
    rfl
  rw [printstr, htake, printstr]

theorem printstr_zero (fb : FrameBuffer) : g.printstr fonts ulX ulY color bcolor [0, 0] fb = fb := rfl

structure Terminal.Shown (t : Terminal) (g : Graphics) (fonts : ℤ → BitVec 8) (fb : FrameBuffer)
    (s : ComState) : Prop where
  column : s.xIchi.toNat = 8 * t.line.length
  row : s.yIchi.toNat = 16 * t.above.length
  pixels : ∀ X Y, g.OnScreen X Y → g.pixel s.fb X Y = t.pixel fonts X Y (g.pixel fb X Y)
  others : ∀ a, (∀ p ∈ g.logicalScreen, a ≠ g.dotIndex p.1 p.2) → s.fb a = fb a

theorem Terminal.Shown.print (h : t.Shown g fonts fb s) (hs : g.Sound) {column : ℕ} {v : Option (BitVec 8)}
    (hx : ulX.toNat = 50 + 8 * column) (hy : ulY.toNat = 50 + 16 * t.above.length)
    (hbound : 50 + 8 * (column + 1) ≤ 2 ^ 32 ∧ 50 + 16 * (t.above.length + 1) ≤ 2 ^ 32) (hkey : key ≠ 0)
    (hv : ∀ p, (if inkAt fonts key p then color else bcolor) =
      match v with
      | some c => if inkAt fonts c p then green else black
      | none => white)
    (above : List (List (BitVec 8))) (line : List (BitVec 8)) (hon : g.OnScreen X Y) :
    g.pixel (g.printstr fonts ulX ulY color bcolor [key, 0] s.fb) X Y =
      (⟨above, line, t.put column v⟩ : Terminal).pixel fonts X Y (g.pixel fb X Y) := by
  have htext : 0 ∉ [key] := by simpa using hkey.symm
  rw [printstr_nul, pixel_printstr hs hon htext (by rw [hx, List.length_singleton]; omega) (by omega),
    Terminal.pixel_put, hx, hy, textPixel]
  by_cases hin : 50 + 8 * column ≤ X ∧ X < 50 + 8 * column + 8 ∧ 50 + 16 * t.above.length ≤ Y ∧
      Y < 50 + 16 * t.above.length + 16
  · have hcorner : 50 + 8 * column ≤ X ∧ 50 + 16 * t.above.length ≤ Y ∧
        Y < 50 + 16 * t.above.length + 16 := by omega
    have hfirst : (X - (50 + 8 * column)) / 8 = 0 := by omega
    have hrest : (X - (50 + 8 * column)) % 8 = X - (50 + 8 * column) := by omega
    rw [if_pos hin, if_pos hcorner, hfirst, hrest, ← hv]
    rfl
  · rw [if_neg hin, h.pixels X Y hon]
    by_cases hcorner : 50 + 8 * column ≤ X ∧ 50 + 16 * t.above.length ≤ Y ∧ Y < 50 + 16 * t.above.length + 16
    · have hnone : [key][(X - (50 + 8 * column)) / 8]? = none := by
        apply List.getElem?_eq_none
        rw [List.length_singleton]
        omega
      rw [if_pos hcorner, hnone]
    · rw [if_neg hcorner]

theorem Terminal.Shown.type (h : t.Shown g fonts fb s) (hs : g.Sound) (htyped : Typed p key)
    (hp : lineLength p = t.line.length) (hlen : t.above.length + t.line.length + 5 < 2 ^ 28) :
    (t.type key).Shown g fonts fb (comHandler g fonts s key) := by
  have hcolumn := h.column
  have hrow := h.row
  rw [comHandler, Terminal.type]
  by_cases hend : key = newline ∨ key = carriageReturn
  · have hprinted : ¬ (key ≠ newline ∧ key ≠ carriageReturn ∧ key ≠ del) := by tauto
    have hdel : key ≠ del := by rcases hend with rfl | rfl <;> decide
    rw [if_neg hprinted, if_pos hend, if_neg hdel]
    refine ⟨rfl, ?_, h.pixels, h.others⟩
    dsimp only
    rw [List.length_append, List.length_singleton]
    bv_omega
  · rw [if_neg hend]
    by_cases hdel : key = del
    · have hprinted : ¬ (key ≠ newline ∧ key ≠ carriageReturn ∧ key ≠ del) := by tauto
      have hline : t.line.length ≠ 0 := by
        rcases htyped with rfl | rfl | rfl | hvisible | ⟨-, hline⟩
        · exact absurd hdel (by decide)
        · exact absurd hdel (by decide)
        · exact absurd hdel (by decide)
        · exact absurd (hdel ▸ hvisible.2) (by decide)
        · rwa [hp] at hline
      have hback : (s.xIchi - 8).toNat = 8 * (t.line.length - 1) := by bv_omega
      rw [if_neg hprinted, if_pos hdel, if_pos hdel]
      refine ⟨by simpa using hback, hrow, fun X Y hon => ?_, fun a ha => ?_⟩
      · exact h.print hs (by bv_omega) (by bv_omega) (by omega) (by decide) (fun p => by simp) _ _ hon
      · exact (printstr_other ha).trans (h.others a ha)
    · have hprinted : key ≠ newline ∧ key ≠ carriageReturn ∧ key ≠ del := by tauto
      have hforth : (s.xIchi + 8).toNat = 8 * (t.line.length + 1) := by bv_omega
      rw [if_pos hprinted, if_neg hdel]
      by_cases hzero : key = 0
      · rw [if_pos hzero, hzero, printstr_zero]
        exact ⟨by simpa using hforth, hrow, h.pixels, h.others⟩
      · rw [if_neg hzero]
        refine ⟨by simpa using hforth, hrow, fun X Y hon => ?_, fun a ha => ?_⟩
        · exact h.print hs (by bv_omega) (by bv_omega) (by omega) hzero (fun p => rfl) _ _ hon
        · exact (printstr_other ha).trans (h.others a ha)

theorem shown_typed (hs : g.Sound) (hlen : keys.length + 5 < 2 ^ 28)
    (htyped : ∀ p key, p ++ [key] <+: keys → Typed p key) (fb : FrameBuffer) :
    (Terminal.typed keys).Shown g fonts fb (comHandlers g fonts (.start fb) keys) := by
  induction keys using List.reverseRecOn with
  | nil =>
    refine ⟨rfl, rfl, fun X Y _ => ?_, fun a _ => rfl⟩
    simp [comHandlers, ComState.start, Terminal.typed, Terminal.pixel, Terminal.blank]
  | append_singleton keys key ih =>
    obtain ⟨hkeys, hkey⟩ := typed_snoc.mp htyped
    have hsize := Terminal.length_typed keys
    rw [List.length_append, List.length_singleton] at hlen
    rw [comHandlers_snoc, Terminal.typed_snoc]
    exact (ih (by omega) hkeys).type hs hkey (Terminal.length_line keys).symm (by omega)

/-- The screen is that of the terminal whenever the bytes are ones that `com_handler` can draw, and
each line of the terminal is read from the screen as it was edited. -/
theorem typed_lines_shown {vinfo : VideoInfo} (hpitch : vinfo.xAxis ≤ vinfo.ppsl)
    (hsize : vinfo.ppsl.toNat * vinfo.yAxis.toNat < 2 ^ 32) (hf : HasFonts fonts)
    (hlen : keys.length + 5 < 2 ^ 28) (htyped : ∀ p key, p ++ [key] <+: keys → Typed p key)
    (fb : FrameBuffer) :
    let g := initGraphics vinfo
    let s := comHandlers g fonts (.start fb) keys
    let t := Terminal.typed keys
    (∀ X Y, g.OnScreen X Y → g.pixel s.fb X Y = t.pixel fonts X Y (g.pixel fb X Y)) ∧
      (∀ a, (∀ p ∈ g.logicalScreen, a ≠ g.dotIndex p.1 p.2) → s.fb a = fb a) ∧
      ∀ i text, t.lines[i]? = some text → (∀ c ∈ text, c ∈ printable) →
        g.FitsLine 50 (50 + 16 * i) text.length →
        g.readLine fonts s.fb 50 (50 + 16 * i) green text.length = text.map some := by
  intro g s t
  have hshown : t.Shown g fonts fb s := shown_typed (sound_initGraphics hpitch hsize) hlen htyped fb
  refine ⟨hshown.pixels, hshown.others, fun i text htext hprintable hfits => ?_⟩
  have hline : g.ShowsLine fonts s.fb 50 (50 + 16 * i) green black text := by
    intro k c hc p hp
    obtain ⟨hrow, hcol⟩ := mem_cellPixels.mp hp
    have hk := (List.getElem?_eq_some_iff.mp hc).1
    have hcell := (Terminal.typed_holds keys).lines htext hc
      (ne_zero_of_printable (hprintable c (List.mem_of_getElem? hc)))
    refine (hshown.pixels _ _ (hfits.onScreen hk hp)).trans ?_
    have hcorner : 50 ≤ 50 + 8 * k + p.2 ∧ 50 ≤ 50 + 16 * i + p.1 := by omega
    have hi : (50 + 16 * i + p.1 - 50) / 16 = i := by omega
    have hk' : (50 + 8 * k + p.2 - 50) / 8 = k := by omega
    have hpixel : ((50 + 16 * i + p.1 - 50) % 16, (50 + 8 * k + p.2 - 50) % 8) = p :=
      Prod.ext (by dsimp only; omega) (by dsimp only; omega)
    change t.pixel fonts (50 + 8 * k + p.2) (50 + 16 * i + p.1) _ = _
    rw [Terminal.pixel, if_pos hcorner, hi, hk', hcell, hpixel]
  exact hline.readLine hf (by decide) hprintable

instance (p : List (BitVec 8)) (key : BitVec 8) : Decidable (Typed p key) :=
  inferInstanceAs (Decidable (_ ∨ _ ∨ _ ∨ (_ ∧ _) ∨ (_ ∧ _)))

theorem typed_of_take (h : ∀ i (hi : i < keys.length), Typed (keys.take i) keys[i]) :
    ∀ p key, p ++ [key] <+: keys → Typed p key := by
  rintro p key ⟨rest, rfl⟩
  simpa using h p.length (by simp)

theorem typed_lines_shown_two :
    let s := comHandlers (initGraphics landscape) fontsArray (.start (fun _ => white))
      [0x68, 0x69, del, 0x6f, newline, 0x6b]
    (initGraphics landscape).readLine fontsArray s.fb 50 50 green 2 = [some 0x68, some 0x6f] ∧
      (initGraphics landscape).readLine fontsArray s.fb 50 66 green 1 = [some 0x6b] := by
  have hshown := @typed_lines_shown fontsArray [0x68, 0x69, del, 0x6f, newline, 0x6b] landscape (by decide)
    (by decide) fontsArray_hasFonts (by decide) (typed_of_take (by decide)) (fun _ => white)
  exact ⟨hshown.2.2 0 _ rfl (by decide) (by unfold FitsLine; decide),
    hshown.2.2 1 _ rfl (by decide) (by unfold FitsLine; decide)⟩

end Screen

end MinOS
