import MinOS.NumberTexts
import MinOS.ScreenTexts

namespace MinOS

open Library.Numerals Library.Rasters Library.Words

def charBytes (s : List Char) : List (BitVec 8) := s.map (fun c => .ofNat 8 c.toNat)

structure IntrFrame where
  rip : Word
  cs : Word
  rflags : Word
  rsp : Word
  ss : Word

namespace Graphics

variable (g : Graphics) (fonts : ℤ → BitVec 8)

def printnum (ulX ulY : BitVec 32) (color bcolor : PixFormat) (init : ℕ → Char) (num : Word)
    (fb : FrameBuffer) : FrameBuffer :=
  (MinOS.printnum init num).foldl (fun fb s => g.printstr fonts ulX ulY color bcolor (charBytes s) fb) fb

def printstrnum (ulX ulY : BitVec 32) (color bcolor : PixFormat) (s : String) (init : ℕ → Char) (num : Word)
    (fb : FrameBuffer) : FrameBuffer :=
  let len := ((charBytes s.toList).takeWhile (· ≠ 0)).length
  let fb := g.printstr fonts ulX ulY color bcolor (charBytes s.toList) fb
  g.printnum fonts (ulX + .ofNat 32 (len * 8)) ulY color bcolor init num fb

def exceptionHandler (name : String) (init : ℕ → ℕ → Char) (frame : IntrFrame) (errorCode : Word)
    (fb : FrameBuffer) : FrameBuffer :=
  let fb := g.printstr fonts 100 84 white black (charBytes name.toList) fb
  let fb := g.printstrnum fonts 100 100 white black "error code: " (init 0) errorCode fb
  let fb := g.printstrnum fonts 100 116 white black "rip       : " (init 1) frame.rip fb
  let fb := g.printstrnum fonts 100 132 white black "cs        : " (init 2) frame.cs fb
  let fb := g.printstrnum fonts 100 148 white black "rflags    : " (init 3) frame.rflags fb
  let fb := g.printstrnum fonts 100 164 white black "rsp       : " (init 4) frame.rsp fb
  g.printstrnum fonts 100 180 white black "ss        : " (init 5) frame.ss fb

def deHandler := g.exceptionHandler fonts "#DE"
def dbHandler := g.exceptionHandler fonts "#DB"
def nmiHandler := g.exceptionHandler fonts "#NMI"
def bpHandler := g.exceptionHandler fonts "#BP"
def ofHandler := g.exceptionHandler fonts "#OF"
def brHandler := g.exceptionHandler fonts "#BR"
def udHandler := g.exceptionHandler fonts "#UD"
def nmHandler := g.exceptionHandler fonts "#NM"
def dfHandler := g.exceptionHandler fonts "#DF"
def tsHandler := g.exceptionHandler fonts "#TS"
def npHandler := g.exceptionHandler fonts "#NP"
def ssHandler := g.exceptionHandler fonts "#SS"
def gpHandler := g.exceptionHandler fonts "#GP"
def pfHandler := g.exceptionHandler fonts "#PF"
def mfHandler := g.exceptionHandler fonts "#MF"
def acHandler := g.exceptionHandler fonts "#AC"
def mcHandler := g.exceptionHandler fonts "#MC"
def xmHandler := g.exceptionHandler fonts "#XM"

def exceptionHandlers : List (ℕ × String × ((ℕ → ℕ → Char) → IntrFrame → Word → FrameBuffer → FrameBuffer)) :=
  [(0, "#DE", g.deHandler fonts), (1, "#DB", g.dbHandler fonts), (2, "#NMI", g.nmiHandler fonts),
    (3, "#BP", g.bpHandler fonts), (4, "#OF", g.ofHandler fonts), (5, "#BR", g.brHandler fonts),
    (6, "#UD", g.udHandler fonts), (7, "#NM", g.nmHandler fonts), (8, "#DF", g.dfHandler fonts),
    (10, "#TS", g.tsHandler fonts), (11, "#NP", g.npHandler fonts), (12, "#SS", g.ssHandler fonts),
    (13, "#GP", g.gpHandler fonts), (14, "#PF", g.pfHandler fonts), (16, "#MF", g.mfHandler fonts),
    (17, "#AC", g.acHandler fonts), (18, "#MC", g.mcHandler fonts), (19, "#XM", g.xmHandler fonts)]

def frameLines (frame : IntrFrame) (errorCode : Word) : List (ℕ × String × Word) :=
  [(100, "error code: ", errorCode), (116, "rip       : ", frame.rip), (132, "cs        : ", frame.cs),
    (148, "rflags    : ", frame.rflags), (164, "rsp       : ", frame.rsp), (180, "ss        : ", frame.ss)]

def readNumber (fb : FrameBuffer) (x y : ℕ) (color : PixFormat) (n : ℕ) : Option ℕ :=
  readHex ((g.readLine fonts fb x y color n).reduceOption.map (fun c => Char.ofNat c.toNat))

end Graphics

structure Label where
  x : ℕ
  y : ℕ
  text : List (BitVec 8)

namespace Label

def Fits (g : Graphics) (l : Label) : Prop :=
  (∀ c ∈ l.text, c ∈ printable) ∧ g.FitsLine l.x l.y l.text.length

def Apart (l k : Label) : Prop := Graphics.LinesApart l.x l.y l.text.length k.x k.y k.text.length

instance (l k : Label) : Decidable (l.Apart k) := inferInstanceAs (Decidable (_ ∨ _))

def print (g : Graphics) (fonts : ℤ → BitVec 8) (color bcolor : PixFormat) (fb : FrameBuffer) (l : Label) :
    FrameBuffer :=
  g.printstr fonts (.ofNat 32 l.x) (.ofNat 32 l.y) color bcolor l.text fb

variable {g : Graphics} {fonts : ℤ → BitVec 8} {fb : FrameBuffer} {color bcolor : PixFormat} {l k : Label}
  {labels : List Label}

theorem Fits.toNats (h : l.Fits g) : (BitVec.ofNat 32 l.x).toNat = l.x ∧ (BitVec.ofNat 32 l.y).toNat = l.y := by
  have hwidth := g.xAxis.isLt
  have hheight := g.yAxis.isLt
  obtain ⟨-, hx, hy⟩ := h
  exact ⟨Nat.mod_eq_of_lt (by omega), Nat.mod_eq_of_lt (by omega)⟩

theorem shows_print (hs : g.Sound) (h : l.Fits g) (fb : FrameBuffer) :
    g.ShowsLine fonts (l.print g fonts color bcolor fb) l.x l.y color bcolor l.text := by
  obtain ⟨hx, hy⟩ := h.toNats
  have hfits := h.2
  rw [← hx, ← hy] at hfits
  have hshows : g.ShowsLine fonts (l.print g fonts color bcolor fb) (BitVec.ofNat 32 l.x).toNat
      (BitVec.ofNat 32 l.y).toNat color bcolor l.text :=
    Graphics.showsLine_printstr hs (Graphics.zero_notMem h.1) hfits fb
  rwa [hx, hy] at hshows

theorem shows_keep (hs : g.Sound) (hl : l.Fits g) (hk : k.Fits g) (hapart : l.Apart k)
    (h : g.ShowsLine fonts fb l.x l.y color bcolor l.text) :
    g.ShowsLine fonts (k.print g fonts color bcolor fb) l.x l.y color bcolor l.text := by
  obtain ⟨hx, hy⟩ := hk.toNats
  have hwidth := g.xAxis.isLt
  have hheight := g.yAxis.isLt
  obtain ⟨htext, hkx, hky⟩ := hk
  refine h.printstr hs hl.2 (Graphics.zero_notMem htext) (by omega) (by omega) ?_
  rw [hx, hy]
  exact hapart

theorem shows_all (hs : g.Sound) (hfits : ∀ l ∈ labels, l.Fits g) (hapart : labels.Pairwise Apart)
    (fb : FrameBuffer) : ∀ l ∈ labels,
      g.ShowsLine fonts (labels.foldl (Label.print g fonts color bcolor) fb) l.x l.y color bcolor l.text := by
  induction labels using List.reverseRecOn with
  | nil => exact fun l hl => absurd hl List.not_mem_nil
  | append_singleton labels k ih =>
    rw [List.forall_mem_append, List.forall_mem_singleton] at hfits
    obtain ⟨hbefore, -, hlast⟩ := List.pairwise_append.mp hapart
    intro l hl
    rw [List.foldl_append]
    rcases List.mem_append.mp hl with hl | hl
    · exact shows_keep hs (hfits.1 l hl) hfits.2 (hlast l hl k (List.mem_singleton_self k))
        (ih hfits.1 hbefore l hl)
    · obtain rfl := List.mem_singleton.mp hl
      exact shows_print hs hfits.2 _

end Label

section Screens

variable {g : Graphics} {fonts : ℤ → BitVec 8} {fb : FrameBuffer} {name : String} {frame : IntrFrame}
  {errorCode : Word} {init : ℕ → ℕ → Char} {x y n : ℕ} {color bcolor : PixFormat}

theorem ofNat_charByte {c : Char} (h : c.toNat < 256) : Char.ofNat (BitVec.ofNat 8 c.toNat).toNat = c := by
  rw [BitVec.toNat_ofNat, Nat.mod_eq_of_lt h, Char.ofNat_toNat]

theorem map_charBytes {s : List Char} (h : ∀ c ∈ s, c.toNat < 256) :
    (charBytes s).map (fun c => Char.ofNat c.toNat) = s := by
  rw [charBytes, List.map_map]
  exact (List.map_congr_left (fun c hc => ofNat_charByte (h c hc))).trans (List.map_id s)

theorem printable_charBytes {s : List Char} (h : s.all (fun c => 0x20 ≤ c.toNat ∧ c.toNat < 0x7f) = true) :
    ∀ c ∈ charBytes s, c ∈ printable := by
  intro c hc
  obtain ⟨d, hd, rfl⟩ := List.mem_map.mp hc
  obtain ⟨hlo, hhi⟩ := of_decide_eq_true (List.all_eq_true.mp h d hd)
  have hnum : (BitVec.ofNat 8 d.toNat).toNat = d.toNat := Nat.mod_eq_of_lt (by omega)
  exact mem_printable_of_lt (by rwa [hnum]) (by rwa [hnum])

theorem length_charBytes (s : List Char) : (charBytes s).length = s.length := List.length_map _

theorem reduceOption_some {α : Type*} (l : List α) : (l.map some).reduceOption = l := by
  induction l with
  | nil => rfl
  | cons a l ih => exact congrArg (List.cons a) ih

theorem mem_numeral {c : Char} (h : c ∈ numeral 16 n) : c.toNat < 256 ∧ BitVec.ofNat 8 c.toNat ∈ printable := by
  have hall : ∀ d : Fin 16, (hexChar d).toNat < 256 ∧ BitVec.ofNat 8 (hexChar d).toNat ∈ printable := by
    decide
  rw [numeral, List.mem_cons, List.mem_cons, digits, List.mem_map] at h
  rcases h with rfl | rfl | ⟨k, -, rfl⟩
  · decide
  · decide
  · exact hall ⟨_, Nat.mod_lt _ (by decide)⟩

theorem printable_numeral (num : Word) : ∀ c ∈ charBytes (numeral 16 num.toNat), c ∈ printable := by
  intro c hc
  obtain ⟨d, hd, rfl⟩ := List.mem_map.mp hc
  exact (mem_numeral hd).2

theorem length_numeral (num : Word) : (charBytes (numeral 16 num.toNat)).length = 18 := by
  simp [charBytes, numeral, digits]

theorem readNumber_numeral {num : Word} (hf : HasFonts fonts) (hne : color ≠ bcolor)
    (h : g.ShowsLine fonts fb x y color bcolor (charBytes (numeral 16 num.toNat))) :
    g.readNumber fonts fb x y color 18 = some num.toNat := by
  have hline := h.readLine hf hne (printable_numeral num)
  rw [length_numeral] at hline
  rw [Graphics.readNumber, hline, reduceOption_some, map_charBytes (fun c hc => (mem_numeral hc).1),
    readHex_numeral]
  exact congrArg some (Nat.mod_eq_of_lt num.isLt)

def screenLabels (name : String) (frame : IntrFrame) (errorCode : Word) : List Label :=
  ⟨100, 84, charBytes name.toList⟩ :: (Graphics.frameLines frame errorCode).flatMap (fun line =>
    [⟨100, line.1, charBytes line.2.1.toList⟩, ⟨196, line.1, charBytes (numeral 16 line.2.2.toNat)⟩])

theorem exceptionHandler_eq : g.exceptionHandler fonts name init frame errorCode fb =
    (screenLabels name frame errorCode).foldl (Label.print g fonts white black) fb := by
  simp only [Graphics.exceptionHandler, Graphics.printstrnum, Graphics.printnum, printnum_eq, List.foldl_cons,
    List.foldl_nil, screenLabels, Graphics.frameLines, List.flatMap_cons, List.flatMap_nil, List.cons_append,
    List.nil_append, List.append_nil, Label.print]
  rfl

theorem mem_exceptionHandlers {vector : ℕ}
    {handler : (ℕ → ℕ → Char) → IntrFrame → Word → FrameBuffer → FrameBuffer}
    (h : (vector, name, handler) ∈ g.exceptionHandlers fonts) :
    handler = g.exceptionHandler fonts name ∧ name.toList.length ≤ 4 ∧
      ∀ c ∈ charBytes name.toList, c ∈ printable := by
  simp only [Graphics.exceptionHandlers, List.mem_cons, Prod.mk.injEq, List.not_mem_nil, or_false] at h
  rcases h with ⟨-, rfl, rfl⟩ | ⟨-, rfl, rfl⟩ | ⟨-, rfl, rfl⟩ | ⟨-, rfl, rfl⟩ | ⟨-, rfl, rfl⟩ | ⟨-, rfl, rfl⟩ |
    ⟨-, rfl, rfl⟩ | ⟨-, rfl, rfl⟩ | ⟨-, rfl, rfl⟩ | ⟨-, rfl, rfl⟩ | ⟨-, rfl, rfl⟩ | ⟨-, rfl, rfl⟩ |
    ⟨-, rfl, rfl⟩ | ⟨-, rfl, rfl⟩ | ⟨-, rfl, rfl⟩ | ⟨-, rfl, rfl⟩ | ⟨-, rfl, rfl⟩ | ⟨-, rfl, rfl⟩
  all_goals exact ⟨rfl, by decide, printable_charBytes (by decide)⟩

theorem mem_frameLines {line : ℕ × String × Word} (h : line ∈ Graphics.frameLines frame errorCode) :
    line.1 + 16 ≤ 196 ∧ line.2.1.toList.length = 12 ∧ ∀ c ∈ charBytes line.2.1.toList, c ∈ printable := by
  simp only [Graphics.frameLines, List.mem_cons, List.not_mem_nil, or_false] at h
  rcases h with rfl | rfl | rfl | rfl | rfl | rfl
  all_goals
    dsimp only
    exact ⟨by decide, by decide, printable_charBytes (by decide)⟩

theorem screenLabels_fits (hname : name.toList.length ≤ 4) (htext : ∀ c ∈ charBytes name.toList, c ∈ printable)
    (hwide : 340 ≤ g.xAxis.toNat) (hhigh : 196 ≤ g.yAxis.toNat) :
    ∀ l ∈ screenLabels name frame errorCode, l.Fits g := by
  intro l hl
  rw [screenLabels, List.mem_cons, List.mem_flatMap] at hl
  rcases hl with rfl | ⟨line, hline, hl⟩
  · refine ⟨htext, ?_, ?_⟩
    · change 100 + 8 * (charBytes name.toList).length ≤ g.xAxis.toNat
      rw [length_charBytes]
      omega
    · change 84 + 16 ≤ g.yAxis.toNat
      omega
  · obtain ⟨hrow, hlen, hprint⟩ := mem_frameLines hline
    rw [List.mem_pair] at hl
    rcases hl with rfl | rfl
    · refine ⟨hprint, ?_, hrow.trans hhigh⟩
      change 100 + 8 * (charBytes line.2.1.toList).length ≤ g.xAxis.toNat
      rw [length_charBytes, hlen]
      omega
    · refine ⟨printable_numeral _, ?_, hrow.trans hhigh⟩
      change 196 + 8 * (charBytes (numeral 16 line.2.2.toNat)).length ≤ g.xAxis.toNat
      rw [length_numeral]
      omega

theorem screenLabels_apart (name : String) (frame : IntrFrame) (errorCode : Word) :
    (screenLabels name frame errorCode).Pairwise Label.Apart := by
  simp only [screenLabels, Graphics.frameLines, List.flatMap_cons, List.flatMap_nil, List.cons_append,
    List.nil_append, List.append_nil, List.pairwise_cons, List.mem_cons, List.not_mem_nil, or_false,
    forall_eq_or_imp, forall_eq, Label.Apart, Graphics.LinesApart, length_charBytes]
  simp

/-- On a large enough screen every exception handler leaves its name and the six values that it was
given, each to be read in its line. -/
theorem exceptionHandlers_show {vinfo : VideoInfo} {vector : ℕ}
    {handler : (ℕ → ℕ → Char) → IntrFrame → Word → FrameBuffer → FrameBuffer}
    (hpitch : vinfo.xAxis ≤ vinfo.ppsl) (hsize : vinfo.ppsl.toNat * vinfo.yAxis.toNat < 2 ^ 32) (hf : HasFonts fonts)
    (hwide : 340 ≤ (initGraphics vinfo).xAxis.toNat) (hhigh : 196 ≤ (initGraphics vinfo).yAxis.toNat)
    (h : (vector, name, handler) ∈ (initGraphics vinfo).exceptionHandlers fonts)
    (init : ℕ → ℕ → Char) (frame : IntrFrame) (errorCode : Word) (fb : FrameBuffer) :
    let g := initGraphics vinfo
    let fb' := handler init frame errorCode fb
    g.readLine fonts fb' 100 84 white name.toList.length = (charBytes name.toList).map some ∧
      ∀ line ∈ Graphics.frameLines frame errorCode,
        g.readLine fonts fb' 100 line.1 white 12 = (charBytes line.2.1.toList).map some ∧
          g.readNumber fonts fb' 196 line.1 white 18 = some line.2.2.toNat := by
  intro g fb'
  obtain ⟨rfl, hname, htext⟩ := mem_exceptionHandlers h
  have hne : white ≠ black := by decide
  have hshows : ∀ l ∈ screenLabels name frame errorCode, g.ShowsLine fonts fb' l.x l.y white black l.text := by
    change ∀ l ∈ screenLabels name frame errorCode, g.ShowsLine fonts
      (g.exceptionHandler fonts name init frame errorCode fb) l.x l.y white black l.text
    rw [exceptionHandler_eq]
    exact Label.shows_all (Graphics.sound_initGraphics hpitch hsize)
      (screenLabels_fits hname htext hwide hhigh) (screenLabels_apart name frame errorCode) fb
  constructor
  · have hline := (hshows _ List.mem_cons_self).readLine hf hne htext
    rwa [length_charBytes] at hline
  · intro line hline
    obtain ⟨-, hlen, hprint⟩ := mem_frameLines hline
    have hmem : ∀ l ∈ [(⟨100, line.1, charBytes line.2.1.toList⟩ : Label),
        ⟨196, line.1, charBytes (numeral 16 line.2.2.toNat)⟩], l ∈ screenLabels name frame errorCode :=
      fun l hl => List.mem_cons_of_mem _ (List.mem_flatMap.mpr ⟨line, hline, hl⟩)
    have hlabel := (hshows _ (hmem _ List.mem_cons_self)).readLine hf hne hprint
    rw [length_charBytes, hlen] at hlabel
    exact ⟨hlabel, readNumber_numeral hf hne (hshows _ (hmem _ (List.mem_cons_of_mem _ List.mem_cons_self)))⟩

theorem exceptionHandlers_show_pf : (initGraphics Graphics.landscape).readNumber Graphics.fontsArray
    ((initGraphics Graphics.landscape).pfHandler Graphics.fontsArray (fun _ _ => 'a')
      ⟨0x101234, 8, 2, 0x200000, 0x10⟩ 2 (fun _ => black)) 196 116 white 18 = some 0x101234 :=
  ((exceptionHandlers_show (by decide) (by decide) Graphics.fontsArray_hasFonts (by decide) (by decide)
    (show (14, "#PF", (initGraphics Graphics.landscape).pfHandler Graphics.fontsArray) ∈ _ by
      simp [Graphics.exceptionHandlers]) (fun _ _ => 'a') ⟨0x101234, 8, 2, 0x200000, 0x10⟩ 2 (fun _ => black)).2
      (116, "rip       : ", 0x101234) (by simp [Graphics.frameLines])).2

end Screens

end MinOS
