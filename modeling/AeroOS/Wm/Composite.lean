import AeroOS.Lib.Painting
import AeroOS.Wm.Compositor
import AeroOS.Wm.ZOrder

/-!
# What the compositor paints

`composite` fills the desktop and draws the windows from bottom to top, each as an outline, a
title bar, a logo and its content.

* `paints_fillRect`, `paints_compositeWindow` and `paints_compositeOver`: what each of them puts
  at a pixel, in the vocabulary of `Lib/Painting.lean`.
* `Window.layer` is what a window puts there, and `Window.Painted` where it puts something.
-/

namespace AeroOS.Wm

open Bytes Painting

/-! ## The primitives -/

/-- `saturating_add` of `i32`. -/
def saturatingAdd (a b : Int32) : Int32 := Int32.ofIntClamp (a.toInt + b.toInt)

/-- The range `a..b`. -/
def i32Range (a b : Int32) : List Int32 :=
  (List.range (b.toInt - a.toInt).toNat).map fun k : Nat => Int32.ofInt (a.toInt + k)

namespace Color

def TITLE_BAR : Color := ⟨0x1E, 0x29, 0x3B⟩
def TITLE_BAR_ACTIVE : Color := ⟨0x2D, 0x5A, 0x9E⟩
def DARK_BG : Color := ⟨0x0F, 0x17, 0x24⟩
def BORDER : Color := ⟨0x33, 0x44, 0x55⟩
def DESKTOP : Color := ⟨0x0B, 0x12, 0x2A⟩

/-- The bytes of a pixel. -/
def bytes (color : Color) : List UInt8 := [color.b, color.g, color.r, 0]

end Color

namespace Window

def borderColor (win : Window) : Color := if win.focused then .BORDER else ⟨0x22, 0x2A, 0x35⟩

def titleColor (win : Window) : Color := if win.focused then .TITLE_BAR_ACTIVE else .TITLE_BAR

def logoColor (win : Window) : Color :=
  if win.focused then ⟨0xFF, 0xBF, 0x00⟩ else ⟨0x80, 0x80, 0x80⟩

end Window

namespace Compositor

/-- Fill a rectangle with a solid color. -/
def fillRect (c : Compositor) (x y : Int32) (w h : UInt32) (color : Color) : Compositor :=
  let xEnd := saturatingAdd x w.toInt32
  let yEnd := saturatingAdd y h.toInt32
  (i32Range y yEnd).foldl
    (fun c py => (i32Range x xEnd).foldl (fun c px => c.putPixel px.toInt py.toInt color) c) c

/-- Draw a 1-pixel rectangle outline. -/
def drawRectOutline (c : Compositor) (x y : Int32) (w h : UInt32) (color : Color) :
    Compositor :=
  let c := c.fillRect x y w 1 color
  let c := c.fillRect x (y + h.toInt32 - 1) w 1 color
  let c := c.fillRect x y 1 h color
  c.fillRect (x + w.toInt32 - 1) y 1 h color

/-- The logo in the title bar. -/
def drawTitleText (c : Compositor) (win : Window) : Compositor :=
  c.fillRect (win.x + 4) (win.y + 6) 12 12 win.logoColor

/-- The first column of the content of a window. -/
def contentX (win : Window) : Int32 := win.x + BORDER_WIDTH.toInt32

/-- The first row of the content of a window. -/
def contentY (win : Window) : Int32 := win.y + TITLE_BAR_HEIGHT.toInt32

/-- Where the pixel of the content in a row and column is in its buffer. -/
def srcOff (win : Window) (row col : Int32) : Nat :=
  (row.toInt.toNat * win.width.toNat + col.toInt.toNat) * BPP

/-- Copy the pixel of the content in a row and column to the screen pixel `(px, py)`. -/
def blitPixel (mem : Store) (win : Window) (row col px py : Int32) (c : Compositor) :
    Compositor :=
  let fbW := (UInt32.ofNat c.fbInfo.width).toInt32
  let off := srcOff win row col
  let dstOff := (py.toInt.toNat * fbW.toInt.toNat + px.toInt.toNat) * BPP
  if dstOff + BPP ≤ OFFSCREEN_LEN ∧ off + BPP ≤ win.contentLen then
    { c with offscreen := writeBytes c.offscreen dstOff (readBytes mem (win.contentBuf + off) BPP) }
  else c

/-- The columns of a row of the content, on the screen row `py`. -/
def blitCols (mem : Store) (win : Window) (row py : Int32) : List Int32 → Compositor → Compositor
  | [], c => c
  | col :: cols, c =>
    let px := contentX win + col
    if px < 0 ∨ (UInt32.ofNat c.fbInfo.width).toInt32 ≤ px then blitCols mem win row py cols c
    else if win.contentLen < srcOff win row col + BPP then c
    else blitCols mem win row py cols (c.blitPixel mem win row col px py)

/-- One row of the content. -/
def blitRow (mem : Store) (win : Window) (c : Compositor) (row : Int32) : Compositor :=
  let fbH := (UInt32.ofNat c.fbInfo.height).toInt32
  let py := contentY win + row
  if py < 0 ∨ fbH ≤ py then c
  else blitCols mem win row py (i32Range 0 win.width.toInt32) c

/-- Composite a single window: border, title bar, logo and content.  The content buffers are in
`mem`. -/
def compositeWindow (mem : Store) (c : Compositor) (win : Window) : Compositor :=
  if !win.visible then c
  else
    -- 1. the border
    let c := c.drawRectOutline win.x win.y win.fullWidth win.fullHeight win.borderColor
    -- 2. the title bar
    let c := c.fillRect (win.x + 1) (win.y + 1) (win.fullWidth - 2) TITLE_BAR_HEIGHT win.titleColor
    -- 3. the title text
    let c := c.drawTitleText win
    -- 4. the content
    if win.contentBuf = 0 ∨ win.contentLen = 0 then
      c.fillRect (contentX win) (contentY win) win.width win.height .DARK_BG
    else (i32Range 0 win.height.toInt32).foldl (blitRow mem win) c

/-- Composite the windows over a desktop color. -/
def compositeOver (mem : Store) (desktop : Color) (c : Compositor) (windows : WindowList) :
    Compositor :=
  let c := c.fillRect 0 0 (UInt32.ofNat c.fbInfo.width) (UInt32.ofNat c.fbInfo.height) desktop
  windows.zOrdered.foldl (compositeWindow mem) c

/-- Composite the entire screen. -/
def composite (mem : Store) (c : Compositor) (windows : WindowList) : Compositor :=
  c.compositeOver mem .DESKTOP windows

end Compositor

/-! ## Ranges -/

theorem mem_i32Range {a b v : Int32} : v ∈ i32Range a b ↔ a ≤ v ∧ v < b := by
  rw [i32Range, List.mem_map, Int32.le_iff_toInt_le, Int32.lt_iff_toInt_lt]
  constructor
  · rintro ⟨k, hk, rfl⟩
    rw [List.mem_range] at hk
    have hb := b.toInt_lt
    have ha := a.le_toInt
    rw [Int32.toInt_ofInt_of_le (by omega) (by omega)]
    omega
  · rintro ⟨hav, hvb⟩
    refine ⟨(v.toInt - a.toInt).toNat, ?_, ?_⟩
    · rw [List.mem_range]
      omega
    · rw [Int.toNat_of_nonneg (by omega), show a.toInt + (v.toInt - a.toInt) = v.toInt by omega,
        Int32.ofInt_toInt]

/-- A range goes up. -/
theorem i32Range_pairwise (a b : Int32) : (i32Range a b).Pairwise (· < ·) := by
  rw [i32Range, List.pairwise_map]
  refine List.pairwise_lt_range.imp_of_mem ?_
  intro j k hj hk hjk
  rw [List.mem_range] at hj hk
  have hb := b.toInt_lt
  have ha := a.le_toInt
  rw [Int32.lt_iff_toInt_lt, Int32.toInt_ofInt_of_le (by omega) (by omega),
    Int32.toInt_ofInt_of_le (by omega) (by omega)]
  omega

/-! ## A pixel -/

/-- A pixel of the screen that the off-screen buffer stores. -/
structure OnScreen (info : FramebufferInfo) (px py : Int32) : Prop where
  width_lt : info.width < 2 ^ 32
  left : 0 ≤ px
  right : px < (UInt32.ofNat info.width).toInt32
  top : 0 ≤ py
  bottom : py < (UInt32.ofNat info.height).toInt32
  stored : (py.toInt.toNat * info.width + px.toInt.toNat) * BPP + BPP ≤ OFFSCREEN_LEN

/-- The four bytes of a pixel. -/
def seen (px py : Int32) (c : Compositor) : List UInt8 :=
  readBytes c.offscreen (c.pixelOffset px.toInt.toNat py.toInt.toNat) BPP

/-- A size of the screen, where it is positive as an `i32`. -/
theorem toInt_ofNat_of_lt {n : Nat} {v : Int32} (h0 : 0 ≤ v) (hv : v < (UInt32.ofNat n).toInt32)
    (hn : n < 2 ^ 32) : (UInt32.ofNat n).toInt32.toInt = n := by
  rw [Int32.le_iff_toInt_le] at h0
  rw [Int32.lt_iff_toInt_lt] at hv
  have hzero : (0 : Int32).toInt = 0 := rfl
  have hsize : Int32.size = 2 ^ 32 := rfl
  rw [UInt32.toInt32_ofNat', Int32.toInt_ofNat', hsize, Int.bmod_def] at hv ⊢
  omega

section

variable {info : FramebufferInfo} {px py : Int32} (hscreen : OnScreen info px py)
include hscreen

theorem OnScreen.toInt_nonneg : 0 ≤ px.toInt ∧ 0 ≤ py.toInt :=
  ⟨Int32.le_iff_toInt_le.1 hscreen.left, Int32.le_iff_toInt_le.1 hscreen.top⟩

theorem OnScreen.toInt_width : (UInt32.ofNat info.width).toInt32.toInt = info.width :=
  toInt_ofNat_of_lt hscreen.left hscreen.right hscreen.width_lt

theorem OnScreen.toInt_lt : px.toInt < info.width ∧ py.toInt < info.height := by
  have hright := Int32.lt_iff_toInt_lt.1 hscreen.right
  have hbottom := Int32.lt_iff_toInt_lt.1 hscreen.bottom
  rw [hscreen.toInt_width] at hright
  refine ⟨hright, ?_⟩
  have hsize : Int32.size = 2 ^ 32 := rfl
  rw [UInt32.toInt32_ofNat', Int32.toInt_ofNat', hsize, Int.bmod_def] at hbottom
  omega

end

/-- Two pixels of a picture of width `w` do not share a byte. -/
theorem pixel_disjoint {w x y x' y' : Nat} (hx : x < w) (hx' : x' < w)
    (hne : ¬ (x = x' ∧ y = y')) :
    (y * w + x) * BPP + BPP ≤ (y' * w + x') * BPP ∨
      (y' * w + x') * BPP + BPP ≤ (y * w + x) * BPP := by
  have hbefore : ∀ {a b}, a < b → a * w + w ≤ b * w := by
    intro a b hab
    have hle := Nat.mul_le_mul_right w (Nat.succ_le_of_lt hab)
    rwa [Nat.succ_mul] at hle
  unfold BPP
  rcases Nat.lt_trichotomy y y' with hlt | heq | hgt
  · have hrow := hbefore hlt
    omega
  · subst heq
    omega
  · have hrow := hbefore hgt
    omega

section paints

variable {info : FramebufferInfo} {px py : Int32} (hscreen : OnScreen info px py)
include hscreen

/-- A store of four bytes at a pixel. -/
theorem seen_writeBytes {c : Compositor} (hc : c.fbInfo = info) {x y : Nat} (hx : x < info.width)
    {bs : List UInt8} (hbs : bs.length = BPP) :
    seen px py { c with offscreen := writeBytes c.offscreen ((y * info.width + x) * BPP) bs } =
      if x = px.toInt.toNat ∧ y = py.toInt.toNat then bs else seen px py c := by
  have hpos := hscreen.toInt_nonneg
  have hlt := hscreen.toInt_lt
  unfold seen Compositor.pixelOffset
  simp only [hc]
  split
  · rename_i heq
    rw [heq.1, heq.2, ← hbs, readBytes_writeBytes]
  · rename_i hne
    apply readBytes_writeBytes_disjoint
    rw [hbs]
    exact (pixel_disjoint hx (by omega) hne).symm

theorem paints_putPixel (x y : Int32) (color : Color) :
    Paints (fun c : Compositor => c.fbInfo = info) (seen px py)
      (fun c => c.putPixel x.toInt y.toInt color)
      (if x = px ∧ y = py then some color.bytes else none) := by
  intro c hc
  subst hc
  have hpos := hscreen.toInt_nonneg
  have hlt := hscreen.toInt_lt
  have hstored := hscreen.stored
  refine ⟨c.putPixel_fbInfo _ _ _, ?_⟩
  show seen px py (c.putPixel x.toInt y.toInt color) = _
  rw [Compositor.putPixel]
  by_cases hneg : x.toInt < 0 ∨ y.toInt < 0
  · rw [if_pos hneg, if_neg]
    · rfl
    · rintro ⟨rfl, rfl⟩
      omega
  · rw [if_neg hneg]
    by_cases hout : c.fbInfo.width ≤ x.toInt ∨ c.fbInfo.height ≤ y.toInt
    · rw [if_pos hout, if_neg]
      · rfl
      · rintro ⟨rfl, rfl⟩
        omega
    · rw [if_neg hout]
      have hoff : c.pixelOffset x.toInt.toNat y.toInt.toNat =
          (y.toInt.toNat * c.fbInfo.width + x.toInt.toNat) * BPP := rfl
      simp only
      by_cases hend : OFFSCREEN_LEN < c.pixelOffset x.toInt.toNat y.toInt.toNat + BPP
      · rw [if_pos hend, if_neg]
        · rfl
        · rintro ⟨rfl, rfl⟩
          rw [hoff] at hend
          omega
      · rw [if_neg hend]
        have hsame : (x.toInt.toNat = px.toInt.toNat ∧ y.toInt.toNat = py.toInt.toNat) ↔
            (x = px ∧ y = py) := by
          rw [← Int32.toInt_inj, ← Int32.toInt_inj]
          omega
        rw [hoff, ← Color.bytes, seen_writeBytes hscreen rfl (by omega) rfl]
        simp only [hsame]
        split
        · rfl
        · rfl

/-! ## Rectangles -/

/-- The pixel is in a rectangle as `fill_rect` takes it. -/
def InRect (x y : Int32) (w h : UInt32) (px py : Int32) : Prop :=
  (x ≤ px ∧ px < saturatingAdd x w.toInt32) ∧ (y ≤ py ∧ py < saturatingAdd y h.toInt32)

instance (x y : Int32) (w h : UInt32) (px py : Int32) : Decidable (InRect x y w h px py) :=
  inferInstanceAs (Decidable (_ ∧ _))

theorem paints_fillRect (x y : Int32) (w h : UInt32) (color : Color) :
    Paints (fun c : Compositor => c.fbInfo = info) (seen px py)
      (fun c => c.fillRect x y w h color)
      (if InRect x y w h px py then some color.bytes else none) := by
  set cols := i32Range x (saturatingAdd x w.toInt32) with hcols
  have hrow : ∀ y' : Int32, Paints (fun c : Compositor => c.fbInfo = info) (seen px py)
      (fun c => cols.foldl (fun c px => c.putPixel px.toInt y'.toInt color) c)
      (if y' = py then (if px ∈ cols then some color.bytes else none) else none) := by
    intro y'
    have hloop : Paints (fun c : Compositor => c.fbInfo = info) (seen px py)
        (fun c => cols.foldl (fun c px => c.putPixel px.toInt y'.toInt color) c)
        (if px ∈ cols then (if y' = py then some color.bytes else none) else none) := by
      apply Paints.foldl_at
      intro x' _
      have hpixel := paints_putPixel hscreen x' y' color
      rwa [ite_and] at hpixel
    by_cases hy : y' = py
    · simpa only [if_pos hy] using hloop
    · simpa only [if_neg hy, ite_self] using hloop
  have hrect : Paints (fun c : Compositor => c.fbInfo = info) (seen px py)
      (fun c => c.fillRect x y w h color)
      (if py ∈ i32Range y (saturatingAdd y h.toInt32) then
        (if px ∈ cols then some color.bytes else none) else none) := by
    apply Paints.foldl_at
    intro y' _
    exact hrow y'
  simp only [hcols, mem_i32Range] at hrect
  by_cases hy : y ≤ py ∧ py < saturatingAdd y h.toInt32
  · simpa only [InRect, hy, and_true, if_true] using hrect
  · simpa only [InRect, hy, and_false, if_false] using hrect

/-- The pixel is on the outline of a window. -/
def Window.OutlineAt (win : Window) (px py : Int32) : Prop :=
  InRect win.x win.y win.fullWidth 1 px py ∨
    InRect win.x (win.y + win.fullHeight.toInt32 - 1) win.fullWidth 1 px py ∨
    InRect win.x win.y 1 win.fullHeight px py ∨
    InRect (win.x + win.fullWidth.toInt32 - 1) win.y 1 win.fullHeight px py

instance (win : Window) (px py : Int32) : Decidable (win.OutlineAt px py) :=
  inferInstanceAs (Decidable (_ ∨ _))

omit hscreen in
/-- Two layers of one color. -/
theorem or_ite {ν : Type} {p q : Prop} [Decidable p] [Decidable q] (v : ν) :
    (if q then some v else none).or (if p then some v else none) =
      if p ∨ q then some v else none := by
  by_cases hp : p
  · by_cases hq : q
    · rw [if_pos hq, if_pos (Or.inl hp)]
      rfl
    · rw [if_neg hq, if_pos hp, if_pos (Or.inl hp)]
      rfl
  · by_cases hq : q
    · rw [if_pos hq, if_pos (Or.inr hq)]
      rfl
    · rw [if_neg hq, if_neg hp, if_neg (not_or.2 ⟨hp, hq⟩)]
      rfl

theorem paints_drawRectOutline (win : Window) (color : Color) :
    Paints (fun c : Compositor => c.fbInfo = info) (seen px py)
      (fun c => c.drawRectOutline win.x win.y win.fullWidth win.fullHeight color)
      (if win.OutlineAt px py then some color.bytes else none) := by
  have htop := paints_fillRect hscreen win.x win.y win.fullWidth 1 color
  have hbottom := paints_fillRect hscreen win.x (win.y + win.fullHeight.toInt32 - 1)
    win.fullWidth 1 color
  have hleft := paints_fillRect hscreen win.x win.y 1 win.fullHeight color
  have hright := paints_fillRect hscreen (win.x + win.fullWidth.toInt32 - 1) win.y 1
    win.fullHeight color
  have hall := ((htop.comp hbottom).comp hleft).comp hright
  rw [or_ite, or_ite, or_ite] at hall
  simp only [or_assoc] at hall
  exact hall

/-! ## The content -/

omit hscreen in
theorem srcOff_le {win : Window} {row col col' : Int32} (h : col ≤ col') :
    Compositor.srcOff win row col ≤ Compositor.srcOff win row col' := by
  rw [Int32.le_iff_toInt_le] at h
  apply Nat.mul_le_mul_right
  omega

/-- The pixel of the content in a row and column, if the buffer has it. -/
def Window.contentPixel (mem : Store) (win : Window) (row col : Int32) : Option (List UInt8) :=
  if Compositor.srcOff win row col + BPP ≤ win.contentLen then
    some (readBytes mem (win.contentBuf + Compositor.srcOff win row col) BPP)
  else none

omit hscreen in
/-- Where the buffer has ended it has none of the later columns. -/
theorem contentPixel_eq_none {win : Window} {row col col' : Int32}
    (hend : win.contentLen < Compositor.srcOff win row col + BPP) (hle : col ≤ col')
    (mem : Store) : win.contentPixel mem row col' = none := by
  have hoff : Compositor.srcOff win row col ≤ Compositor.srcOff win row col' := srcOff_le hle
  rw [Window.contentPixel, if_neg (by omega)]

omit hscreen in
/-- A column or row of the content on the screen, and the other way round. -/
theorem add_eq_iff_eq_sub {a b c : Int32} : a + b = c ↔ b = c - a := by
  constructor
  · intro h
    rw [← h]
    grind
  · intro h
    rw [h]
    grind

theorem paints_blitPixel (mem : Store) (win : Window) (row col : Int32) {x y : Int32}
    (hy : 0 ≤ y) (hx : 0 ≤ x) (hxw : x < (UInt32.ofNat info.width).toInt32) :
    Paints (fun c : Compositor => c.fbInfo = info) (seen px py)
      (Compositor.blitPixel mem win row col x y)
      (if x = px ∧ y = py then win.contentPixel mem row col else none) := by
  intro c hc
  have hpos := hscreen.toInt_nonneg
  have hstored := hscreen.stored
  have hzero : (0 : Int32).toInt = 0 := rfl
  rw [Int32.le_iff_toInt_le] at hx hy
  rw [Int32.lt_iff_toInt_lt, hscreen.toInt_width] at hxw
  have hw : (UInt32.ofNat c.fbInfo.width).toInt32.toInt.toNat = info.width := by
    rw [hc, hscreen.toInt_width]
    exact Int.toNat_natCast _
  have hsame : (x.toInt.toNat = px.toInt.toNat ∧ y.toInt.toNat = py.toInt.toNat) ↔
      (x = px ∧ y = py) := by
    rw [← Int32.toInt_inj, ← Int32.toInt_inj]
    omega
  simp only [Compositor.blitPixel, hw]
  by_cases hcopy : (y.toInt.toNat * info.width + x.toInt.toNat) * BPP + BPP ≤ OFFSCREEN_LEN ∧
      Compositor.srcOff win row col + BPP ≤ win.contentLen
  · rw [if_pos hcopy, Window.contentPixel, if_pos hcopy.2]
    refine ⟨hc, ?_⟩
    rw [seen_writeBytes hscreen hc (by omega) (readBytes_length _ _ _)]
    simp only [hsame]
    split
    · rfl
    · rfl
  · rw [if_neg hcopy]
    refine ⟨hc, ?_⟩
    split
    · rename_i heq
      obtain ⟨rfl, rfl⟩ := heq
      rw [Window.contentPixel, if_neg (fun hend => hcopy ⟨hstored, hend⟩)]
      rfl
    · rfl

/-- A row of the content: the columns go up, so the loop may stop where the buffer ends. -/
theorem paints_blitCols (mem : Store) (win : Window) (row : Int32) {py' : Int32}
    (hpy' : 0 ≤ py') {cols : List Int32} (hcols : cols.Pairwise (· < ·)) :
    Paints (fun c : Compositor => c.fbInfo = info) (seen px py)
      (Compositor.blitCols mem win row py' cols)
      (if px - Compositor.contentX win ∈ cols ∧ py' = py then
        win.contentPixel mem row (px - Compositor.contentX win) else none) := by
  induction cols with
  | nil =>
    rw [if_neg (fun h => List.not_mem_nil h.1)]
    exact Paints.id
  | cons col cols ih =>
    obtain ⟨hfirst, hrest⟩ := List.pairwise_cons.1 hcols
    have htail := ih hrest
    by_cases hout : Compositor.contentX win + col < 0 ∨
        (UInt32.ofNat info.width).toInt32 ≤ Compositor.contentX win + col
    · have hne : col ≠ px - Compositor.contentX win := by
        rintro rfl
        rw [add_eq_iff_eq_sub.2 rfl] at hout
        rcases hout with hneg | hright
        · exact Int32.not_lt.2 hscreen.left hneg
        · exact Int32.not_le.2 hscreen.right hright
      have hmem : px - Compositor.contentX win ∈ col :: cols ↔
          px - Compositor.contentX win ∈ cols := by
        rw [List.mem_cons]
        exact or_iff_right fun h => hne h.symm
      simp only [hmem]
      refine htail.congr ?_
      intro c hc
      rw [Compositor.blitCols]
      simp only [hc]
      rw [if_pos hout]
    · by_cases hend : win.contentLen < Compositor.srcOff win row col + BPP
      · -- the end of the buffer: later columns are behind it too
        have hnone : (if px - Compositor.contentX win ∈ col :: cols ∧ py' = py then
            win.contentPixel mem row (px - Compositor.contentX win) else none) = none := by
          split
          · rename_i h
            refine contentPixel_eq_none hend ?_ mem
            rcases List.mem_cons.1 h.1 with heq | hmem
            · rw [heq]
              exact Int32.le_refl _
            · exact Int32.le_of_lt (hfirst _ hmem)
          · rfl
        rw [hnone]
        refine Paints.id.congr ?_
        intro c hc
        rw [Compositor.blitCols]
        simp only [hc]
        rw [if_neg hout, if_pos hend]
      · have hx : Compositor.contentX win + col = px ↔ col = px - Compositor.contentX win :=
          add_eq_iff_eq_sub
        rw [not_or, Int32.not_lt, Int32.not_le] at hout
        have hboth := (paints_blitPixel hscreen mem win row col hpy' hout.1 hout.2).comp htail
        have hval : (if px - Compositor.contentX win ∈ cols ∧ py' = py then
              win.contentPixel mem row (px - Compositor.contentX win) else none).or
            (if Compositor.contentX win + col = px ∧ py' = py then
              win.contentPixel mem row col else none) =
            if px - Compositor.contentX win ∈ col :: cols ∧ py' = py then
              win.contentPixel mem row (px - Compositor.contentX win) else none := by
          simp only [hx, List.mem_cons]
          by_cases hcol : col = px - Compositor.contentX win
          · simp only [← hcol, true_or, true_and]
            by_cases hy : py' = py
            · rw [if_pos hy]
              split
              · exact Option.or_self
              · rfl
            · rw [if_neg hy, if_neg (fun h => hy h.2)]
              rfl
          · simp only [hcol, Ne.symm hcol, false_or, false_and, if_false, Option.or_none]
        rw [hval] at hboth
        refine hboth.congr ?_
        intro c hc
        rw [Compositor.blitCols]
        simp only [hc]
        rw [if_neg (by rw [not_or, Int32.not_lt, Int32.not_le]; exact hout), if_neg hend]

/-- What the content of a window puts at the pixel. -/
def Window.contentLayer (mem : Store) (win : Window) (px py : Int32) : Option (List UInt8) :=
  let row := py - Compositor.contentY win
  let col := px - Compositor.contentX win
  if win.contentBuf = 0 ∨ win.contentLen = 0 then
    if InRect (Compositor.contentX win) (Compositor.contentY win) win.width win.height px py then
      some Color.DARK_BG.bytes
    else none
  else if (0 ≤ row ∧ row < win.height.toInt32) ∧ 0 ≤ col ∧ col < win.width.toInt32 then
    win.contentPixel mem row col
  else none

/-- A row of the content puts something on its own row of the screen. -/
theorem paints_blitRow (mem : Store) (win : Window) (row : Int32) :
    Paints (fun c : Compositor => c.fbInfo = info) (seen px py)
      (fun c => Compositor.blitRow mem win c row)
      (if row = py - Compositor.contentY win then
        if px - Compositor.contentX win ∈ i32Range 0 win.width.toInt32 then
          win.contentPixel mem (py - Compositor.contentY win) (px - Compositor.contentX win)
        else none
      else none) := by
  have hy : row = py - Compositor.contentY win ↔ Compositor.contentY win + row = py :=
    add_eq_iff_eq_sub.symm
  by_cases hout : Compositor.contentY win + row < 0 ∨
      (UInt32.ofNat info.height).toInt32 ≤ Compositor.contentY win + row
  · rw [if_neg]
    · refine Paints.id.congr ?_
      intro c hc
      rw [Compositor.blitRow]
      simp only [hc]
      rw [if_pos hout]
    · intro heq
      rw [hy.1 heq] at hout
      rcases hout with hneg | hbottom
      · exact Int32.not_lt.2 hscreen.top hneg
      · exact Int32.not_le.2 hscreen.bottom hbottom
  · have hpos : 0 ≤ Compositor.contentY win + row := by
      rw [not_or, Int32.not_lt] at hout
      exact hout.1
    have hcols := paints_blitCols hscreen mem win row hpos
      (i32Range_pairwise 0 win.width.toInt32)
    have hval : (if px - Compositor.contentX win ∈ i32Range 0 win.width.toInt32 ∧
          Compositor.contentY win + row = py then
          win.contentPixel mem row (px - Compositor.contentX win) else none) =
        if row = py - Compositor.contentY win then
          if px - Compositor.contentX win ∈ i32Range 0 win.width.toInt32 then
            win.contentPixel mem (py - Compositor.contentY win) (px - Compositor.contentX win)
          else none
        else none := by
      by_cases hrow : row = py - Compositor.contentY win
      · rw [if_pos hrow, ← hrow]
        simp only [hy.1 hrow, and_true]
      · rw [if_neg hrow, if_neg (fun h => hrow (hy.2 h.2))]
    rw [hval] at hcols
    refine hcols.congr ?_
    intro c hc
    rw [Compositor.blitRow]
    simp only [hc]
    rw [if_neg hout]

/-- The content of a window. -/
theorem paints_content (mem : Store) (win : Window) :
    Paints (fun c : Compositor => c.fbInfo = info) (seen px py)
      (fun c =>
        if win.contentBuf = 0 ∨ win.contentLen = 0 then
          c.fillRect (Compositor.contentX win) (Compositor.contentY win) win.width win.height
            .DARK_BG
        else (i32Range 0 win.height.toInt32).foldl (Compositor.blitRow mem win) c)
      (win.contentLayer mem px py) := by
  simp only [Window.contentLayer]
  by_cases hnone : win.contentBuf = 0 ∨ win.contentLen = 0
  · simp only [if_pos hnone]
    exact paints_fillRect hscreen _ _ _ _ _
  · simp only [if_neg hnone]
    have hrows : Paints (fun c : Compositor => c.fbInfo = info) (seen px py)
        (fun c => (i32Range 0 win.height.toInt32).foldl (Compositor.blitRow mem win) c)
        (if py - Compositor.contentY win ∈ i32Range 0 win.height.toInt32 then
          if px - Compositor.contentX win ∈ i32Range 0 win.width.toInt32 then
            win.contentPixel mem (py - Compositor.contentY win) (px - Compositor.contentX win)
          else none
        else none) := by
      apply Paints.foldl_at
      intro row _
      exact paints_blitRow hscreen mem win row
    simp only [mem_i32Range] at hrows
    simp only [ite_and] at hrows ⊢
    exact hrows

/-! ## Windows -/

/-- What a window puts at the pixel: the content over the logo, the title bar and the
outline. -/
def Window.layer (mem : Store) (px py : Int32) (win : Window) : Option (List UInt8) :=
  if win.visible then
    (win.contentLayer mem px py).or
      ((if InRect (win.x + 4) (win.y + 6) 12 12 px py then some win.logoColor.bytes
          else none).or
        ((if InRect (win.x + 1) (win.y + 1) (win.fullWidth - 2) TITLE_BAR_HEIGHT px py then
            some win.titleColor.bytes else none).or
          (if win.OutlineAt px py then some win.borderColor.bytes else none)))
  else none

theorem paints_compositeWindow (mem : Store) (win : Window) :
    Paints (fun c : Compositor => c.fbInfo = info) (seen px py)
      (fun c => c.compositeWindow mem win) (win.layer mem px py) := by
  cases hvisible : win.visible with
  | false =>
    simp only [Compositor.compositeWindow, Window.layer, hvisible]
    exact Paints.id
  | true =>
    have houtline := paints_drawRectOutline hscreen win win.borderColor
    have htitle := paints_fillRect hscreen (win.x + 1) (win.y + 1) (win.fullWidth - 2)
      TITLE_BAR_HEIGHT win.titleColor
    have hlogo := paints_fillRect hscreen (win.x + 4) (win.y + 6) 12 12 win.logoColor
    have hall := ((houtline.comp htitle).comp hlogo).comp (paints_content hscreen mem win)
    simp only [Compositor.compositeWindow, Window.layer, hvisible]
    exact hall

/-- The desktop, and the windows over it. -/
theorem paints_compositeOver (mem : Store) (desktop : Color) (windows : WindowList)
    {c : Compositor} (hc : c.fbInfo = info) :
    seen px py (c.compositeOver mem desktop windows) =
      (shade (Window.layer mem px py) windows.zOrdered).getD desktop.bytes := by
  have hfill := (paints_fillRect hscreen 0 0 (UInt32.ofNat info.width) (UInt32.ofNat info.height)
    desktop) c hc
  have hin : InRect 0 0 (UInt32.ofNat info.width) (UInt32.ofNat info.height) px py := by
    have hzero : ∀ v : Int32, saturatingAdd 0 v = v := by
      intro v
      rw [saturatingAdd, show (0 : Int32).toInt = 0 from rfl, Int.zero_add,
        Int32.ofIntClamp_toInt]
    unfold InRect
    rw [hzero, hzero]
    exact ⟨⟨hscreen.left, hscreen.right⟩, hscreen.top, hscreen.bottom⟩
  have hlayers : Paints (fun c : Compositor => c.fbInfo = info) (seen px py)
      (fun c => windows.zOrdered.foldl (Compositor.compositeWindow mem) c)
      (shade (Window.layer mem px py) windows.zOrdered) :=
    Paints.layers fun win _ => paints_compositeWindow hscreen mem win
  rw [if_pos hin] at hfill
  have hseen := (hlayers _ hfill.1).2
  rw [hfill.2] at hseen
  rw [Compositor.compositeOver, hc]
  exact hseen

end paints

end AeroOS.Wm
