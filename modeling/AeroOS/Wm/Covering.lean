import Mathlib.Data.List.Sort
import AeroOS.Wm.Composite

/-!
# What a window covers

A window should hide what is beneath it in its full bounds.  Its outline is one pixel wide, the
borders are two, and three rows below the content are in the bounds too.

* `Window.Painted`: where a window paints, and `painted_iff` which pixels of its bounds that
  leaves out.
* `covers_iff`: the pixel does not depend on what is below if and only if the topmost window at
  it, or one above, paints it.
-/

namespace AeroOS.Wm

open Bytes Painting

/-! ## Where a window paints -/

namespace Window

/-- The window has content for the pixel. -/
def ContentAt (win : Window) (px py : Int32) : Prop :=
  let row := py - Compositor.contentY win
  let col := px - Compositor.contentX win
  if win.contentBuf = 0 ∨ win.contentLen = 0 then
    InRect (Compositor.contentX win) (Compositor.contentY win) win.width win.height px py
  else
    ((0 ≤ row ∧ row < win.height.toInt32) ∧ 0 ≤ col ∧ col < win.width.toInt32) ∧
      Compositor.srcOff win row col + BPP ≤ win.contentLen

instance (win : Window) (px py : Int32) : Decidable (win.ContentAt px py) := by
  unfold ContentAt
  infer_instance

/-- The window paints the pixel: its outline, its title bar, its logo or its content. -/
def Painted (win : Window) (px py : Int32) : Prop :=
  win.visible = true ∧
    (win.OutlineAt px py ∨
      InRect (win.x + 1) (win.y + 1) (win.fullWidth - 2) TITLE_BAR_HEIGHT px py ∨
      InRect (win.x + 4) (win.y + 6) 12 12 px py ∨ win.ContentAt px py)

instance (win : Window) (px py : Int32) : Decidable (win.Painted px py) :=
  inferInstanceAs (Decidable (_ ∧ _))

variable {win : Window} {mem mem' : Store} {px py : Int32}

theorem ite_some_ne_none {ν : Type} {p : Prop} [Decidable p] {v : ν} :
    (if p then some v else none) ≠ none ↔ p := by
  by_cases hp : p
  · simp [hp]
  · simp [hp]

theorem contentLayer_ne_none : win.contentLayer mem px py ≠ none ↔ win.ContentAt px py := by
  simp only [contentLayer, ContentAt, contentPixel]
  by_cases hnone : win.contentBuf = 0 ∨ win.contentLen = 0
  · rw [if_pos hnone, if_pos hnone, ite_some_ne_none]
  · rw [if_neg hnone, if_neg hnone, ← ite_and, ite_some_ne_none]

/-- A window puts something at the pixels that it paints. -/
theorem layer_ne_none : win.layer mem px py ≠ none ↔ win.Painted px py := by
  unfold layer Painted
  cases win.visible with
  | false => simp
  | true =>
    rw [if_pos rfl]
    simp only [Ne, Option.or_eq_none_iff, not_and_or]
    rw [← Ne, ← Ne, ← Ne, ← Ne, contentLayer_ne_none, ite_some_ne_none, ite_some_ne_none,
      ite_some_ne_none]
    tauto

/-- The content of the window is the same in both memories. -/
def SameContent (mem mem' : Store) (win : Window) : Prop :=
  ∀ k < win.contentLen, mem (win.contentBuf + k) = mem' (win.contentBuf + k)

theorem layer_congr (h : SameContent mem mem' win) :
    win.layer mem px py = win.layer mem' px py := by
  have hpixel : ∀ row col, win.contentPixel mem row col = win.contentPixel mem' row col := by
    intro row col
    unfold contentPixel
    by_cases hend : Compositor.srcOff win row col + BPP ≤ win.contentLen
    · rw [if_pos hend, if_pos hend]
      congr 1
      apply readBytes_congr
      intro a hle hlt
      have hk := h (a - win.contentBuf) (by omega)
      rwa [show win.contentBuf + (a - win.contentBuf) = a by omega] at hk
    · rw [if_neg hend, if_neg hend]
  unfold layer contentLayer
  simp only [hpixel]

end Window

/-! ## Windows without overflow -/

/-- The far corner of the window is in `i32`, and the logo is inside the outline. -/
structure Window.Fits (win : Window) : Prop where
  logo : 13 ≤ win.width.toNat
  width : win.width.toNat + 4 < 2 ^ 31
  height : win.height.toNat + 28 < 2 ^ 31
  right : win.x.toInt + win.width.toNat + 4 < 2 ^ 31
  bottom : win.y.toInt + win.height.toNat + 28 < 2 ^ 31

theorem toInt_toInt32 {u : UInt32} (h : u.toNat < 2 ^ 31) : u.toInt32.toInt = u.toNat := by
  have hsize : Int32.size = 2 ^ 32 := rfl
  rw [← UInt32.ofNat_toNat (x := u), UInt32.toInt32_ofNat', Int32.toInt_ofNat', hsize,
    Int.bmod_def, UInt32.ofNat_toNat]
  omega

theorem toInt_add {a b : Int32} (h : -2 ^ 31 ≤ a.toInt + b.toInt)
    (h' : a.toInt + b.toInt < 2 ^ 31) : (a + b).toInt = a.toInt + b.toInt := by
  rw [Int32.toInt_add, Int.bmod_def]
  omega

theorem toInt_sub {a b : Int32} (h : -2 ^ 31 ≤ a.toInt - b.toInt)
    (h' : a.toInt - b.toInt < 2 ^ 31) : (a - b).toInt = a.toInt - b.toInt := by
  rw [Int32.toInt_sub, Int.bmod_def]
  omega

theorem inRect_iff {x y : Int32} {w h : UInt32} {px py : Int32} (hw : w.toNat < 2 ^ 31)
    (hh : h.toNat < 2 ^ 31) (hx : x.toInt + w.toNat < 2 ^ 31) (hy : y.toInt + h.toNat < 2 ^ 31) :
    InRect x y w h px py ↔
      (x.toInt ≤ px.toInt ∧ px.toInt < x.toInt + w.toNat) ∧
        y.toInt ≤ py.toInt ∧ py.toInt < y.toInt + h.toNat := by
  have hmin : Int32.minValue.toInt = -2 ^ 31 := rfl
  have hmax : Int32.maxValue.toInt = 2 ^ 31 - 1 := rfl
  have hx0 := x.le_toInt
  have hy0 := y.le_toInt
  unfold InRect saturatingAdd
  rw [Int32.le_iff_toInt_le, Int32.le_iff_toInt_le, Int32.lt_iff_toInt_lt, Int32.lt_iff_toInt_lt,
    toInt_toInt32 hw, toInt_toInt32 hh, Int32.toInt_ofIntClamp (by omega) (by omega),
    Int32.toInt_ofIntClamp (by omega) (by omega)]

namespace Window.Fits

variable {win : Window} {px py : Int32} (h : win.Fits)
include h

theorem fullWidth_toNat : win.fullWidth.toNat = win.width.toNat + 4 := by
  have hw := h.width
  have hborder : (2 * BORDER_WIDTH).toNat = 4 := rfl
  rw [Window.fullWidth, UInt32.toNat_add, hborder]
  omega

theorem fullHeight_toNat : win.fullHeight.toNat = win.height.toNat + 28 := by
  have hh := h.height
  have htitle : TITLE_BAR_HEIGHT.toNat = 24 := rfl
  have hborder : (2 * BORDER_WIDTH).toNat = 4 := rfl
  rw [Window.fullHeight, UInt32.toNat_add, UInt32.toNat_add, htitle, hborder]
  omega

theorem toInt_fullWidth : win.fullWidth.toInt32.toInt = win.width.toNat + 4 := by
  have hw := h.fullWidth_toNat
  have hlt := h.width
  rw [toInt_toInt32 (by omega), hw]
  omega

theorem toInt_fullHeight : win.fullHeight.toInt32.toInt = win.height.toNat + 28 := by
  have hh := h.fullHeight_toNat
  have hlt := h.height
  rw [toInt_toInt32 (by omega), hh]
  omega

theorem containsPoint_iff :
    win.containsPoint px py = true ↔
      (win.x.toInt ≤ px.toInt ∧ px.toInt < win.x.toInt + win.width.toNat + 4) ∧
        win.y.toInt ≤ py.toInt ∧ py.toInt < win.y.toInt + win.height.toNat + 28 := by
  have hright := h.right
  have hbottom := h.bottom
  have hx0 := win.x.le_toInt
  have hy0 := win.y.le_toInt
  have hw := h.toInt_fullWidth
  have hh := h.toInt_fullHeight
  simp only [Window.containsPoint, Bool.and_eq_true, decide_eq_true_eq, Int32.le_iff_toInt_le,
    Int32.lt_iff_toInt_lt]
  rw [toInt_add (by omega) (by omega), toInt_add (by omega) (by omega), hw, hh]
  omega

/-- The outline is the border of the full bounds. -/
theorem outlineAt_iff :
    win.OutlineAt px py ↔ win.containsPoint px py = true ∧
      (py.toInt = win.y.toInt ∨ py.toInt = win.y.toInt + win.height.toNat + 27 ∨
        px.toInt = win.x.toInt ∨ px.toInt = win.x.toInt + win.width.toNat + 3) := by
  have hlogo := h.logo
  have hwidth := h.width
  have hheight := h.height
  have hright := h.right
  have hbottom := h.bottom
  have hx0 := win.x.le_toInt
  have hy0 := win.y.le_toInt
  have hw := h.toInt_fullWidth
  have hh := h.toInt_fullHeight
  have hwn := h.fullWidth_toNat
  have hhn := h.fullHeight_toNat
  have hone : (1 : Int32).toInt = 1 := rfl
  have honeu : (1 : UInt32).toNat = 1 := rfl
  have hx : (win.x + win.fullWidth.toInt32 - 1).toInt = win.x.toInt + win.width.toNat + 3 := by
    have hadd : (win.x + win.fullWidth.toInt32).toInt = win.x.toInt + win.width.toNat + 4 := by
      rw [toInt_add (by omega) (by omega)]
      omega
    rw [toInt_sub (by omega) (by omega)]
    omega
  have hy : (win.y + win.fullHeight.toInt32 - 1).toInt = win.y.toInt + win.height.toNat + 27 := by
    have hadd : (win.y + win.fullHeight.toInt32).toInt = win.y.toInt + win.height.toNat + 28 := by
      rw [toInt_add (by omega) (by omega)]
      omega
    rw [toInt_sub (by omega) (by omega)]
    omega
  unfold Window.OutlineAt
  rw [h.containsPoint_iff, inRect_iff (by omega) (by omega) (by omega) (by omega),
    inRect_iff (by omega) (by omega) (by omega) (by omega),
    inRect_iff (by omega) (by omega) (by omega) (by omega),
    inRect_iff (by omega) (by omega) (by omega) (by omega), hx, hy, hwn, hhn, honeu]
  omega

/-- The title bar is inside the outline, 24 rows high. -/
theorem inTitle_iff :
    InRect (win.x + 1) (win.y + 1) (win.fullWidth - 2) TITLE_BAR_HEIGHT px py ↔
      (win.x.toInt + 1 ≤ px.toInt ∧ px.toInt < win.x.toInt + win.width.toNat + 3) ∧
        win.y.toInt + 1 ≤ py.toInt ∧ py.toInt < win.y.toInt + 25 := by
  have hwidth := h.width
  have hright := h.right
  have hbottom := h.bottom
  have hx0 := win.x.le_toInt
  have hy0 := win.y.le_toInt
  have hone : (1 : Int32).toInt = 1 := rfl
  have htitle : TITLE_BAR_HEIGHT.toNat = 24 := rfl
  have hwn := h.fullWidth_toNat
  have htwo : (2 : UInt32).toNat = 2 := rfl
  have hw : (win.fullWidth - 2).toNat = win.width.toNat + 2 := by
    rw [UInt32.toNat_sub_of_le _ _ (by rw [UInt32.le_iff_toNat_le]; omega)]
    omega
  have hx : (win.x + 1).toInt = win.x.toInt + 1 := toInt_add (by omega) (by omega)
  have hy : (win.y + 1).toInt = win.y.toInt + 1 := toInt_add (by omega) (by omega)
  rw [inRect_iff (by omega) (by omega) (by omega) (by omega), hx, hy, hw, htitle]
  omega

/-- The logo is in the title bar. -/
theorem inTitle_of_inLogo (hlogo : InRect (win.x + 4) (win.y + 6) 12 12 px py) :
    InRect (win.x + 1) (win.y + 1) (win.fullWidth - 2) TITLE_BAR_HEIGHT px py := by
  have hwidth := h.logo
  have hright := h.right
  have hbottom := h.bottom
  have hx0 := win.x.le_toInt
  have hy0 := win.y.le_toInt
  have hfour : (4 : Int32).toInt = 4 := rfl
  have hsix : (6 : Int32).toInt = 6 := rfl
  have htwelve : (12 : UInt32).toNat = 12 := rfl
  have hx : (win.x + 4).toInt = win.x.toInt + 4 := toInt_add (by omega) (by omega)
  have hy : (win.y + 6).toInt = win.y.toInt + 6 := toInt_add (by omega) (by omega)
  rw [inRect_iff (by omega) (by omega) (by omega) (by omega), hx, hy, htwelve] at hlogo
  rw [h.inTitle_iff]
  omega

theorem toInt_contentX : (Compositor.contentX win).toInt = win.x.toInt + 2 := by
  have hwidth := h.logo
  have hright := h.right
  have hx0 := win.x.le_toInt
  have hborder : BORDER_WIDTH.toInt32.toInt = 2 := rfl
  rw [Compositor.contentX, toInt_add (by omega) (by omega), hborder]

theorem toInt_contentY : (Compositor.contentY win).toInt = win.y.toInt + 24 := by
  have hbottom := h.bottom
  have hy0 := win.y.le_toInt
  have htitle : TITLE_BAR_HEIGHT.toInt32.toInt = 24 := rfl
  rw [Compositor.contentY, toInt_add (by omega) (by omega), htitle]

/-- The content is inside the borders. -/
theorem inside_of_contentAt (hcontent : win.ContentAt px py) :
    (win.x.toInt + 2 ≤ px.toInt ∧ px.toInt < win.x.toInt + 2 + win.width.toNat) ∧
      win.y.toInt + 24 ≤ py.toInt ∧ py.toInt < win.y.toInt + 24 + win.height.toNat := by
  have hwidth := h.width
  have hheight := h.height
  have hright := h.right
  have hbottom := h.bottom
  have hx0 := win.x.le_toInt
  have hy0 := win.y.le_toInt
  have hx := h.toInt_contentX
  have hy := h.toInt_contentY
  unfold Window.ContentAt at hcontent
  simp only at hcontent
  split at hcontent
  · rw [inRect_iff (by omega) (by omega) (by omega) (by omega), hx, hy] at hcontent
    exact hcontent
  · obtain ⟨⟨⟨hrow0, hrow⟩, hcol0, hcol⟩, -⟩ := hcontent
    have hpx : px = Compositor.contentX win + (px - Compositor.contentX win) := by grind
    have hpy : py = Compositor.contentY win + (py - Compositor.contentY win) := by grind
    generalize px - Compositor.contentX win = col at hcol0 hcol hpx
    generalize py - Compositor.contentY win = row at hrow0 hrow hpy
    have hzero : (0 : Int32).toInt = 0 := rfl
    rw [Int32.le_iff_toInt_le] at hrow0 hcol0
    rw [Int32.lt_iff_toInt_lt, toInt_toInt32 (by omega)] at hrow hcol
    rw [hpx, hpy, toInt_add (by omega) (by omega), toInt_add (by omega) (by omega), hx, hy]
    omega

/-- What a window paints of its full bounds: all but what is inside the outline, below the
title bar, and not content. -/
theorem painted_iff (hvisible : win.visible = true) :
    win.Painted px py ↔ win.containsPoint px py = true ∧
      (win.ContentAt px py ∨ py.toInt < win.y.toInt + 25 ∨
        py.toInt = win.y.toInt + win.height.toNat + 27 ∨ px.toInt = win.x.toInt ∨
        px.toInt = win.x.toInt + win.width.toNat + 3) := by
  have htitle := @inTitle_iff win px py h
  have houtline := @outlineAt_iff win px py h
  have hcontains := @containsPoint_iff win px py h
  constructor
  · rintro ⟨-, hborder | hbar | hlogo | hcontent⟩
    · rw [houtline] at hborder
      exact ⟨hborder.1, by omega⟩
    · rw [htitle] at hbar
      exact ⟨hcontains.2 (by omega), by omega⟩
    · have hbar := h.inTitle_of_inLogo hlogo
      rw [htitle] at hbar
      exact ⟨hcontains.2 (by omega), by omega⟩
    · have hin := h.inside_of_contentAt hcontent
      exact ⟨hcontains.2 (by omega), Or.inl hcontent⟩
  · rintro ⟨hin, hwhere⟩
    refine ⟨hvisible, ?_⟩
    rcases hwhere with hcontent | hwhere
    · exact Or.inr (Or.inr (Or.inr hcontent))
    · have hbounds := hcontains.1 hin
      rw [houtline, htitle]
      by_cases hbar : win.y.toInt + 1 ≤ py.toInt ∧ py.toInt < win.y.toInt + 25 ∧
          win.x.toInt + 1 ≤ px.toInt ∧ px.toInt < win.x.toInt + win.width.toNat + 3
      · exact Or.inr (Or.inl (by omega))
      · exact Or.inl ⟨hin, by omega⟩

end Window.Fits

/-! ## The windows from one on -/

namespace WindowList

variable {l : WindowList}

/-- The list with the windows of some slots only. -/
def keep (l : WindowList) (slots : List (Fin MAX_WINDOWS)) : WindowList :=
  { l with windows := fun i => if i ∈ slots then l.windows i else .empty }

/-- Without the windows below, the others are painted as before. -/
theorem zOrdered_keep {below slots : List (Fin MAX_WINDOWS)}
    (h : l.iterZOrder.indices = below ++ slots) :
    (l.keep slots).zOrdered = slots.map l.windows := by
  have hwindows : ∀ i ∈ slots, (l.keep slots).windows i = l.windows i := by
    intro i hi
    exact if_pos hi
  have hmem : ∀ i, i ∈ (l.keep slots).iterZOrder.indices ↔ i ∈ slots := by
    intro i
    rw [mem_indices]
    by_cases hi : i ∈ slots
    · rw [hwindows i hi, ← mem_indices, h]
      exact iff_of_true (List.mem_append_right below hi) hi
    · refine iff_of_false ?_ hi
      show ¬ Window.Shown (if i ∈ slots then l.windows i else .empty)
      rw [if_neg hi]
      decide
  have hnodup : slots.Nodup := (List.nodup_append.1 (h ▸ indices_nodup)).2.1
  have hperm : (l.keep slots).iterZOrder.indices.Perm slots :=
    (List.perm_ext_iff_of_nodup indices_nodup hnodup).2 hmem
  have hsorted : slots.Pairwise (l.keep slots).Below := by
    have hpair := (List.pairwise_append.1 (h ▸ l.indices_pairwise)).2.1
    refine hpair.imp_of_mem ?_
    intro i j hi hj hij
    rw [Below, hwindows i hi, hwindows j hj]
    exact hij
  have heq : (l.keep slots).iterZOrder.indices = slots :=
    hperm.eq_of_pairwise (fun i j _ _ hij hji => absurd hji hij.asymm) indices_pairwise hsorted
  rw [zOrdered_eq, heq]
  exact List.map_congr_left hwindows

end WindowList

/-! ## Covering -/

section covering

variable {info : FramebufferInfo} {px py : Int32}

/-- The pixel stays the same, whatever the desktop color is and whatever is painted before the
windows `top :: upper`, down to nothing at all. -/
def Covers (info : FramebufferInfo) (px py : Int32) (l : WindowList) (top : Window)
    (upper : List Window) : Prop :=
  ∀ (c c' : Compositor) (mem mem' : Store) (desktop desktop' : Color) (l' : WindowList)
    (lower' : List Window), c.fbInfo = info → c'.fbInfo = info →
    l'.zOrdered = lower' ++ top :: upper →
    (∀ win ∈ top :: upper, Window.SameContent mem mem' win) →
    seen px py (c.compositeOver mem desktop l) = seen px py (c'.compositeOver mem' desktop' l')

/-- A window that contains the pixel, with none above it that does, is the one that is hit. -/
theorem hitTest_of_split {l : WindowList} {top : Window} {lower upper : List Window}
    (hsplit : l.zOrdered = lower ++ top :: upper) (htop : top.containsPoint px py = true)
    (hupper : ∀ win ∈ upper, win.containsPoint px py = false) : l.hitTest px py = top.id := by
  have hnone : (upper.filter fun win => win.containsPoint px py) = [] := by
    rw [List.filter_eq_nil_iff]
    intro win hwin
    rw [hupper win hwin]
    exact Bool.false_ne_true
  have hlast : l.lastPainted px py = some top := by
    rw [WindowList.lastPainted, hsplit, List.filter_append, List.filter_cons, if_pos htop, hnone,
      List.getLast?_append]
    rfl
  rw [l.hitTest_eq_lastPainted, hlast]
  rfl

theorem covers_of_painted {l : WindowList} {top : Window} {lower upper : List Window}
    (hscreen : OnScreen info px py) (hsplit : l.zOrdered = lower ++ top :: upper)
    (hpaint : ∃ win ∈ top :: upper, win.Painted px py) : Covers info px py l top upper := by
  intro c c' mem mem' desktop desktop' l' lower' hc hc' hsplit' hsame
  have hlayers : shade (Window.layer mem px py) (top :: upper) =
      shade (Window.layer mem' px py) (top :: upper) :=
    shade_congr fun win hwin => Window.layer_congr (hsame win hwin)
  have hsome : shade (Window.layer mem px py) (top :: upper) ≠ none := by
    obtain ⟨win, hwin, hpainted⟩ := hpaint
    exact shade_ne_none.2 ⟨win, hwin, Window.layer_ne_none.2 hpainted⟩
  obtain ⟨v, hv⟩ := Option.ne_none_iff_exists'.1 hsome
  rw [paints_compositeOver hscreen mem desktop l hc, hsplit, shade_append,
    paints_compositeOver hscreen mem' desktop' l' hc', hsplit', shade_append, ← hlayers, hv]
  rfl

theorem painted_of_covers {l : WindowList} {top : Window} {lower upper : List Window}
    (hscreen : OnScreen info px py) (hsplit : l.zOrdered = lower ++ top :: upper)
    (hcovers : Covers info px py l top upper) : ∃ win ∈ top :: upper, win.Painted px py := by
  -- compare with the list without the windows below, over two desktop colors
  obtain ⟨below, slots, hindices, hlower, hslots⟩ : ∃ below slots,
      l.iterZOrder.indices = below ++ slots ∧ below.map l.windows = lower ∧
        slots.map l.windows = top :: upper := by
    rw [WindowList.zOrdered_eq] at hsplit
    exact List.map_eq_append_iff.1 hsplit
  have hkeep : (l.keep slots).zOrdered = [] ++ top :: upper := by
    rw [WindowList.zOrdered_keep hindices, hslots]
    rfl
  let c : Compositor := ⟨info, fun _ => 0⟩
  have hsame : ∀ win ∈ top :: upper, Window.SameContent (fun _ => 0) (fun _ => 0) win :=
    fun _ _ _ _ => rfl
  have hblack := hcovers c c (fun _ => 0) (fun _ => 0) .DESKTOP ⟨0, 0, 0⟩ (l.keep slots) [] rfl
    rfl hkeep hsame
  have hwhite := hcovers c c (fun _ => 0) (fun _ => 0) .DESKTOP ⟨1, 1, 1⟩ (l.keep slots) [] rfl
    rfl hkeep hsame
  rw [hblack, paints_compositeOver hscreen _ _ _ rfl, paints_compositeOver hscreen _ _ _ rfl,
    hkeep, List.nil_append] at hwhite
  by_contra hnone
  have hshade : shade (Window.layer (fun _ => 0) px py) (top :: upper) = none := by
    by_contra hsome
    obtain ⟨win, hwin, hlayer⟩ := shade_ne_none.1 hsome
    exact hnone ⟨win, hwin, Window.layer_ne_none.1 hlayer⟩
  rw [hshade] at hwhite
  exact absurd hwhite (by decide)

/-- The topmost window at a pixel is the one that is hit there; the pixel does not depend on
what is below it if and only if this window, or one above it, paints the pixel; and it shows
what the window puts there, if those above do not paint it. -/
theorem covers_iff {l : WindowList} {top : Window} {lower upper : List Window}
    (hscreen : OnScreen info px py) (hsplit : l.zOrdered = lower ++ top :: upper)
    (htop : top.containsPoint px py = true)
    (hupper : ∀ win ∈ upper, win.containsPoint px py = false) :
    l.hitTest px py = top.id ∧
      (Covers info px py l top upper ↔
        top.Painted px py ∨ ∃ win ∈ upper, win.Painted px py) ∧
      ((∀ win ∈ upper, ¬ win.Painted px py) → top.Painted px py →
        ∀ (c : Compositor) (mem : Store) (desktop : Color), c.fbInfo = info →
          some (seen px py (c.compositeOver mem desktop l)) = top.layer mem px py) := by
  refine ⟨hitTest_of_split hsplit htop hupper, ?_, ?_⟩
  · have hcons : (top.Painted px py ∨ ∃ win ∈ upper, win.Painted px py) ↔
        ∃ win ∈ top :: upper, win.Painted px py := by
      simp only [List.exists_mem_cons_iff]
    rw [hcons]
    exact ⟨painted_of_covers hscreen hsplit, covers_of_painted hscreen hsplit⟩
  · intro hnone hpainted c mem desktop hc
    have habove : shade (Window.layer mem px py) upper = none := by
      by_contra hsome
      obtain ⟨win, hwin, hlayer⟩ := shade_ne_none.1 hsome
      exact hnone win hwin (Window.layer_ne_none.1 hlayer)
    have hlayer : top.layer mem px py ≠ none := Window.layer_ne_none.2 hpainted
    obtain ⟨v, hv⟩ := Option.ne_none_iff_exists'.1 hlayer
    rw [paints_compositeOver hscreen mem desktop l hc, hsplit, shade_append, shade, habove, hv]
    rfl

end covering

/-! ## A window of 10 by 10 -/

/-- A screen of 640 by 480. -/
def vga : FramebufferInfo := ⟨0, 640, 480, 640, 4, 1, 1228800⟩

/-- One window in the corner. -/
def cornered : WindowList := (WindowList.new.create 0 0 10 10 [] 0 0).2

/-- The window of `cornered`. -/
def corner : Window := WindowList.new.newWindow 0 0 10 10 [] 0 0

theorem zOrdered_cornered : cornered.zOrdered = [] ++ corner :: [] := by decide

theorem onScreen_vga {px py : Int32} (hx0 : 0 ≤ px) (hx : px < 640) (hy0 : 0 ≤ py)
    (hy : py < 480) : OnScreen vga px py where
  width_lt := by decide
  left := hx0
  right := hx
  top := hy0
  bottom := hy
  stored := by
    rw [Int32.lt_iff_toInt_lt] at hx hy
    rw [Int32.le_iff_toInt_le] at hx0 hy0
    have hx' : px.toInt < 640 := hx
    have hy' : py.toInt < 480 := hy
    have hx0' : 0 ≤ px.toInt := hx0
    have hy0' : 0 ≤ py.toInt := hy0
    simp only [vga, OFFSCREEN_LEN, MAX_FB_WIDTH, MAX_FB_HEIGHT, BPP]
    omega

/-- The title bar covers what is beneath it. -/
theorem covers_corner_title : Covers vga 5 5 cornered corner [] :=
  ((covers_iff (onScreen_vga (by decide) (by decide) (by decide) (by decide)) zOrdered_cornered
    (by decide) (by decide)).2.1).2 (Or.inl (by decide))

/-- The pixel in column 1 and row 30 of the window has the color of the desktop. -/
theorem not_covers_corner_border :
    ¬ ∀ (info : FramebufferInfo) (px py : Int32) (l : WindowList) (top : Window)
      (lower upper : List Window), OnScreen info px py → l.zOrdered = lower ++ top :: upper →
      top.containsPoint px py = true → (∀ win ∈ upper, win.containsPoint px py = false) →
        Covers info px py l top upper := by
  intro h
  have hcovers := h vga 1 30 cornered corner [] []
    (onScreen_vga (by decide) (by decide) (by decide) (by decide)) zOrdered_cornered (by decide)
    (by decide)
  obtain ⟨win, hwin, hpainted⟩ := painted_of_covers
    (onScreen_vga (by decide) (by decide) (by decide) (by decide)) zOrdered_cornered hcovers
  rw [List.mem_singleton.1 hwin] at hpainted
  exact absurd hpainted (by decide)

end AeroOS.Wm
