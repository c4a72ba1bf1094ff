import AeroOS.Syscalls.FbCommit
import AeroOS.Wm.FramebufferInfo

/-!
# The compositor and the screen

`compositor.rs` draws into a buffer of four bytes a pixel with the width as row
pitch; `fb_commit` reads that buffer with the pixel size of the hardware.

* `committed_getD`: what a commit shows at a byte of a pixel.
* `allShown_iff`: every image is shown on the screen if and only if a pixel of the
  screen has four bytes, or there are no two pixels.
-/

namespace AeroOS.Wm

open Bytes Fs
open AeroOS.Proc (ENOENT)
open AeroOS.Syscalls

/-! ## The off-screen buffer -/

def MAX_FB_WIDTH : Nat := 1280
def MAX_FB_HEIGHT : Nat := 720
def BPP : Nat := 4

/-- Length of the off-screen buffer. -/
def OFFSCREEN_LEN : Nat := MAX_FB_WIDTH * MAX_FB_HEIGHT * BPP

/-- An RGB color. -/
structure Color where
  r : UInt8
  g : UInt8
  b : UInt8

/-- The framebuffer information, and the off-screen buffer. -/
structure Compositor where
  fbInfo : FramebufferInfo
  offscreen : Store

namespace Compositor

/-- Where the pixel `(x, y)` is in the off-screen buffer. -/
def pixelOffset (c : Compositor) (x y : Nat) : Nat := (y * c.fbInfo.width + x) * BPP

/-- `put_pixel`. -/
def putPixel (c : Compositor) (x y : Int) (color : Color) : Compositor :=
  if x < 0 ∨ y < 0 then c
  else if c.fbInfo.width ≤ x ∨ c.fbInfo.height ≤ y then c
  else
    let offset := c.pixelOffset x.toNat y.toNat
    if OFFSCREEN_LEN < offset + BPP then c
    else { c with offscreen := writeBytes c.offscreen offset [color.b, color.g, color.r, 0] }

/-- The arguments with which `commit` calls `fb_commit`, for a buffer at `buf`. -/
def commitCall (c : Compositor) (buf : Nat) : Call :=
  ⟨8, buf, 0, 0, c.fbInfo.width, c.fbInfo.height⟩

/-- The memory of the window manager holds the buffer at `buf`. -/
def In (c : Compositor) (mem : Store) (buf : Nat) : Prop :=
  buf ≠ 0 ∧ ∀ k < OFFSCREEN_LEN, mem (buf + k) = c.offscreen k

/-- A pixel of a screen in bounds is in the buffer. -/
theorem pixelOffset_lt {c : Compositor} (hw : c.fbInfo.width ≤ MAX_FB_WIDTH)
    (hh : c.fbInfo.height ≤ MAX_FB_HEIGHT) {x y : Nat} (hx : x < c.fbInfo.width)
    (hy : y < c.fbInfo.height) : c.pixelOffset x y + BPP ≤ OFFSCREEN_LEN := by
  have h1 : y * c.fbInfo.width + x + 1 ≤ c.fbInfo.height * c.fbInfo.width := by
    have := Nat.mul_le_mul_right c.fbInfo.width (Nat.succ_le_of_lt hy)
    rw [Nat.succ_mul] at this
    omega
  have h2 : c.fbInfo.height * c.fbInfo.width ≤ MAX_FB_WIDTH * MAX_FB_HEIGHT := by
    rw [Nat.mul_comm]
    exact Nat.mul_le_mul hw hh
  have h3 := Nat.mul_le_mul_right BPP (h1.trans h2)
  rw [Nat.succ_mul] at h3
  exact h3

/-- The bytes that `put_pixel` stores. -/
theorem putPixel_offscreen {c : Compositor} (hw : c.fbInfo.width ≤ MAX_FB_WIDTH)
    (hh : c.fbInfo.height ≤ MAX_FB_HEIGHT) {x y : Nat} (hx : x < c.fbInfo.width)
    (hy : y < c.fbInfo.height) (color : Color) :
    (c.putPixel x y color).offscreen =
      writeBytes c.offscreen (c.pixelOffset x y) [color.b, color.g, color.r, 0] := by
  have hlt := pixelOffset_lt hw hh hx hy
  rw [putPixel, if_neg (by omega), if_neg (by omega)]
  simp only [Int.toNat_natCast]
  rw [if_neg (by omega)]

@[simp] theorem putPixel_fbInfo (c : Compositor) (x y : Int) (color : Color) :
    (c.putPixel x y color).fbInfo = c.fbInfo := by
  unfold putPixel
  split
  · rfl
  split
  · rfl
  simp only
  split <;> rfl

end Compositor

/-! ## The screen -/

variable {τ : Type}

/-- The bytes of the framebuffer after `commit`. -/
def committed (env : Env) (m : Machine τ) (c : Compositor) (buf : Nat) : List UInt8 :=
  let call := c.commitCall buf
  ((sysFbCommit env m call.arg0 call.arg1 call.arg2 call.arg3 call.arg4).2.devices.graphics.map
    (·.bytes)).getD []

/-- Every pixel of the framebuffer has the B, G and R bytes of the off-screen pixel. -/
def Shows (g : Graphics) (c : Compositor) (bytes : List UInt8) : Prop :=
  ∀ x < g.width, ∀ y < g.height, ∀ k < 3,
    bytes.getD ((y * g.stride + x) * g.bytesPerPixel + k) 0 =
      c.offscreen (c.pixelOffset x y + k)

/-- Every off-screen image is shown. -/
def AllShown (m : Machine τ) (g : Graphics) : Prop :=
  ∀ (c : Compositor) (env : Env) (buf : Nat), c.fbInfo = .ofGraphics g → c.In env.mem buf →
    Shows g c (committed env m c buf)

/-- A framebuffer as the kernel names it: at most the size of the off-screen buffer, with
three or four bytes a pixel, and long enough for its rows. -/
structure Geometry (g : Graphics) : Prop where
  width : g.width ≤ MAX_FB_WIDTH
  height : g.height ≤ MAX_FB_HEIGHT
  stride : g.width ≤ g.stride
  bytesPerPixel : g.bytesPerPixel = 3 ∨ g.bytesPerPixel = 4
  length : g.height * (g.stride * g.bytesPerPixel) ≤ g.bytes.length
  small : g.bytes.length < 2 ^ 64

section shown

variable {m : Machine τ} {g : Graphics} (hm : m.devices.graphics = some g) (hg : Geometry g)
  {c : Compositor} {env : Env} {buf : Nat} (hc : c.fbInfo = .ofGraphics g)
  (hin : c.In env.mem buf)

include hm hg hc hin

/-- What the screen shows at a byte of a pixel. -/
theorem committed_getD {x y k : Nat} (hx : x < g.width) (hy : y < g.height) (hk : k < 3) :
    (committed env m c buf).getD ((y * g.stride + x) * g.bytesPerPixel + k) 0 =
      env.mem (buf + (y * g.width + x) * g.bytesPerPixel + k) := by
  have hbpp : 3 ≤ g.bytesPerPixel := by
    rcases hg.bytesPerPixel with h | h <;> omega
  have hw : c.fbInfo.width = g.width := by rw [hc]; rfl
  have hh : c.fbInfo.height = g.height := by rw [hc]; rfl
  have hi : Inside g 0 g.width (0 + g.height) :=
    ⟨(Nat.zero_add g.width).le.trans hg.stride, by rw [Nat.zero_add]; exact hg.length, hg.small⟩
  have hbytes : committed env m c buf =
      (rowCopies g 0 0 g.width g.height 0).foldl (blitRow env buf) g.bytes := by
    simp only [committed, Compositor.commitCall, hw, hh]
    rw [sysFbCommit_eq hm hin.1 (by omega) ⟨by omega, by omega⟩ (Or.inr (by omega))
      (Or.inr (by omega))]
    rfl
  have hrect : Rectangle env g buf 0 0 g.width g.height
      ((rowCopies g 0 0 g.width g.height 0).foldl (blitRow env buf) g.bytes) :=
    rectangle_rowCopies hi
  have h := hrect.pixels y hy x hx k (by omega)
  rw [pixelByte, Nat.zero_add, Nat.zero_add] at h
  rw [hbytes, h, Nat.add_assoc]

/-- Pixels of four bytes: the two layouts agree. -/
theorem shows_of_four (h4 : g.bytesPerPixel = 4) : Shows g c (committed env m c buf) := by
  intro x hx y hy k hk
  have hw : c.fbInfo.width = g.width := by rw [hc]; rfl
  have hh : c.fbInfo.height = g.height := by rw [hc]; rfl
  have hlt := Compositor.pixelOffset_lt (c := c) (hw ▸ hg.width) (hh ▸ hg.height)
    (hw.symm ▸ hx) (hh.symm ▸ hy)
  rw [committed_getD hm hg hc hin hx hy hk, h4, Nat.add_assoc, ← hw]
  exact hin.2 _ (by unfold BPP at hlt; unfold Compositor.pixelOffset BPP at *; omega)

/-- One pixel: it is the first of both. -/
theorem shows_of_one (h1 : g.width * g.height ≤ 1) : Shows g c (committed env m c buf) := by
  intro x hx y hy k hk
  have hle : (x + 1) * (y + 1) ≤ 1 := (Nat.mul_le_mul hx hy).trans h1
  have hx0 : x = 0 := by
    have hx1 : x + 1 ≤ (x + 1) * (y + 1) := Nat.le_mul_of_pos_right _ y.succ_pos
    omega
  have hy0 : y = 0 := by
    have hy1 : y + 1 ≤ (x + 1) * (y + 1) := Nat.le_mul_of_pos_left _ x.succ_pos
    omega
  subst hx0 hy0
  rw [committed_getD hm hg hc hin hx hy hk]
  simp only [Compositor.pixelOffset, Nat.zero_mul, Nat.add_zero, Nat.zero_add]
  exact hin.2 k (hk.trans (by decide))

end shown

/-! ## Pixels of three bytes -/

/-- A window manager that fetched the geometry `g` and drew nothing. -/
def blank (g : Graphics) : Compositor := ⟨.ofGraphics g, fun _ => 0⟩

/-- A blue pixel. -/
def blue : Color := ⟨0, 0, 0xFF⟩

/-- A window manager with the off-screen buffer at address 1. -/
def placed (c : Compositor) : Env where
  mem a := c.offscreen (a - 1)
  serial := []
  clock := (0, 0)
  heap := none
  childCr3 := none
  image _ := .error ENOENT
  userRsp := 0
  rsp := 0
  stackTop _ := 0

theorem in_placed (c : Compositor) : c.In (placed c).mem 1 :=
  ⟨by decide, fun k _ => congrArg c.offscreen (Nat.add_sub_cancel_left 1 k)⟩

/-- With three bytes a pixel, a blue second pixel is shown black: the kernel takes its
blue byte from the last byte of the first pixel. -/
theorem not_shows_blue {m : Machine τ} {g : Graphics} (hm : m.devices.graphics = some g)
    (hg : Geometry g) (h3 : g.bytesPerPixel = 3) {x y : Nat} (hx : x < g.width)
    (hy : y < g.height) (hxy : y * g.width + x = 1) :
    ¬ Shows g ((blank g).putPixel x y blue)
        (committed (placed ((blank g).putPixel x y blue)) m ((blank g).putPixel x y blue) 1) := by
  set c := (blank g).putPixel x y blue with hcdef
  have hc : c.fbInfo = .ofGraphics g := Compositor.putPixel_fbInfo _ _ _ _
  have hw : c.fbInfo.width = g.width := by rw [hc]; rfl
  have hoff : c.offscreen = writeBytes (fun _ => 0) 4 [0xFF, 0, 0, 0] := by
    rw [hcdef, Compositor.putPixel_offscreen hg.width hg.height hx hy]
    have hpos : (blank g).pixelOffset x y = 4 := by
      rw [Compositor.pixelOffset]
      change (y * g.width + x) * BPP = 4
      rw [hxy]
      rfl
    rw [hpos]
    rfl
  intro h
  have h1 := h x hx y hy 0 (by decide)
  rw [committed_getD hm hg hc (in_placed c) hx hy (by decide), h3, hxy, placed,
    Compositor.pixelOffset, hw, hxy, hoff] at h1
  exact absurd h1 (by decide)

/-- Every off-screen image reaches the screen exactly when the screen has the four bytes a
pixel of the compositor, or no second pixel. -/
theorem allShown_iff {m : Machine τ} {g : Graphics} (hm : m.devices.graphics = some g)
    (hg : Geometry g) : AllShown m g ↔ g.bytesPerPixel = 4 ∨ g.width * g.height ≤ 1 := by
  constructor
  · intro hall
    by_contra hnot
    push Not at hnot
    have h3 : g.bytesPerPixel = 3 := hg.bytesPerPixel.resolve_right hnot.1
    have hpos : 0 < g.width ∧ 0 < g.height := by
      constructor <;> refine Nat.pos_of_ne_zero fun h0 => ?_ <;> simp [h0] at hnot
    by_cases hw : 1 < g.width
    · exact not_shows_blue hm hg h3 hw hpos.2 (by omega)
        (hall _ _ _ (Compositor.putPixel_fbInfo _ _ _ _) (in_placed _))
    · have hw1 : g.width = 1 := by omega
      have hh : 1 < g.height := by
        rw [hw1, Nat.one_mul] at hnot
        exact hnot.2
      exact not_shows_blue hm hg h3 hpos.1 hh (by omega)
        (hall _ _ _ (Compositor.putPixel_fbInfo _ _ _ _) (in_placed _))
  · rintro (h4 | h1) c env buf hc hin
    · exact shows_of_four hm hg hc hin h4
    · exact shows_of_one hm hg hc hin h1

/-- A screen of two pixels of four bytes shows every image. -/
theorem allShown_iff_pair :
    AllShown { screenMachine with devices := ⟨some ⟨0, List.replicate 8 0, 2, 1, 2, 4, 1⟩, .new,
      ⟨0, 0, 0⟩⟩ } ⟨0, List.replicate 8 0, 2, 1, 2, 4, 1⟩ :=
  (allShown_iff rfl ⟨by decide, by decide, by decide, by decide, by decide, by decide⟩).2
    (Or.inl rfl)

/-- A screen of two pixels of three bytes does not. -/
theorem not_allShown_pair :
    ¬ ∀ (m : Machine Unit) (g : Graphics), m.devices.graphics = some g → Geometry g →
      AllShown m g := by
  intro h
  have hg : Geometry ⟨0, List.replicate 6 0, 2, 1, 2, 3, 1⟩ :=
    ⟨by decide, by decide, by decide, by decide, by decide, by decide⟩
  have hall := h { screenMachine with devices := ⟨some ⟨0, List.replicate 6 0, 2, 1, 2, 3, 1⟩,
    .new, ⟨0, 0, 0⟩⟩ } _ rfl hg
  exact not_shows_blue rfl hg rfl (show 1 < 2 by decide) (show 0 < 1 by decide) rfl
    (hall _ _ _ (Compositor.putPixel_fbInfo _ _ _ _) (in_placed _))

end AeroOS.Wm
