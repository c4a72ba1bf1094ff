import Mathlib.Tactic.Ring
import AeroOS.Syscalls.Dispatch

/-!
# Copies to the framebuffer

`fb_commit` checks the rectangle with sums that fall back to the bound when they
overflow, and computes its offsets with sums and products that wrap.

* `rowCopies_eq`: the copies for a rectangle in the framebuffer.
* `foldl_blitRow`: what they leave in it.
* `sysFbCommit_iff`: a call is refused, or copies exactly the rectangle, unless
  one of the sums overflows.
-/

namespace AeroOS.Syscalls

open Bytes Fs
open AeroOS.Proc (ENOENT)

variable {env : Env} {g : Graphics} {src x y w rows n row r i j : Nat}

/-! ## The copies -/

/-- The copy of row `r` of the rectangle, without wrapping. -/
def rowCopy (g : Graphics) (x y w r : Nat) : RowCopy where
  dst := ((y + r) * g.stride + x) * g.bytesPerPixel
  src := r * (w * g.bytesPerPixel)
  len := w * g.bytesPerPixel

/-- The columns from `x` on, `w` of them, are in a row, and the first rows in the
framebuffer. -/
structure Inside (g : Graphics) (x w rows : Nat) : Prop where
  columns : x + w ≤ g.stride
  length : rows * (g.stride * g.bytesPerPixel) ≤ g.bytes.length
  small : g.bytes.length < 2 ^ 64

theorem rowCopy_dst (g : Graphics) (x y w r : Nat) : (rowCopy g x y w r).dst =
    (y + r) * (g.stride * g.bytesPerPixel) + x * g.bytesPerPixel := by
  unfold rowCopy
  ring

/-- A row ends before the next one starts. -/
theorem rowCopy_lt (h : Inside g x w rows) {r' : Nat} (hr : r < r') :
    (rowCopy g x y w r).dst + w * g.bytesPerPixel ≤ (rowCopy g x y w r').dst := by
  have hpitch := Nat.mul_le_mul_right g.bytesPerPixel h.columns
  have hrow := Nat.mul_le_mul_right (g.stride * g.bytesPerPixel)
    (show y + r + 1 ≤ y + r' by omega)
  rw [Nat.add_mul] at hpitch
  rw [Nat.succ_mul] at hrow
  rw [rowCopy_dst, rowCopy_dst]
  omega

/-- A row ends in the framebuffer. -/
theorem rowCopy_le (h : Inside g x w rows) (hr : y + r < rows) :
    (rowCopy g x y w r).dst + w * g.bytesPerPixel ≤ g.bytes.length := by
  have hpitch := Nat.mul_le_mul_right g.bytesPerPixel h.columns
  have hrow := Nat.mul_le_mul_right (g.stride * g.bytesPerPixel) (Nat.succ_le_of_lt hr)
  have hlen := h.length
  rw [Nat.add_mul] at hpitch
  rw [Nat.succ_mul] at hrow
  rw [rowCopy_dst]
  omega

/-- In the framebuffer no sum and no product wraps, and no row is left out. -/
theorem rowCopies_eq (h : Inside g x w rows) (hrows : y + row + n ≤ rows) :
    rowCopies g x y w n row = (List.range' row n).map (rowCopy g x y w) := by
  induction n generalizing row with
  | zero => rfl
  | succ n ih =>
    have hle := rowCopy_le (y := y) (r := row) h (by omega)
    have hsmall := h.small
    have hsrc : row * (w * g.bytesPerPixel) ≤ g.bytes.length := by
      have hw : w * g.bytesPerPixel ≤ g.stride * g.bytesPerPixel :=
        Nat.mul_le_mul_right _ ((Nat.le_add_left w x).trans h.columns)
      exact (Nat.mul_le_mul (show row ≤ rows by omega) hw).trans h.length
    have hdst : (rowCopy g x y w row).dst = ((y + row) * g.stride + x) * g.bytesPerPixel := rfl
    rw [hdst] at hle
    rw [rowCopies, Nat.mod_eq_of_lt (show w * g.bytesPerPixel < 2 ^ 64 by omega),
      Nat.mod_eq_of_lt (show ((y + row) * g.stride + x) * g.bytesPerPixel < 2 ^ 64 by omega),
      Nat.mod_eq_of_lt (Nat.lt_of_le_of_lt hle hsmall), if_neg (Nat.not_lt.2 hle),
      Nat.mod_eq_of_lt (Nat.lt_of_le_of_lt hsrc hsmall), ih (by omega), List.range'_succ,
      List.map_cons]
    rfl

/-! ## What they leave -/

/-- The rows of the source are in the framebuffer, and the bytes outside of the
rows are as they were. -/
theorem foldl_blitRow (env : Env) (src : Nat) (h : Inside g x w rows) {bytes : List UInt8}
    (hbytes : bytes.length = g.bytes.length) (hrows : y + row + n ≤ rows) :
    (((List.range' row n).map (rowCopy g x y w)).foldl (blitRow env src) bytes).length =
        bytes.length ∧
      (∀ i, (∀ r, row ≤ r → r < row + n → ∀ j < w * g.bytesPerPixel,
          i ≠ (rowCopy g x y w r).dst + j) →
        (((List.range' row n).map (rowCopy g x y w)).foldl (blitRow env src) bytes).getD i 0 =
          bytes.getD i 0) ∧
      ∀ r, row ≤ r → r < row + n → ∀ j < w * g.bytesPerPixel,
        (((List.range' row n).map (rowCopy g x y w)).foldl (blitRow env src) bytes).getD
            ((rowCopy g x y w r).dst + j) 0 =
          env.mem (src + r * (w * g.bytesPerPixel) + j) := by
  induction n generalizing row bytes with
  | zero => exact ⟨rfl, fun _ _ => rfl, fun r h1 h2 => by omega⟩
  | succ n ih =>
    have hle := rowCopy_le (y := y) (r := row) h (by omega)
    rw [List.range'_succ, List.map_cons, List.foldl_cons]
    have hpatch : blitRow env src bytes (rowCopy g x y w row) =
        patch bytes (rowCopy g x y w row).dst
          (readBytes env.mem (src + row * (w * g.bytesPerPixel)) (w * g.bytesPerPixel)) := rfl
    rw [hpatch]
    set p := readBytes env.mem (src + row * (w * g.bytesPerPixel)) (w * g.bytesPerPixel) with hp
    have hplen : p.length = w * g.bytesPerPixel := readBytes_length _ _ _
    have hlen : (patch bytes (rowCopy g x y w row).dst p).length = bytes.length :=
      patch_length (by omega)
    obtain ⟨h1, h2, h3⟩ := ih (hlen.trans hbytes) (show y + (row + 1) + n ≤ rows by omega)
    refine ⟨h1.trans hlen, fun i hi => ?_, fun r hr1 hr2 j hj => ?_⟩
    · rw [h2 i fun r hr1 hr2 => hi r (by omega) (by omega)]
      refine patch_getD_out (by omega) ?_ 0
      by_contra hin
      exact hi row le_rfl (by omega) (i - (rowCopy g x y w row).dst) (by omega) (by omega)
    · by_cases hr : r = row
      · -- the later rows lie behind this one
        subst hr
        rw [h2 _ fun r' hr' _ j' _ => by
          have := rowCopy_lt (y := y) h (show r < r' by omega)
          omega, patch_getD_in (by omega) (by omega), hp, readBytes_getD _ _ hj]
      · exact h3 r (by omega) (by omega) j hj

/-! ## The call -/

variable {τ : Type} {m : Machine τ} {buf h : Nat}

/-- A framebuffer whose rows are in its bytes. -/
structure Screen (g : Graphics) : Prop where
  width : g.width < 2 ^ 32
  height : g.height < 2 ^ 32
  stride : g.width ≤ g.stride
  length : g.stride * g.height * g.bytesPerPixel ≤ g.bytes.length
  small : g.bytes.length < 2 ^ 64

/-- Where a byte of pixel `(c, r)` of the rectangle is in the framebuffer. -/
def pixelByte (g : Graphics) (x y c r k : Nat) : Nat :=
  ((y + r) * g.stride + (x + c)) * g.bytesPerPixel + k

/-- The bytes of the rectangle are those of the source, and the others stay. -/
structure Rectangle (env : Env) (g : Graphics) (buf x y w h : Nat) (bytes : List UInt8) : Prop where
  length : bytes.length = g.bytes.length
  pixels : ∀ r < h, ∀ c < w, ∀ k < g.bytesPerPixel, bytes.getD (pixelByte g x y c r k) 0 =
    env.mem (buf + ((r * w + c) * g.bytesPerPixel + k))
  others : ∀ i, (∀ r < h, ∀ c < w, ∀ k < g.bytesPerPixel, i ≠ pixelByte g x y c r k) →
    bytes.getD i 0 = g.bytes.getD i 0

/-- A call that is refused and leaves everything. -/
def Refused (m : Machine τ) (r : Reply × Machine τ) : Prop := (∃ e < 0, r.1 = .value e) ∧ r.2 = m

/-- A call that copies a rectangle of the framebuffer, and nothing else. -/
structure CopiesRectangle (env : Env) (m : Machine τ) (g : Graphics) (buf x y w h : Nat)
    (r : Reply × Machine τ) : Prop where
  width : x + w ≤ g.width
  height : y + h ≤ g.height
  inside : ∀ c ∈ rowCopies g x y w h 0, c.dst + c.len ≤ g.bytes.length
  reply : r.1 = .value 0
  machine : ∃ bytes, Rectangle env g buf x y w h bytes ∧ r.2 = { m with devices :=
    { m.devices with graphics := some { g with bytes := bytes } } }

/-- A sum overflows, and with the bound in its place the call passes the checks. -/
structure Overflows (g : Graphics) (buf x y w h : Nat) : Prop where
  buf : buf ≠ 0
  size : ¬ (w = 0 ∨ h = 0)
  start : x < g.width ∧ y < g.height
  columns : 2 ^ 64 ≤ x + w ∨ x + w ≤ g.width
  rows : 2 ^ 64 ≤ y + h ∨ y + h ≤ g.height
  overflow : 2 ^ 64 ≤ x + w ∨ 2 ^ 64 ≤ y + h

theorem Screen.inside (hg : Screen g) (hw : x + w ≤ g.width) (hh : y + h ≤ g.height) :
    Inside g x w (y + h) where
  columns := hw.trans hg.stride
  length := by
    refine (Nat.mul_le_mul_right _ hh).trans ?_
    rw [← Nat.mul_assoc, Nat.mul_comm g.height]
    exact hg.length
  small := hg.small

theorem pixelByte_eq (c r k : Nat) :
    pixelByte g x y c r k = (rowCopy g x y w r).dst + (c * g.bytesPerPixel + k) := by
  unfold pixelByte rowCopy
  ring

/-- The row loop copies the rectangle. -/
theorem rectangle_rowCopies (hi : Inside g x w (y + h)) :
    Rectangle env g buf x y w h ((rowCopies g x y w h 0).foldl (blitRow env buf) g.bytes) := by
  rw [rowCopies_eq hi (show y + 0 + h ≤ y + h by omega)]
  obtain ⟨hlen, hout, hin⟩ :=
    foldl_blitRow env buf hi rfl (show y + 0 + h ≤ y + h by omega)
  refine ⟨hlen, fun r hr c hc k hk => ?_, fun i hi => hout i fun r _ hr j hj he => ?_⟩
  · have hj : c * g.bytesPerPixel + k < w * g.bytesPerPixel := by
      have := Nat.mul_le_mul_right g.bytesPerPixel (Nat.succ_le_of_lt hc)
      rw [Nat.succ_mul] at this
      omega
    rw [pixelByte_eq (w := w), hin r (Nat.zero_le r) (by omega) _ hj]
    congr 1
    ring
  · have hpos : 0 < g.bytesPerPixel := Nat.pos_of_ne_zero fun h0 => by simp [h0] at hj
    refine hi r (by omega) (j / g.bytesPerPixel) (Nat.div_lt_of_lt_mul (by rwa [Nat.mul_comm]))
      (j % g.bytesPerPixel) (Nat.mod_lt _ hpos) ?_
    rw [he, pixelByte_eq (w := w), Nat.div_add_mod']

/-- An overflowing sum is replaced by the bound. -/
theorem sysFbCommit_eq (hm : m.devices.graphics = some g) (hbuf : buf ≠ 0)
    (hsize : ¬ (w = 0 ∨ h = 0)) (hstart : x < g.width ∧ y < g.height)
    (hcolumns : 2 ^ 64 ≤ x + w ∨ x + w ≤ g.width) (hrows : 2 ^ 64 ≤ y + h ∨ y + h ≤ g.height) :
    sysFbCommit env m buf x y w h = (.value 0, { m with devices := { m.devices with
      graphics := some { g with
        bytes := (rowCopies g x y w h 0).foldl (blitRow env buf) g.bytes } } }) := by
  have hx : ¬ g.width < if x + w < 2 ^ 64 then x + w else g.width := by
    split <;> omega
  have hy : ¬ g.height < if y + h < 2 ^ 64 then y + h else g.height := by
    split <;> omega
  rw [sysFbCommit, if_neg hbuf, if_neg hsize, hm]
  exact if_neg (by omega)

/-- Another call is refused. -/
theorem sysFbCommit_refused (hm : m.devices.graphics = some g) (hbound : buf = 0 ∨ w = 0 ∨ h = 0 ∨
    g.width ≤ x ∨ g.height ≤ y ∨ x + w < 2 ^ 64 ∧ g.width < x + w ∨
      y + h < 2 ^ 64 ∧ g.height < y + h) :
    Refused m (sysFbCommit env m buf x y w h) := by
  rw [sysFbCommit]
  by_cases hbuf : buf = 0
  · rw [if_pos hbuf]
    exact ⟨⟨_, by decide, rfl⟩, rfl⟩
  rw [if_neg hbuf]
  by_cases hsize : w = 0 ∨ h = 0
  · rw [if_pos hsize]
    exact ⟨⟨_, by decide, rfl⟩, rfl⟩
  have hbad : g.width ≤ x ∨ g.height ≤ y ∨ (g.width < if x + w < 2 ^ 64 then x + w else g.width) ∨
      g.height < if y + h < 2 ^ 64 then y + h else g.height := by
    by_cases hx : x + w < 2 ^ 64 <;> by_cases hy : y + h < 2 ^ 64 <;>
      simp only [hx, hy, if_true, if_false] <;> omega
  rw [if_neg hsize, hm]
  simp only
  rw [if_pos hbad]
  exact ⟨⟨_, by decide, rfl⟩, rfl⟩

/-- A call is refused, or copies exactly the rectangle, unless a sum overflows and
the call is not refused for another reason. -/
theorem sysFbCommit_iff (hm : m.devices.graphics = some g) (hg : Screen g) :
    Refused m (sysFbCommit env m buf x y w h) ∨
        CopiesRectangle env m g buf x y w h (sysFbCommit env m buf x y w h) ↔
      ¬ Overflows g buf x y w h := by
  have hw := hg.width
  have hh := hg.height
  constructor
  · rintro (⟨⟨e, he, hval⟩, -⟩ | hcopy) ⟨hbuf, hsize, hstart, hcolumns, hrows, hover⟩
    · rw [sysFbCommit_eq hm hbuf hsize hstart hcolumns hrows] at hval
      obtain rfl : 0 = e := Option.some.inj (congrArg Reply.ret hval)
      exact absurd he (by decide)
    · have h1 := hcopy.width
      have h2 := hcopy.height
      omega
  · intro hno
    by_cases hpass : buf ≠ 0 ∧ ¬ (w = 0 ∨ h = 0) ∧ (x < g.width ∧ y < g.height) ∧
        (2 ^ 64 ≤ x + w ∨ x + w ≤ g.width) ∧ (2 ^ 64 ≤ y + h ∨ y + h ≤ g.height)
    · obtain ⟨hbuf, hsize, hstart, hcolumns, hrows⟩ := hpass
      have hfit : ¬ (2 ^ 64 ≤ x + w ∨ 2 ^ 64 ≤ y + h) :=
        fun hover => hno ⟨hbuf, hsize, hstart, hcolumns, hrows, hover⟩
      have hi : Inside g x w (y + h) := hg.inside (by omega) (by omega)
      right
      rw [sysFbCommit_eq hm hbuf hsize hstart hcolumns hrows]
      refine ⟨by omega, by omega, fun c hc => ?_, rfl, _, rectangle_rowCopies hi, rfl⟩
      rw [rowCopies_eq hi (show y + 0 + h ≤ y + h by omega), List.mem_map] at hc
      obtain ⟨r, hr, rfl⟩ := hc
      exact rowCopy_le hi (by have := List.mem_range'_1.1 hr; omega)
    · exact Or.inl (sysFbCommit_refused hm (by omega))

/-- A framebuffer of two rows of two pixels, of four bytes each. -/
def fourPixels : Graphics := ⟨0x80000000, List.replicate 16 0, 2, 2, 2, 4, 1⟩

theorem fourPixels_screen : Screen fourPixels :=
  ⟨by decide, by decide, by decide, by decide, by decide⟩

/-- A machine with it. -/
def fourPixelMachine : Machine Unit where
  kernel := .boot
  fdTable := FdTable.new
  currentDir := []
  devices := ⟨some fourPixels, .new, ⟨0, 0, 0⟩⟩
  files := ()

/-- A caller with memory in which each byte is the low byte of its address. -/
def countingEnv : Env where
  mem := UInt8.ofNat
  serial := []
  clock := (0, 0)
  heap := none
  childCr3 := none
  image _ := .error ENOENT
  userRsp := 0
  rsp := 0
  stackTop _ := 0

/-- The last column is in the framebuffer. -/
theorem sysFbCommit_iff_column :
    Refused fourPixelMachine (sysFbCommit countingEnv fourPixelMachine 1 1 0 1 2) ∨
      CopiesRectangle countingEnv fourPixelMachine fourPixels 1 1 0 1 2
        (sysFbCommit countingEnv fourPixelMachine 1 1 0 1 2) :=
  (sysFbCommit_iff rfl fourPixels_screen).2 fun h => absurd h.overflow (by decide)

/-- A width of 2^64 - 1 from the second column on passes the checks, and the one
copy takes 2^64 - 4 bytes. -/
theorem not_sysFbCommit_wide :
    ¬ (Refused fourPixelMachine (sysFbCommit countingEnv fourPixelMachine 1 1 0 (2 ^ 64 - 1) 1) ∨
      CopiesRectangle countingEnv fourPixelMachine fourPixels 1 1 0 (2 ^ 64 - 1) 1
        (sysFbCommit countingEnv fourPixelMachine 1 1 0 (2 ^ 64 - 1) 1)) ∧
    rowCopies fourPixels 1 0 (2 ^ 64 - 1) 1 0 = [⟨4, 0, 2 ^ 64 - 4⟩] := by
  refine ⟨?_, by decide⟩
  rintro (⟨⟨e, he, hval⟩, -⟩ | hcopy)
  · rw [sysFbCommit_eq (g := fourPixels) rfl (by decide) (by decide) (by decide) (by decide)
      (by decide)] at hval
    obtain rfl : 0 = e := Option.some.inj (congrArg Reply.ret hval)
    exact absurd he (by decide)
  · exact absurd hcopy.width (by decide)

end AeroOS.Syscalls
