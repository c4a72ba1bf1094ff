import AeroOS.Lib.Terminal
import Mathlib.Logic.Function.Basic

/-!
# The VGA console

`vga_buffer.rs`: the writer of the text screen.

* `newLine_buffer`: what `new_line` leaves in each cell.
* `Creeps.run`: where the rows of the page are on the screen.  `new_line` moves all rows up by one
  also when the cursor is above the last row, and moves down by one.
* `showsLines_iff`: when the screen is that of a terminal.
-/

namespace AeroOS.Vga

open Terminals

/-- A character and its colours. -/
structure ScreenChar where
  asciiCharacter : UInt8
  colorCode : UInt8
  deriving DecidableEq, Repr

def BUFFER_HEIGHT : Nat := 25

def BUFFER_WIDTH : Nat := 80

/-- The cells from the address of the screen on, row for row. -/
abbrev Buffer := Nat → ScreenChar

structure Writer where
  columnPosition : Nat
  rowPosition : Nat
  colorCode : UInt8
  buffer : Buffer
  column_le : columnPosition ≤ BUFFER_WIDTH
  row_lt : rowPosition < BUFFER_HEIGHT

def blank (colorCode : UInt8) : ScreenChar := ⟨0x20, colorCode⟩

/-- The inner loop of `new_line`. -/
def copyRow (row n : Nat) (buffer : Buffer) : Buffer :=
  (List.range n).foldl (fun b col =>
    Function.update b ((row - 1) * BUFFER_WIDTH + col) (b (row * BUFFER_WIDTH + col))) buffer

/-- The outer loop of `new_line`. -/
def copyRows (n : Nat) (buffer : Buffer) : Buffer :=
  (List.range' 1 n).foldl (fun b row => copyRow row BUFFER_WIDTH b) buffer

/-- The loop of `clear_row`. -/
def clearCells (colorCode : UInt8) (row n : Nat) (buffer : Buffer) : Buffer :=
  (List.range n).foldl (fun b col =>
    Function.update b (row * BUFFER_WIDTH + col) (blank colorCode)) buffer

namespace Writer

/-- `clear_row`. -/
def clearRow (w : Writer) (row : Nat) : Writer :=
  { w with buffer := clearCells w.colorCode row BUFFER_WIDTH w.buffer }

/-- `new_line`. -/
def newLine (w : Writer) : Writer :=
  let w₁ := { w with buffer := copyRows (BUFFER_HEIGHT - 1) w.buffer }
  let w₂ := w₁.clearRow (BUFFER_HEIGHT - 1)
  { w₂ with
    columnPosition := 0
    rowPosition := if w.rowPosition < BUFFER_HEIGHT - 1 then w.rowPosition + 1 else w.rowPosition
    column_le := Nat.zero_le _
    row_lt := by
      have hrow : w.rowPosition < 25 := w.row_lt
      show (if w.rowPosition < 24 then w.rowPosition + 1 else w.rowPosition) < 25
      split <;> omega }

/-- The store of a character at the cursor. -/
def put (w : Writer) (byte : UInt8) (h : w.columnPosition < BUFFER_WIDTH) : Writer where
  columnPosition := w.columnPosition + 1
  rowPosition := w.rowPosition
  colorCode := w.colorCode
  buffer := Function.update w.buffer (w.rowPosition * BUFFER_WIDTH + w.columnPosition)
    ⟨byte, w.colorCode⟩
  column_le := h
  row_lt := w.row_lt

/-- `write_byte`. -/
def writeByte (w : Writer) (byte : UInt8) : Writer :=
  if byte = 0x0A then w.newLine
  else if byte = 0x0D then { w with columnPosition := 0, column_le := Nat.zero_le _ }
  else if h : w.columnPosition ≥ BUFFER_WIDTH then
    w.newLine.put byte (Nat.zero_lt_succ _)
  else w.put byte (Nat.not_le.1 h)

/-- `write_str`. -/
def writeStr (w : Writer) (s : List UInt8) : Writer := s.foldl writeByte w

/-- The loop of `init` and of `clear_screen`. -/
def clearScreen (w : Writer) : Writer := (List.range BUFFER_HEIGHT).foldl clearRow w

end Writer

/-! ## The loops -/

theorem copyRow_apply {row n : Nat} (hrow : 0 < row) (hn : n ≤ 80) (b : Buffer) (x : Nat) :
    copyRow row n b x =
      if (row - 1) * 80 ≤ x ∧ x < (row - 1) * 80 + n then b (x + 80) else b x := by
  induction n generalizing x with
  | zero => exact (if_neg (by omega)).symm
  | succ n ih =>
    have hstep : copyRow row (n + 1) b = Function.update (copyRow row n b) ((row - 1) * 80 + n)
        (copyRow row n b (row * 80 + n)) := by
      rw [copyRow, List.range_succ, List.foldl_append]
      rfl
    have hsource : copyRow row n b (row * 80 + n) = b (row * 80 + n) := by
      rw [ih (by omega), if_neg (by omega)]
    rw [hstep, hsource]
    by_cases hx : x = (row - 1) * 80 + n
    · rw [hx, Function.update_self, if_pos (by omega)]
      congr 1
      omega
    · rw [Function.update_of_ne hx, ih (by omega)]
      by_cases hin : (row - 1) * 80 ≤ x ∧ x < (row - 1) * 80 + n
      · rw [if_pos hin, if_pos (by omega)]
      · rw [if_neg hin, if_neg (by omega)]

theorem copyRows_apply (n : Nat) (b : Buffer) (x : Nat) :
    copyRows n b x = if x < n * 80 then b (x + 80) else b x := by
  induction n generalizing x with
  | zero => exact (if_neg (by omega)).symm
  | succ n ih =>
    have hstep : copyRows (n + 1) b = copyRow (1 + n) 80 (copyRows n b) := by
      rw [copyRows, List.range'_1_concat, List.foldl_append]
      rfl
    rw [hstep, copyRow_apply (by omega) (Nat.le_refl 80)]
    by_cases hx : (1 + n - 1) * 80 ≤ x ∧ x < (1 + n - 1) * 80 + 80
    · rw [if_pos hx, ih, if_neg (by omega), if_pos (by omega)]
    · rw [if_neg hx, ih]
      by_cases hlt : x < n * 80
      · rw [if_pos hlt, if_pos (by omega)]
      · rw [if_neg hlt, if_neg (by omega)]

theorem clearCells_apply (color : UInt8) (row n : Nat) (b : Buffer) (x : Nat) :
    clearCells color row n b x =
      if row * 80 ≤ x ∧ x < row * 80 + n then blank color else b x := by
  induction n with
  | zero => exact (if_neg (by omega)).symm
  | succ n ih =>
    have hstep : clearCells color row (n + 1) b =
        Function.update (clearCells color row n b) (row * 80 + n) (blank color) := by
      rw [clearCells, List.range_succ, List.foldl_append]
      rfl
    rw [hstep]
    by_cases hx : x = row * 80 + n
    · rw [hx, Function.update_self, if_pos (by omega)]
    · rw [Function.update_of_ne hx, ih]
      by_cases hin : row * 80 ≤ x ∧ x < row * 80 + n
      · rw [if_pos hin, if_pos (by omega)]
      · rw [if_neg hin, if_neg (by omega)]

namespace Writer

theorem clearRow_buffer (w : Writer) (row : Nat) :
    (w.clearRow row).buffer = clearCells w.colorCode row BUFFER_WIDTH w.buffer := rfl

/-- `new_line` moves the cells up by a row, and empties the last row. -/
theorem newLine_buffer (w : Writer) {r c : Nat} (hr : r < 25) (hc : c < 80) :
    w.newLine.buffer (r * 80 + c) =
      if r < 24 then w.buffer ((r + 1) * 80 + c) else blank w.colorCode := by
  have hcopied : w.newLine.buffer = (({ w with
      buffer := copyRows (BUFFER_HEIGHT - 1) w.buffer } : Writer).clearRow
        (BUFFER_HEIGHT - 1)).buffer := rfl
  have hheight : BUFFER_HEIGHT - 1 = 24 := rfl
  have hwidth : BUFFER_WIDTH = 80 := rfl
  rw [hcopied, clearRow_buffer, hheight, hwidth, clearCells_apply]
  by_cases hlast : r < 24
  · rw [if_pos hlast, if_neg (by omega)]
    show copyRows 24 w.buffer (r * 80 + c) = _
    rw [copyRows_apply, if_pos (by omega)]
    congr 1
    omega
  · rw [if_neg hlast, if_pos (by omega)]

theorem newLine_row (w : Writer) : w.newLine.rowPosition = min (w.rowPosition + 1) 24 := by
  have hrow : w.rowPosition < 25 := w.row_lt
  show (if w.rowPosition < 24 then w.rowPosition + 1 else w.rowPosition) = _
  split <;> omega

/-- The screen is empty. -/
def Cleared (w : Writer) : Prop :=
  ∀ r c, r < 25 → c < 80 → w.buffer (r * 80 + c) = blank w.colorCode

theorem clearRows_spec (n : Nat) (w : Writer) :
    let w' := (List.range n).foldl clearRow w
    w'.columnPosition = w.columnPosition ∧ w'.rowPosition = w.rowPosition ∧
      w'.colorCode = w.colorCode ∧ ∀ x < n * 80, w'.buffer x = blank w.colorCode := by
  induction n with
  | zero => exact ⟨rfl, rfl, rfl, fun x hx => absurd hx (by omega)⟩
  | succ n ih =>
    obtain ⟨hcol, hrow, hcolor, hcells⟩ := ih
    rw [List.range_succ, List.foldl_append]
    refine ⟨hcol, hrow, hcolor, ?_⟩
    intro x hx
    show clearCells _ n 80 _ x = _
    rw [clearCells_apply, hcolor]
    by_cases hlast : n * 80 ≤ x ∧ x < n * 80 + 80
    · rw [if_pos hlast]
    · rw [if_neg hlast]
      exact hcells x (by omega)

theorem clearScreen_spec (w : Writer) :
    w.clearScreen.columnPosition = w.columnPosition ∧
      w.clearScreen.rowPosition = w.rowPosition ∧
      w.clearScreen.colorCode = w.colorCode ∧ w.clearScreen.Cleared := by
  obtain ⟨hcol, hrow, hcolor, hcells⟩ := clearRows_spec 25 w
  refine ⟨hcol, hrow, hcolor, ?_⟩
  intro r c hr hc
  show ((List.range 25).foldl clearRow w).buffer (r * 80 + c) =
    blank ((List.range 25).foldl clearRow w).colorCode
  rw [hcells _ (by omega), hcolor]

end Writer

/-! ## The rows of the page -/

/-- What a byte does on a terminal. -/
def opOf (colorCode : UInt8) (byte : UInt8) : Op ScreenChar :=
  if byte = 0x0A then .feed
  else if byte = 0x0D then .home
  else .put ⟨byte, colorCode⟩

variable {color : UInt8} {w : Writer} {p : Page ScreenChar (blank color)}

/-- What is on the screen for a page.  A terminal that is on row `k` of the page has scrolled
`k - 24` rows out, and its cursor is on row `min k 24` of the screen.  The rows that were started
on the last row of the screen are where they are on the terminal.  Above them there is a row of
the page on every second row of the screen. -/
def crept (p : Page ScreenChar (blank color)) (r c : Nat) : ScreenChar :=
  let j := r + (p.row - 24)
  let low := min p.row 24
  if low ≤ j then p.cells j c
  else if (j + low) % 2 = 0 then p.cells ((j + low) / 2) c
  else blank color

theorem crept_low {r j : Nat} (c : Nat) (hj : r + (p.row - 24) = j) (h : min p.row 24 ≤ j) :
    crept p r c = p.cells j c := by
  subst hj
  exact if_pos h

theorem crept_above {r j : Nat} (c : Nat) (hj : r + (p.row - 24) = j) (h : j < min p.row 24) :
    crept p r c =
      if (j + min p.row 24) % 2 = 0 then p.cells ((j + min p.row 24) / 2) c else blank color := by
  subst hj
  exact if_neg (Nat.not_le.2 h)

/-- The screen of the writer has the rows of the page. -/
structure Creeps (w : Writer) (p : Page ScreenChar (blank color)) : Prop where
  row : w.rowPosition = min p.row 24
  col : w.columnPosition = p.col
  color : w.colorCode = color
  cells : ∀ r c, r < 25 → c < 80 → w.buffer (r * 80 + c) = crept p r c

theorem crept_feed {r : Nat} (hr : r < 25) (c : Nat) :
    crept p.feed r c = if r < 24 then crept p (r + 1) c else blank color := by
  have hfeed : p.feed.row = p.row + 1 := rfl
  have hcells : p.feed.cells = p.cells := rfl
  by_cases hlast : r < 24
  swap
  · rw [if_neg hlast, crept_low c rfl (by omega), hcells]
    exact p.fresh _ c (by omega)
  rw [if_pos hlast]
  by_cases hscroll : p.row < 24
  swap
  · -- the last row is left, and both cells are the same one of the page
    have hj : r + (p.feed.row - 24) = r + 1 + (p.row - 24) := by omega
    have hlow : min p.feed.row 24 = min p.row 24 := by omega
    unfold crept
    rw [hj, hlow, hcells]
  by_cases hbelow : p.row < r + 1
  · rw [crept_low (p := p) c rfl (by omega), p.fresh _ c (by omega)]
    by_cases hnew : p.row < r
    · rw [crept_low c rfl (by omega), hcells]
      exact p.fresh _ c (by omega)
    · rw [crept_above c rfl (by omega), if_neg (by omega)]
  · rw [crept_above c rfl (by omega), hcells]
    by_cases hcur : p.row = r + 1
    · rw [if_pos (by omega), crept_low (p := p) c rfl (by omega)]
      congr 1
      omega
    · rw [crept_above (p := p) c rfl (by omega),
        show r + (p.feed.row - 24) + min p.feed.row 24 = r + 1 + (p.row - 24) + min p.row 24
          by omega]

theorem Creeps.newLine (h : Creeps w p) : Creeps w.newLine p.feed := by
  have hrow := h.row
  refine ⟨?_, rfl, h.color, ?_⟩
  · rw [w.newLine_row, hrow]
    show min (min p.row 24 + 1) 24 = min (p.row + 1) 24
    omega
  · intro r c hr hc
    rw [w.newLine_buffer hr hc, crept_feed hr, h.color]
    by_cases hlast : r < 24
    · rw [if_pos hlast, if_pos hlast, h.cells _ _ (by omega) hc]
    · rw [if_neg hlast, if_neg hlast]

/-- The row of the cursor is the only one that shows the last row of the page. -/
theorem crept_set (a : ScreenChar) {r : Nat} (c : Nat) :
    crept (p.set a) r c = if r = min p.row 24 ∧ c = p.col then a else crept p r c := by
  by_cases hlow : min p.row 24 ≤ r + (p.row - 24)
  · rw [crept_low (p := p) c rfl hlow]
    refine (crept_low (p := p.set a) c rfl hlow).trans ?_
    have hcur : r + (p.row - 24) = p.row ∧ c = p.col ↔ r = min p.row 24 ∧ c = p.col := by
      omega
    show (if r + (p.row - 24) = p.row ∧ c = p.col then a else p.cells (r + (p.row - 24)) c) = _
    simp only [hcur]
  · have habove : r + (p.row - 24) < min p.row 24 := by omega
    have hother : ¬ (r = min p.row 24 ∧ c = p.col) := by omega
    rw [crept_above (p := p) c rfl habove, if_neg hother]
    refine (crept_above (p := p.set a) c rfl habove).trans ?_
    have hcur : ¬ ((r + (p.row - 24) + min p.row 24) / 2 = p.row ∧ c = p.col) := by omega
    show (if (r + (p.row - 24) + min p.row 24) % 2 = 0 then
      (if (r + (p.row - 24) + min p.row 24) / 2 = p.row ∧ c = p.col then a else
        p.cells ((r + (p.row - 24) + min p.row 24) / 2) c) else blank color) = _
    rw [if_neg hcur]

theorem Creeps.put (h : Creeps w p) (byte : UInt8) (hcol : w.columnPosition < 80) :
    Creeps (w.put byte hcol) (p.set ⟨byte, color⟩) := by
  have hrow := h.row
  refine ⟨h.row, congrArg (· + 1) h.col, h.color, ?_⟩
  intro r c hr hc
  show Function.update w.buffer (w.rowPosition * 80 + w.columnPosition) ⟨byte, w.colorCode⟩
    (r * 80 + c) = _
  rw [crept_set, ← h.row, ← h.col, h.color]
  by_cases hcur : r = w.rowPosition ∧ c = w.columnPosition
  · rw [if_pos hcur, hcur.1, hcur.2, Function.update_self]
  · rw [if_neg hcur, Function.update_of_ne (by omega), h.cells r c hr hc]

theorem Creeps.writeByte (h : Creeps w p) (byte : UInt8) :
    Creeps (w.writeByte byte) (p.step 80 (opOf color byte)) := by
  unfold Writer.writeByte opOf
  by_cases hfeed : byte = 0x0A
  · rw [if_pos hfeed, if_pos hfeed]
    exact h.newLine
  rw [if_neg hfeed, if_neg hfeed]
  by_cases hhome : byte = 0x0D
  · rw [if_pos hhome, if_pos hhome]
    exact ⟨h.row, rfl, h.color, h.cells⟩
  rw [if_neg hhome, if_neg hhome]
  show Creeps _ ((if 80 ≤ p.col then p.feed else p).set ⟨byte, color⟩)
  rw [← h.col]
  by_cases hfull : 80 ≤ w.columnPosition
  · rw [if_pos hfull]
    refine Eq.subst (motive := fun x => Creeps x _) (dif_pos hfull).symm ?_
    exact h.newLine.put byte _
  · rw [if_neg hfull]
    refine Eq.subst (motive := fun x => Creeps x _) (dif_neg hfull).symm ?_
    exact h.put byte _

theorem Creeps.run (h : Creeps w p) (s : List UInt8) :
    Creeps (w.writeStr s) (p.run 80 (s.map (opOf color))) := by
  induction s generalizing w p with
  | nil => exact h
  | cons byte s ih => exact ih (h.writeByte byte)

/-! ## The screen of a terminal -/

/-- The page with what is written from the cursor of the writer on. -/
def pageOf (w : Writer) (s : List UInt8) : Page ScreenChar (blank w.colorCode) :=
  (Page.start (blank w.colorCode) w.rowPosition w.columnPosition).run 80
    (s.map (opOf w.colorCode))

/-- The terminal on which the same is written. -/
def terminalOf (w : Writer) (s : List UInt8) : Terminal ScreenChar :=
  (Terminal.start (blank w.colorCode) w.rowPosition w.columnPosition).run 24 80
    (blank w.colorCode) (s.map (opOf w.colorCode))

theorem shows_terminalOf (w : Writer) (s : List UInt8) :
    Shows 24 (terminalOf w s) (pageOf w s) :=
  (shows_start (Nat.le_of_lt_succ w.row_lt) w.columnPosition).run _

/-- What is written is on the screen as on a terminal, and each row is there while there are no
more than 25. -/
structure ShowsLines (w : Writer) (s : List UInt8) : Prop where
  same : ∀ r c, r < 25 → c < 80 →
    (w.writeStr s).buffer (r * 80 + c) = (terminalOf w s).cells r c
  kept : (pageOf w s).row < w.rowPosition + 25 →
    ∀ i c, w.rowPosition ≤ i → i ≤ (pageOf w s).row → c < 80 →
      (w.writeStr s).buffer ((i - ((pageOf w s).row - 24)) * 80 + c) = (pageOf w s).cells i c

/-- The rows that were left when the cursor was above the last row of the screen, and are still on
the screen of the terminal, hold nothing but blanks. -/
def UpperRowsBlank (p : Page ScreenChar (blank color)) : Prop :=
  ∀ i c, i < min p.row 24 → p.row ≤ i + 24 → c < 80 → p.cells i c = blank color

/-- Half the way to the lowest cursor row is one of the rows that are above it, so that all of
them are like the lowest, which is blank. -/
theorem upperRowsBlank_iff :
    UpperRowsBlank p ↔
      ∀ r c, r < 25 → c < 80 → crept p r c = p.cells (r + (p.row - 24)) c := by
  constructor
  · intro h r c hr hc
    by_cases hlow : min p.row 24 ≤ r + (p.row - 24)
    · exact crept_low c rfl hlow
    · rw [crept_above c rfl (by omega), h _ c (Nat.not_le.1 hlow) (by omega) hc]
      split
      · exact h _ c (by omega) (by omega) hc
      · rfl
  · intro h i c hi hrow hc
    -- by induction on the distance from the lowest cursor row
    obtain ⟨n, hn⟩ : ∃ n, n = min p.row 24 - i := ⟨_, rfl⟩
    induction n using Nat.strongRecOn generalizing i with
    | _ n ih =>
      have hscreen := h (i - (p.row - 24)) c (by omega) hc
      have hplace : i - (p.row - 24) + (p.row - 24) = i := by omega
      rw [crept_above c hplace hi, hplace] at hscreen
      rw [← hscreen]
      split
      · exact ih (min p.row 24 - (i + min p.row 24) / 2) (by omega) _ (by omega) (by omega) rfl
      · rfl

namespace Writer

theorem Cleared.creeps (hclear : w.Cleared) (s : List UInt8) :
    Creeps (w.writeStr s) (pageOf w s) := by
  have hrow : w.rowPosition < 25 := w.row_lt
  have hstart : Creeps w (Page.start (blank w.colorCode) w.rowPosition w.columnPosition) := by
    refine ⟨?_, rfl, rfl, ?_⟩
    · show w.rowPosition = min w.rowPosition 24
      omega
    · intro r c hr hc
      rw [hclear r c hr hc]
      show blank _ = if _ then blank _ else if _ then blank _ else blank _
      rw [ite_self, ite_self]
  exact hstart.run s

theorem Cleared.same_iff (hclear : w.Cleared) (s : List UInt8) :
    (∀ r c, r < 25 → c < 80 →
      (w.writeStr s).buffer (r * 80 + c) = (terminalOf w s).cells r c) ↔
      UpperRowsBlank (pageOf w s) := by
  have hcreeps := hclear.creeps s
  have hshows := shows_terminalOf w s
  rw [upperRowsBlank_iff]
  constructor
  · intro h r c hr hc
    rw [← hcreeps.cells r c hr hc, h r c hr hc, hshows.cells r c (by omega)]
  · intro h r c hr hc
    rw [hcreeps.cells r c hr hc, h r c hr hc, hshows.cells r c (by omega)]

end Writer

/-- On a cleared screen the writer shows what a terminal shows if and only if the rows that it
moves up too early are blank. -/
theorem showsLines_iff (w : Writer) (s : List UInt8) :
    ShowsLines w.clearScreen s ↔ UpperRowsBlank (pageOf w.clearScreen s) := by
  have hclear := w.clearScreen_spec.2.2.2
  rw [← hclear.same_iff]
  constructor
  · intro h
    exact h.same
  · intro h
    refine ⟨h, ?_⟩
    intro hrow i c hfirst hlast hc
    rw [h _ c (by omega) hc, (shows_terminalOf _ s).cells _ c (by omega)]
    congr 1
    omega

/-- The writer of the kernel. -/
def WRITER : Writer where
  columnPosition := 0
  rowPosition := 0
  colorCode := 0x0A
  buffer _ := ⟨0, 0⟩
  column_le := Nat.zero_le _
  row_lt := by decide

/-- `A` and a line feed leave the letter on no row. -/
theorem not_showsLines : ¬ ShowsLines WRITER.clearScreen [0x41, 0x0A] := by
  intro h
  obtain ⟨hcol, hrow, hcolor, hclear⟩ := WRITER.clearScreen_spec
  have hblank := (hclear.same_iff _).1 h.same
  generalize WRITER.clearScreen = w at hcol hrow hcolor hblank
  obtain ⟨col, row, color, buffer, hle, hlt⟩ := w
  obtain rfl : col = 0 := hcol
  obtain rfl : row = 0 := hrow
  obtain rfl : color = 0x0A := hcolor
  have hpage : UpperRowsBlank ((Page.start (blank 0x0A) 0 0).run 80
      ([0x41, 0x0A].map (opOf 0x0A))) := hblank
  have hcell := hpage 0 0 (by decide) (by decide) (by decide)
  exact absurd hcell (by decide)

end AeroOS.Vga
