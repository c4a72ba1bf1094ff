import Mathlib.Data.List.Basic

/-!
# Terminals

A terminal puts values into the cells of a screen, from left to right and from top to bottom.
Rows have `w` cells, and `h` is the number of the last row.

* `Page` is a sheet without an end, and holds all rows that were started.
* `Terminal` has the rows up to `h`, and scrolls by one row when it leaves the last one.
* `Shows.run`: the terminal shows the last rows of the page.
-/

namespace AeroOS.Terminals

variable {α : Type*} {blank : α}

inductive Op (α : Type*) where
  | put (a : α)
  /-- Back to the first cell of the row. -/
  | home
  /-- To the next row. -/
  | feed

/-! ## Pages -/

/-- What is written so far; the row `row` is the last one that was started. -/
structure Page (α : Type*) (blank : α) where
  row : Nat
  col : Nat
  cells : Nat → Nat → α
  fresh : ∀ i c, row < i → cells i c = blank

namespace Page

/-- An empty page with the cursor at a cell. -/
def start (blank : α) (row col : Nat) : Page α blank where
  row := row
  col := col
  cells _ _ := blank
  fresh _ _ _ := rfl

def feed (p : Page α blank) : Page α blank where
  row := p.row + 1
  col := 0
  cells := p.cells
  fresh i c h := p.fresh i c (by omega)

def home (p : Page α blank) : Page α blank := { p with col := 0 }

/-- Put a value into the cell under the cursor. -/
def set (p : Page α blank) (a : α) : Page α blank where
  row := p.row
  col := p.col + 1
  cells i c := if i = p.row ∧ c = p.col then a else p.cells i c
  fresh i c h := by
    rw [if_neg (by omega)]
    exact p.fresh i c h

def step (w : Nat) (p : Page α blank) : Op α → Page α blank
  | .put a => (if w ≤ p.col then p.feed else p).set a
  | .home => p.home
  | .feed => p.feed

def run (w : Nat) (ops : List (Op α)) (p : Page α blank) : Page α blank := ops.foldl (step w) p

end Page

/-! ## The terminal -/

structure Terminal (α : Type*) where
  row : Nat
  col : Nat
  cells : Nat → Nat → α

namespace Terminal

def start (blank : α) (row col : Nat) : Terminal α := ⟨row, col, fun _ _ => blank⟩

/-- Every row moves up, and the last one is empty. -/
def scroll (h : Nat) (blank : α) (t : Terminal α) : Terminal α :=
  { t with cells := fun r c => if r < h then t.cells (r + 1) c else blank }

def feed (h : Nat) (blank : α) (t : Terminal α) : Terminal α :=
  if t.row < h then { t with row := t.row + 1, col := 0 } else { t.scroll h blank with col := 0 }

def set (t : Terminal α) (a : α) : Terminal α where
  row := t.row
  col := t.col + 1
  cells r c := if r = t.row ∧ c = t.col then a else t.cells r c

def step (h w : Nat) (blank : α) (t : Terminal α) : Op α → Terminal α
  | .put a => (if w ≤ t.col then t.feed h blank else t).set a
  | .home => { t with col := 0 }
  | .feed => t.feed h blank

def run (h w : Nat) (blank : α) (ops : List (Op α)) (t : Terminal α) : Terminal α :=
  ops.foldl (step h w blank) t

end Terminal

/-! ## The terminal shows the page -/

/-- The screen has the rows of the page from some row on, and the cursor is where it is on the
page. -/
structure Shows (h : Nat) (t : Terminal α) (p : Page α blank) : Prop where
  row : t.row = min p.row h
  col : t.col = p.col
  cells : ∀ r c, r ≤ h → t.cells r c = p.cells (r + (p.row - h)) c

variable {h w : Nat} {t : Terminal α} {p : Page α blank}

theorem Shows.feed (hs : Shows h t p) : Shows h (t.feed h blank) p.feed := by
  have hrow := hs.row
  unfold Terminal.feed
  by_cases hlast : t.row < h
  · rw [if_pos hlast]
    refine ⟨?_, rfl, ?_⟩
    · show t.row + 1 = min (p.row + 1) h
      omega
    · intro r c hr
      show t.cells r c = p.cells (r + (p.row + 1 - h)) c
      rw [hs.cells r c hr, show p.row + 1 - h = p.row - h by omega]
  · rw [if_neg hlast]
    refine ⟨?_, rfl, ?_⟩
    · show t.row = min (p.row + 1) h
      omega
    · intro r c hr
      show (if r < h then t.cells (r + 1) c else blank) = p.cells (r + (p.row + 1 - h)) c
      by_cases hlt : r < h
      · rw [if_pos hlt, hs.cells (r + 1) c hlt,
          show r + 1 + (p.row - h) = r + (p.row + 1 - h) by omega]
      · rw [if_neg hlt, p.fresh _ c (by omega)]

theorem Shows.set (hs : Shows h t p) (a : α) : Shows h (t.set a) (p.set a) := by
  have hrow := hs.row
  refine ⟨hs.row, congrArg (· + 1) hs.col, ?_⟩
  intro r c hr
  show (if r = t.row ∧ c = t.col then a else t.cells r c) =
    if r + (p.row - h) = p.row ∧ c = p.col then a else p.cells (r + (p.row - h)) c
  have hcur : r = t.row ∧ c = p.col ↔ r + (p.row - h) = p.row ∧ c = p.col := by omega
  rw [hs.cells r c hr, hs.col]
  simp only [hcur]

theorem Shows.step (hs : Shows h t p) (op : Op α) :
    Shows h (t.step h w blank op) (p.step w op) := by
  cases op with
  | put a =>
    show Shows h ((if w ≤ t.col then t.feed h blank else t).set a)
      ((if w ≤ p.col then p.feed else p).set a)
    rw [hs.col]
    by_cases hfull : w ≤ p.col
    · rw [if_pos hfull, if_pos hfull]
      exact hs.feed.set a
    · rw [if_neg hfull, if_neg hfull]
      exact hs.set a
  | home => exact ⟨hs.row, rfl, hs.cells⟩
  | feed => exact hs.feed

theorem Shows.run (hs : Shows h t p) (ops : List (Op α)) :
    Shows h (t.run h w blank ops) (p.run w ops) := by
  induction ops generalizing t p with
  | nil => exact hs
  | cons op ops ih => exact ih (hs.step op)

theorem shows_start {row : Nat} (hrow : row ≤ h) (col : Nat) :
    Shows h (Terminal.start blank row col) (Page.start blank row col) :=
  ⟨(Nat.min_eq_left hrow).symm, rfl, fun _ _ _ => rfl⟩

end AeroOS.Terminals
