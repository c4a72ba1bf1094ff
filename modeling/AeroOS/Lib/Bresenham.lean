import Mathlib.Tactic.Linarith
import Mathlib.Tactic.Ring

/-!
# Bresenham's line

The walk along a line with the distances `dx` and `dy`, as a walk on the distances that are left.

* `step` moves by one in a coordinate, or in both, as the error term says.
* `Flat` is the invariant of a line that is not steep: the error is what the distances that are
  left say, and lies in an interval of length `3 * dx - dy`.
* `step_swap`: a steep line is a line that is not steep, with the coordinates exchanged.
* `OnLine.step`: in each step of either the larger distance drops by one.
-/

namespace AeroOS.Bresenham

/-- The error term and the distances that are left. -/
structure State where
  err : Int
  x : Int
  y : Int

variable {dx dy : Int} {s : State}

/-- The step moves in `x`. -/
def MovesX (dy : Int) (s : State) : Prop := -dy < 2 * s.err

/-- The step moves in `y`. -/
def MovesY (dx : Int) (s : State) : Prop := 2 * s.err < dx

instance : Decidable (MovesX dy s) := inferInstanceAs (Decidable (_ < _))

instance : Decidable (MovesY dx s) := inferInstanceAs (Decidable (_ < _))

def step (dx dy : Int) (s : State) : State where
  err := s.err - (if MovesX dy s then dy else 0) + (if MovesY dx s then dx else 0)
  x := if MovesX dy s then s.x - 1 else s.x
  y := if MovesY dx s then s.y - 1 else s.y

/-- The larger of the distances that are left. -/
def State.left (s : State) : Int := max s.x s.y

/-! ## Lines that are not steep -/

/-- The invariant of a line with `dy ≤ dx`. -/
structure Flat (dx dy : Int) (s : State) : Prop where
  le : dy ≤ dx
  pos : 0 < dx
  dy_nonneg : 0 ≤ dy
  x_nonneg : 0 ≤ s.x
  y_nonneg : 0 ≤ s.y
  err : s.err = dx - dy + dy * s.x - dx * s.y
  lower : -dy < 2 * s.err
  upper : 2 * s.err < 3 * dx - 2 * dy

/-- The slower coordinate is not behind. -/
theorem Flat.y_le_x (h : Flat dx dy s) : s.y ≤ s.x := by
  have herr := h.err
  have hlower := h.lower
  have hle := mul_le_mul_of_nonneg_right h.le h.x_nonneg
  by_contra hlt
  have hmul : dx * (s.x + 1) ≤ dx * s.y := mul_le_mul_of_nonneg_left (by omega) h.pos.le
  rw [mul_add] at hmul
  have hdy := h.dy_nonneg
  linarith

/-- Every step moves in the faster coordinate, and the slower one does not run past its end. -/
theorem Flat.step (h : Flat dx dy s) (hx : s.x ≠ 0) :
    Flat dx dy (step dx dy s) ∧ MovesX dy s ∧ (MovesY dx s → 0 < s.y) := by
  have hmove : MovesX dy s := h.lower
  have hnonneg := h.x_nonneg
  have hpos := h.pos
  have hy : MovesY dx s → 0 < s.y := by
    intro hm
    have herr := h.err
    have hmul : dy * 1 ≤ dy * s.x := mul_le_mul_of_nonneg_left (by omega) h.dy_nonneg
    unfold MovesY at hm
    by_contra hzero
    have hy0 : s.y = 0 := le_antisymm (not_lt.1 hzero) h.y_nonneg
    rw [hy0, mul_zero] at herr
    linarith
  refine ⟨?_, hmove, hy⟩
  by_cases hm : MovesY dx s
  · have hm' := hm
    unfold MovesY at hm'
    have hs : Bresenham.step dx dy s = ⟨s.err - dy + dx, s.x - 1, s.y - 1⟩ := by
      simp only [Bresenham.step, if_pos hmove, if_pos hm]
    rw [hs]
    refine ⟨h.le, h.pos, h.dy_nonneg, by show 0 ≤ s.x - 1; omega, ?_, ?_, ?_, ?_⟩
    · have := hy hm
      show 0 ≤ s.y - 1
      omega
    · show s.err - dy + dx = dx - dy + dy * (s.x - 1) - dx * (s.y - 1)
      rw [h.err]
      ring
    · have hlower := h.lower
      have hle := h.le
      show -dy < 2 * (s.err - dy + dx)
      linarith
    · show 2 * (s.err - dy + dx) < 3 * dx - 2 * dy
      linarith
  · have hm' := hm
    unfold MovesY at hm'
    have hs : Bresenham.step dx dy s = ⟨s.err - dy, s.x - 1, s.y⟩ := by
      simp only [Bresenham.step, if_pos hmove, if_neg hm, add_zero]
    have hupper := h.upper
    have hdy := h.dy_nonneg
    rw [hs]
    refine ⟨h.le, h.pos, h.dy_nonneg, by show 0 ≤ s.x - 1; omega, h.y_nonneg, ?_, ?_, ?_⟩
    · show s.err - dy = dx - dy + dy * (s.x - 1) - dx * s.y
      rw [h.err]
      ring
    · -- the step without a move in `y` leaves enough error, since the line is no diagonal
      show -dy < 2 * (s.err - dy)
      linarith
    · show 2 * (s.err - dy) < 3 * dx - 2 * dy
      linarith

/-! ## Steep lines -/

def State.swap (s : State) : State := ⟨-s.err, s.y, s.x⟩

theorem movesX_swap : MovesX dx s.swap ↔ MovesY dx s := by
  show -dx < 2 * -s.err ↔ 2 * s.err < dx
  omega

theorem movesY_swap : MovesY dy s.swap ↔ MovesX dy s := by
  show 2 * -s.err < dy ↔ -dy < 2 * s.err
  omega

theorem step_swap (dx dy : Int) (s : State) : step dy dx s.swap = (step dx dy s).swap := by
  unfold step State.swap
  have hx : MovesX dx ⟨-s.err, s.y, s.x⟩ ↔ MovesY dx s := movesX_swap
  have hy : MovesY dy ⟨-s.err, s.y, s.x⟩ ↔ MovesX dy s := movesY_swap
  simp only [hx, hy]
  congr 1
  ring

/-! ## All lines -/

/-- The invariant. -/
def OnLine (dx dy : Int) (s : State) : Prop := Flat dx dy s ∨ Flat dy dx s.swap

theorem onLine_start (hdx : 0 ≤ dx) (hdy : 0 ≤ dy) (h : dx ≠ 0 ∨ dy ≠ 0) :
    OnLine dx dy ⟨dx - dy, dx, dy⟩ := by
  by_cases hle : dy ≤ dx
  · refine Or.inl ⟨hle, by omega, hdy, hdx, hdy, ?_, ?_, ?_⟩
    · show dx - dy = dx - dy + dy * dx - dx * dy
      ring
    · show -dy < 2 * (dx - dy)
      omega
    · show 2 * (dx - dy) < 3 * dx - 2 * dy
      omega
  · refine Or.inr ⟨by omega, by omega, hdx, hdy, hdx, ?_, ?_, ?_⟩
    · show -(dx - dy) = dy - dx + dx * dy - dy * dx
      ring
    · show -dx < 2 * -(dx - dy)
      omega
    · show 2 * -(dx - dy) < 3 * dy - 2 * dx
      omega

/-- What a step does to the distances that are left. -/
structure Nears (s s' : State) : Prop where
  x : s'.x = s.x ∨ s'.x = s.x - 1
  y : s'.y = s.y ∨ s'.y = s.y - 1
  left : s'.left = s.left - 1

theorem Flat.nears (h : Flat dx dy s) (hx : s.x ≠ 0) : Nears s (Bresenham.step dx dy s) := by
  obtain ⟨hflat, hmove, -⟩ := h.step hx
  have hsx : (Bresenham.step dx dy s).x = s.x - 1 := if_pos hmove
  refine ⟨Or.inr hsx, ?_, ?_⟩
  · by_cases hm : MovesY dx s
    · exact Or.inr (if_pos hm)
    · exact Or.inl (if_neg hm)
  · show max _ _ = max _ _ - 1
    rw [max_eq_left hflat.y_le_x, max_eq_left h.y_le_x, hsx]

theorem Nears.swap {s' : State} (h : Nears s.swap s'.swap) : Nears s s' := by
  refine ⟨h.y, h.x, ?_⟩
  have hleft : max s'.y s'.x = max s.y s.x - 1 := h.left
  rw [max_comm, max_comm s.y] at hleft
  exact hleft

/-- The walk stays on the line, and its larger distance drops by one. -/
theorem OnLine.step (h : OnLine dx dy s) (hleft : s.x ≠ 0 ∨ s.y ≠ 0) :
    OnLine dx dy (step dx dy s) ∧ Nears s (Bresenham.step dx dy s) := by
  rcases h with h | h
  · have hyx := h.y_le_x
    have hy := h.y_nonneg
    have hx : s.x ≠ 0 := by omega
    exact ⟨Or.inl (h.step hx).1, h.nears hx⟩
  · have hyx : s.x ≤ s.y := h.y_le_x
    have hx : 0 ≤ s.x := h.y_nonneg
    have hy : s.swap.x ≠ 0 := by
      show s.y ≠ 0
      omega
    have hflat := (h.step hy).1
    have hnears := h.nears hy
    rw [step_swap] at hflat hnears
    exact ⟨Or.inr hflat, hnears.swap⟩

theorem OnLine.nonneg (h : OnLine dx dy s) : 0 ≤ s.x ∧ 0 ≤ s.y := by
  rcases h with h | h
  · exact ⟨h.x_nonneg, h.y_nonneg⟩
  · exact ⟨h.y_nonneg, h.x_nonneg⟩

/-- The error term is small. -/
theorem OnLine.err_bounds (h : OnLine dx dy s) {b : Int} (hdx : dx ≤ b) (hdy : dy ≤ b) :
    -(2 * b) < s.err ∧ s.err < 2 * b := by
  rcases h with h | h
  · have hlower := h.lower
    have hupper := h.upper
    have hpos := h.pos
    have hnonneg := h.dy_nonneg
    omega
  · have hlower : -dx < 2 * -s.err := h.lower
    have hupper : 2 * -s.err < 3 * dy - 2 * dx := h.upper
    have hpos := h.pos
    have hnonneg := h.dy_nonneg
    omega

end AeroOS.Bresenham
