import AeroOS.Lib.Bresenham
import AeroOS.Lib.Bytes
import Mathlib.Data.List.Chain

/-!
# The software renderer

`render.rs`: the pixels of the off-screen buffer, and the lines.

* `OnCursor` connects the loop of `draw_line` to the walk on the distances that are left, and says
  that no `i64` wraps.
* `lineLoop_eq`: the loop puts a pixel for each point of a path, and ends at its last one.
* `drawLine_eq`: the path of every line.
-/

namespace AeroOS.FlutterShell

open Bytes Bresenham

structure Color where
  r : UInt8
  g : UInt8
  b : UInt8
  deriving DecidableEq, Repr

def MAX_WIDTH : Nat := 1280
def MAX_HEIGHT : Nat := 720
def BPP : Nat := 4

structure Renderer where
  width : UInt32
  height : UInt32

/-- `put_pixel` on the bytes of `OFFSCREEN`. -/
def Renderer.putPixel (r : Renderer) (buf : Store) (x y : UInt32) (color : Color) : Store :=
  if x ≥ r.width ∨ y ≥ r.height then buf
  else
    let offset := (y.toNat * r.width.toNat + x.toNat) * BPP % 2 ^ 64
    if (offset + BPP) % 2 ^ 64 > MAX_WIDTH * MAX_HEIGHT * BPP then buf
    else writeBytes buf offset [color.b, color.g, color.r, 0]

/-! ## Lines -/

/-- A result of `i64` arithmetic. -/
def i64 (x : Int) : Int := Int.bmod x (2 ^ 64)

/-- What the loop does not change. -/
structure Line where
  dx : Int
  dy : Int
  sx : Int
  sy : Int
  x1 : Int
  y1 : Int

/-- What it changes. -/
structure Cursor where
  err : Int
  cx : Int
  cy : Int

/-- The last three lines of the loop. -/
def Line.next (l : Line) (c : Cursor) : Cursor :=
  let e2 := i64 (2 * c.err)
  let c := if e2 > i64 (-l.dy) then
    { c with err := i64 (c.err - l.dy), cx := i64 (c.cx + l.sx) } else c
  if e2 < l.dx then { c with err := i64 (c.err + l.dx), cy := i64 (c.cy + l.sy) } else c

/-- The loop, in at most `fuel` rounds; `put` is `put_pixel` with the colour of the line. -/
def lineLoop {σ : Type} (put : σ → UInt32 → UInt32 → σ) (l : Line) : Nat → Cursor → σ → Option σ
  | 0, _, _ => none
  | fuel + 1, c, s =>
    let s := put s (UInt32.ofInt c.cx) (UInt32.ofInt c.cy)
    if c.cx = l.x1 ∧ c.cy = l.y1 then some s
    else lineLoop put l fuel (l.next c) s

/-- The line from one point to another. -/
def lineOf (x0 y0 x1 y1 : UInt32) : Line where
  dx := i64 |i64 (x1.toNat - x0.toNat)|
  dy := i64 |i64 (y1.toNat - y0.toNat)|
  sx := if x0 < x1 then 1 else -1
  sy := if y0 < y1 then 1 else -1
  x1 := x1.toNat
  y1 := y1.toNat

/-- `draw_line`, with the calls of `put_pixel` as calls of `put`. -/
def drawLine {σ : Type} (put : σ → UInt32 → UInt32 → σ) (x0 y0 x1 y1 : UInt32) (fuel : Nat)
    (s : σ) : Option σ :=
  let l := lineOf x0 y0 x1 y1
  lineLoop put l fuel ⟨i64 (l.dx - l.dy), x0.toNat, y0.toNat⟩ s

/-- `draw_line` on the off-screen buffer. -/
def Renderer.drawLine (r : Renderer) (x0 y0 x1 y1 : UInt32) (color : Color) (fuel : Nat)
    (buf : Store) : Option Store :=
  FlutterShell.drawLine (fun buf x y => r.putPixel buf x y color) x0 y0 x1 y1 fuel buf

/-! ## The walk of the loop -/

theorem i64_eq {x : Int} (h : -2 ^ 63 ≤ x) (h' : x < 2 ^ 63) : i64 x = x := by
  apply Int.bmod_eq_of_le
  · exact h
  · exact h'

/-- A line between points of 32 bits. -/
structure Line.Small (l : Line) : Prop where
  dx_nonneg : 0 ≤ l.dx
  dx_lt : l.dx < 2 ^ 32
  dy_nonneg : 0 ≤ l.dy
  dy_lt : l.dy < 2 ^ 32
  sx : l.sx = 1 ∨ l.sx = -1
  sy : l.sy = 1 ∨ l.sy = -1
  x1 : 0 ≤ l.x1 ∧ l.x1 < 2 ^ 32
  y1 : 0 ≤ l.y1 ∧ l.y1 < 2 ^ 32
  x0 : 0 ≤ l.x1 - l.sx * l.dx ∧ l.x1 - l.sx * l.dx < 2 ^ 32
  y0 : 0 ≤ l.y1 - l.sy * l.dy ∧ l.y1 - l.sy * l.dy < 2 ^ 32

/-- The cursor is where the walk is. -/
structure OnCursor (l : Line) (c : Cursor) (s : State) : Prop where
  err : c.err = s.err
  cx : c.cx = l.x1 - l.sx * s.x
  cy : c.cy = l.y1 - l.sy * s.y
  x_nonneg : 0 ≤ s.x
  x_le : s.x ≤ l.dx
  y_nonneg : 0 ≤ s.y
  y_le : s.y ≤ l.dy

variable {l : Line} {c : Cursor} {s : State}

/-- A place between the ends is one of 32 bits. -/
theorem between {d e x n : Int} (hd : d = 1 ∨ d = -1) (he : 0 ≤ e ∧ e < 2 ^ 32)
    (hstart : 0 ≤ e - d * n ∧ e - d * n < 2 ^ 32) (hx : 0 ≤ x) (hxn : x ≤ n) :
    0 ≤ e - d * x ∧ e - d * x < 2 ^ 32 := by
  rcases hd with rfl | rfl
  · omega
  · omega

theorem OnCursor.cx_range (h : OnCursor l c s) (hl : l.Small) : 0 ≤ c.cx ∧ c.cx < 2 ^ 32 := by
  rw [h.cx]
  exact between hl.sx hl.x1 hl.x0 h.x_nonneg h.x_le

theorem OnCursor.cy_range (h : OnCursor l c s) (hl : l.Small) : 0 ≤ c.cy ∧ c.cy < 2 ^ 32 := by
  rw [h.cy]
  exact between hl.sy hl.y1 hl.y0 h.y_nonneg h.y_le

theorem at_end_iff {d e x : Int} (hd : d = 1 ∨ d = -1) : e - d * x = e ↔ x = 0 := by
  rcases hd with rfl | rfl
  · omega
  · omega

/-- The loop ends where nothing is left. -/
theorem OnCursor.ends_iff (h : OnCursor l c s) (hl : l.Small) :
    c.cx = l.x1 ∧ c.cy = l.y1 ↔ s.x = 0 ∧ s.y = 0 := by
  rw [h.cx, h.cy, at_end_iff hl.sx, at_end_iff hl.sy]

/-- Without overflow a round does this. -/
theorem OnCursor.next_eq (h : OnCursor l c s) (hl : l.Small) (hline : OnLine l.dx l.dy s) :
    l.next c = ⟨c.err - (if MovesX l.dy s then l.dy else 0) + (if MovesY l.dx s then l.dx else 0),
      if MovesX l.dy s then c.cx + l.sx else c.cx,
      if MovesY l.dx s then c.cy + l.sy else c.cy⟩ := by
  obtain ⟨hlow, hhigh⟩ := hline.err_bounds hl.dx_lt.le hl.dy_lt.le
  have hcx := h.cx_range hl
  have hcy := h.cy_range hl
  have hdx := hl.dx_nonneg
  have hdx' := hl.dx_lt
  have hdy := hl.dy_nonneg
  have hdy' := hl.dy_lt
  have hsx := hl.sx
  have hsy := hl.sy
  have herr := h.err
  have he2 : i64 (2 * c.err) = 2 * s.err := by
    rw [herr]
    exact i64_eq (by omega) (by omega)
  have hneg : i64 (-l.dy) = -l.dy := i64_eq (by omega) (by omega)
  have hminus : i64 (c.err - l.dy) = c.err - l.dy := i64_eq (by omega) (by omega)
  have hplus : i64 (c.err + l.dx) = c.err + l.dx := i64_eq (by omega) (by omega)
  have hboth : i64 (c.err - l.dy + l.dx) = c.err - l.dy + l.dx := i64_eq (by omega) (by omega)
  have hx : i64 (c.cx + l.sx) = c.cx + l.sx := i64_eq (by omega) (by omega)
  have hy : i64 (c.cy + l.sy) = c.cy + l.sy := i64_eq (by omega) (by omega)
  unfold Line.next
  rw [he2, hneg, hminus, hx]
  by_cases hmx : MovesX l.dy s
  · by_cases hmy : MovesY l.dx s
    · rw [if_pos hmx, if_pos hmx, if_pos hmy, if_pos hmy]
      refine (if_pos hmy).trans ?_
      rw [if_pos (show 2 * s.err > -l.dy from hmx)]
      show (⟨i64 (c.err - l.dy + l.dx), c.cx + l.sx, i64 (c.cy + l.sy)⟩ : Cursor) = _
      rw [hboth, hy]
    · rw [if_pos hmx, if_pos hmx, if_neg hmy, if_neg hmy, Int.add_zero]
      refine (if_neg hmy).trans ?_
      exact if_pos hmx
  · by_cases hmy : MovesY l.dx s
    · rw [if_neg hmx, if_neg hmx, if_pos hmy, if_pos hmy, Int.sub_zero]
      refine (if_pos hmy).trans ?_
      rw [if_neg (show ¬ 2 * s.err > -l.dy from hmx), hplus, hy]
    · rw [if_neg hmx, if_neg hmx, if_neg hmy, if_neg hmy, Int.sub_zero, Int.add_zero]
      refine (if_neg hmy).trans ?_
      exact if_neg hmx

/-- A round of the loop is a step of the walk. -/
theorem OnCursor.next (h : OnCursor l c s) (hl : l.Small) (hline : OnLine l.dx l.dy s)
    (hleft : s.x ≠ 0 ∨ s.y ≠ 0) : OnCursor l (l.next c) (step l.dx l.dy s) := by
  obtain ⟨hline', hnears⟩ := hline.step hleft
  obtain ⟨hx', hy'⟩ := hline'.nonneg
  have hxle := h.x_le
  have hyle := h.y_le
  have hx := hnears.x
  have hy := hnears.y
  rw [h.next_eq hl hline]
  refine ⟨?_, ?_, ?_, hx', by omega, hy', by omega⟩
  · show c.err - _ + _ = s.err - _ + _
    rw [h.err]
  · show (if MovesX l.dy s then c.cx + l.sx else c.cx) =
      l.x1 - l.sx * (if MovesX l.dy s then s.x - 1 else s.x)
    rw [h.cx]
    split
    · ring
    · rfl
  · show (if MovesY l.dx s then c.cy + l.sy else c.cy) =
      l.y1 - l.sy * (if MovesY l.dx s then s.y - 1 else s.y)
    rw [h.cy]
    split
    · ring
    · rfl

/-! ## Paths -/

/-- The distance of two coordinates. -/
def gap (a b : UInt32) : Nat := ((b.toNat : Int) - a.toNat).natAbs

/-- From `p` to `q` it is one step, towards the end of the line. -/
structure Towards (x1 y1 : UInt32) (p q : UInt32 × UInt32) : Prop where
  x : gap p.1 q.1 ≤ 1
  y : gap p.2 q.2 ≤ 1
  x_near : gap q.1 x1 ≤ gap p.1 x1
  y_near : gap q.2 y1 ≤ gap p.2 y1
  near : max (gap q.1 x1) (gap q.2 y1) + 1 = max (gap p.1 x1) (gap p.2 y1)

/-- The points of a line, in order. -/
structure IsPath (x0 y0 x1 y1 : UInt32) (path : List (UInt32 × UInt32)) : Prop where
  length : path.length = max (gap x0 x1) (gap y0 y1) + 1
  first : path.head? = some (x0, y0)
  last : path.getLast? = some (x1, y1)
  steps : path.IsChain (Towards x1 y1)

/-- The point of the cursor. -/
def Cursor.point (c : Cursor) : UInt32 × UInt32 := (UInt32.ofInt c.cx, UInt32.ofInt c.cy)

theorem toNat_ofInt {x : Int} (h : 0 ≤ x ∧ x < 2 ^ 32) : ((UInt32.ofInt x).toNat : Int) = x := by
  have hmod : x % 2 ^ 32 = x := Int.emod_eq_of_lt h.1 h.2
  rw [UInt32.ofInt, hmod, UInt32.toNat_ofNat_of_lt' (show x.toNat < 2 ^ 32 by omega)]
  omega

variable {x1 y1 : UInt32}

/-- What is left in a coordinate is the distance from the end. -/
theorem gap_end {d e x : Int} {b : UInt32} (hd : d = 1 ∨ d = -1) (he : e = b.toNat) (hx : 0 ≤ x)
    (hrange : 0 ≤ e - d * x ∧ e - d * x < 2 ^ 32) :
    (gap (UInt32.ofInt (e - d * x)) b : Int) = x := by
  unfold gap
  rw [toNat_ofInt hrange, ← he]
  rcases hd with rfl | rfl
  · omega
  · omega

/-- The walk knows the distances. -/
theorem OnCursor.gap_x (h : OnCursor l c s) (hl : l.Small) (hx1 : l.x1 = x1.toNat) :
    (gap c.point.1 x1 : Int) = s.x := by
  have hrange := h.cx_range hl
  show (gap (UInt32.ofInt c.cx) x1 : Int) = s.x
  rw [h.cx] at hrange ⊢
  exact gap_end hl.sx hx1 h.x_nonneg hrange

theorem OnCursor.gap_y (h : OnCursor l c s) (hl : l.Small) (hy1 : l.y1 = y1.toNat) :
    (gap c.point.2 y1 : Int) = s.y := by
  have hrange := h.cy_range hl
  show (gap (UInt32.ofInt c.cy) y1 : Int) = s.y
  rw [h.cy] at hrange ⊢
  exact gap_end hl.sy hy1 h.y_nonneg hrange

theorem gap_eq_zero {a b : UInt32} (h : gap a b = 0) : a = b := by
  unfold gap at h
  exact UInt32.toNat.inj (by omega)

/-- A step in a coordinate is one by one. -/
theorem gap_next {d e x x' : Int} (hd : d = 1 ∨ d = -1) (hx : x' = x ∨ x' = x - 1)
    (hp : 0 ≤ e - d * x ∧ e - d * x < 2 ^ 32) (hq : 0 ≤ e - d * x' ∧ e - d * x' < 2 ^ 32) :
    gap (UInt32.ofInt (e - d * x)) (UInt32.ofInt (e - d * x')) ≤ 1 := by
  unfold gap
  rw [toNat_ofInt hp, toNat_ofInt hq]
  rcases hd with rfl | rfl
  · omega
  · omega

theorem OnCursor.towards {c' : Cursor} {s' : State} (h : OnCursor l c s) (h' : OnCursor l c' s')
    (hl : l.Small) (hx1 : l.x1 = x1.toNat) (hy1 : l.y1 = y1.toNat) (hnears : Nears s s') :
    Towards x1 y1 c.point c'.point := by
  have hgx := h.gap_x hl hx1
  have hgy := h.gap_y hl hy1
  have hgx' := h'.gap_x hl hx1
  have hgy' := h'.gap_y hl hy1
  have hx := hnears.x
  have hy := hnears.y
  have hleft : max s'.x s'.y = max s.x s.y - 1 := hnears.left
  refine ⟨?_, ?_, by omega, by omega, by omega⟩
  · show gap (UInt32.ofInt c.cx) (UInt32.ofInt c'.cx) ≤ 1
    have hp := h.cx_range hl
    have hq := h'.cx_range hl
    rw [h.cx] at hp ⊢
    rw [h'.cx] at hq ⊢
    exact gap_next hl.sx hx hp hq
  · show gap (UInt32.ofInt c.cy) (UInt32.ofInt c'.cy) ≤ 1
    have hp := h.cy_range hl
    have hq := h'.cy_range hl
    rw [h.cy] at hp ⊢
    rw [h'.cy] at hq ⊢
    exact gap_next hl.sy hy hp hq

/-- From a cursor on the line the loop puts the points of a path to the end, and no others. -/
theorem lineLoop_eq (hl : l.Small) (hx1 : l.x1 = x1.toNat) (hy1 : l.y1 = y1.toNat) {n : Nat}
    (h : OnCursor l c s) (hline : s.x ≠ 0 ∨ s.y ≠ 0 → OnLine l.dx l.dy s) (hn : s.left = n) :
    ∃ path : List (UInt32 × UInt32), path.length = n + 1 ∧ path.head? = some c.point ∧
      path.getLast? = some (x1, y1) ∧ path.IsChain (Towards x1 y1) ∧
      ∀ {σ : Type} (put : σ → UInt32 → UInt32 → σ) (fuel : Nat) (st : σ),
        lineLoop put l fuel c st =
          if path.length ≤ fuel then some (path.foldl (fun st p => put st p.1 p.2) st)
          else none := by
  have hends := h.ends_iff hl
  have hmax : max s.x s.y = n := hn
  have hx := h.x_nonneg
  have hy := h.y_nonneg
  induction n generalizing c s with
  | zero =>
    have hend : c.cx = l.x1 ∧ c.cy = l.y1 := hends.2 (by omega)
    have hgx := h.gap_x hl hx1
    have hgy := h.gap_y hl hy1
    have hpx : c.point.1 = x1 := gap_eq_zero (by omega)
    have hpy : c.point.2 = y1 := gap_eq_zero (by omega)
    have hpoint : c.point = (x1, y1) := Prod.ext hpx hpy
    refine ⟨[c.point], rfl, rfl, congrArg some hpoint, List.IsChain.singleton _, ?_⟩
    intro σ put fuel st
    cases fuel with
    | zero => rfl
    | succ fuel =>
      rw [if_pos (show [c.point].length ≤ fuel + 1 from Nat.succ_le_succ (Nat.zero_le fuel))]
      exact if_pos hend
  | succ n ih =>
    have hleft : s.x ≠ 0 ∨ s.y ≠ 0 := by omega
    obtain ⟨hline', hnears⟩ := (hline hleft).step hleft
    have hnext := h.next hl (hline hleft) hleft
    have hleft' : (step l.dx l.dy s).left = n := by
      rw [hnears.left, hn]
      omega
    obtain ⟨path, hlen, hhead, hlast, hchain, hrun⟩ :=
      ih hnext (fun _ => hline') hleft' (hnext.ends_iff hl) hleft' hnext.x_nonneg hnext.y_nonneg
    refine ⟨c.point :: path, congrArg (· + 1) hlen, rfl, ?_, ?_, ?_⟩
    · rw [List.getLast?_cons, hlast]
      rfl
    · rw [List.isChain_cons]
      refine ⟨?_, hchain⟩
      intro q hq
      rw [hhead] at hq
      obtain rfl := Option.some.inj hq
      exact h.towards hnext hl hx1 hy1 hnears
    · intro σ put fuel st
      cases fuel with
      | zero => rfl
      | succ fuel =>
        refine (if_neg (mt hends.1 (by omega))).trans ?_
        rw [hrun]
        simp only [List.length_cons, Nat.add_le_add_iff_right]
        rfl

/-! ## Every line -/

theorem dist_eq (a b : UInt32) : i64 |i64 (b.toNat - a.toNat)| = gap a b := by
  have ha : a.toNat < 2 ^ 32 := a.toNat_lt
  have hb : b.toNat < 2 ^ 32 := b.toNat_lt
  have hinner : i64 (b.toNat - a.toNat) = b.toNat - a.toNat := i64_eq (by omega) (by omega)
  rw [hinner, Int.abs_eq_natAbs]
  exact i64_eq (by omega) (by omega)

/-- The direction leads from one end to the other. -/
theorem direction_mul (a b : UInt32) :
    (b.toNat : Int) - (if a < b then 1 else -1) * gap a b = a.toNat := by
  unfold gap
  by_cases h : a < b
  · have hlt : a.toNat < b.toNat := h
    rw [if_pos h]
    omega
  · have hle : b.toNat ≤ a.toNat := Nat.not_lt.1 h
    rw [if_neg h]
    omega

theorem direction_cases (a b : UInt32) :
    (if a < b then (1 : Int) else -1) = 1 ∨ (if a < b then (1 : Int) else -1) = -1 := by
  split
  · exact Or.inl rfl
  · exact Or.inr rfl

theorem gap_lt (a b : UInt32) : (gap a b : Int) < 2 ^ 32 := by
  have ha : a.toNat < 2 ^ 32 := a.toNat_lt
  have hb : b.toNat < 2 ^ 32 := b.toNat_lt
  unfold gap
  omega

theorem toNat_range (a : UInt32) : 0 ≤ (a.toNat : Int) ∧ (a.toNat : Int) < 2 ^ 32 := by
  have ha : a.toNat < 2 ^ 32 := a.toNat_lt
  omega

theorem ofInt_toNat (a : UInt32) : UInt32.ofInt a.toNat = a :=
  UInt32.toNat.inj (Int.ofNat.inj (toNat_ofInt (toNat_range a)))

theorem lineOf_eq (x0 y0 x1 y1 : UInt32) :
    lineOf x0 y0 x1 y1 = ⟨gap x0 x1, gap y0 y1, if x0 < x1 then 1 else -1,
      if y0 < y1 then 1 else -1, x1.toNat, y1.toNat⟩ := by
  rw [lineOf, dist_eq, dist_eq]

theorem small_lineOf (x0 y0 x1 y1 : UInt32) : (lineOf x0 y0 x1 y1).Small := by
  rw [lineOf_eq]
  refine ⟨Int.natCast_nonneg _, gap_lt x0 x1, Int.natCast_nonneg _, gap_lt y0 y1,
    direction_cases x0 x1, direction_cases y0 y1, toNat_range x1, toNat_range y1, ?_, ?_⟩
  · show 0 ≤ (x1.toNat : Int) - _ ∧ (x1.toNat : Int) - _ < 2 ^ 32
    rw [direction_mul]
    exact toNat_range x0
  · show 0 ≤ (y1.toNat : Int) - _ ∧ (y1.toNat : Int) - _ < 2 ^ 32
    rw [direction_mul]
    exact toNat_range y0

/-- The line between any two points is a path of as many points as the larger distance has, and
one more.  The loop puts a pixel for each of them in order, and needs no more rounds. -/
theorem drawLine_eq (x0 y0 x1 y1 : UInt32) :
    ∃ path, IsPath x0 y0 x1 y1 path ∧
      (∀ {σ : Type} (put : σ → UInt32 → UInt32 → σ) (fuel : Nat) (st : σ),
        drawLine put x0 y0 x1 y1 fuel st =
          if path.length ≤ fuel then some (path.foldl (fun st p => put st p.1 p.2) st)
          else none) ∧
      ∀ (r : Renderer) (color : Color) (fuel : Nat) (buf : Store),
        r.drawLine x0 y0 x1 y1 color fuel buf =
          if path.length ≤ fuel then
            some (path.foldl (fun buf p => r.putPixel buf p.1 p.2 color) buf)
          else none := by
  have hl := small_lineOf x0 y0 x1 y1
  have heq := lineOf_eq x0 y0 x1 y1
  have hdx : (lineOf x0 y0 x1 y1).dx = gap x0 x1 := by rw [heq]
  have hdy : (lineOf x0 y0 x1 y1).dy = gap y0 y1 := by rw [heq]
  have hx1 : (lineOf x0 y0 x1 y1).x1 = x1.toNat := rfl
  have hy1 : (lineOf x0 y0 x1 y1).y1 = y1.toNat := rfl
  have hgx := gap_lt x0 x1
  have hgy := gap_lt y0 y1
  have herr : i64 ((gap x0 x1 : Int) - gap y0 y1) = gap x0 x1 - gap y0 y1 :=
    i64_eq (by omega) (by omega)
  have hcursor : OnCursor (lineOf x0 y0 x1 y1)
      ⟨i64 ((lineOf x0 y0 x1 y1).dx - (lineOf x0 y0 x1 y1).dy), x0.toNat, y0.toNat⟩
      ⟨gap x0 x1 - gap y0 y1, gap x0 x1, gap y0 y1⟩ := by
    rw [heq]
    exact ⟨herr, (direction_mul x0 x1).symm, (direction_mul y0 y1).symm,
      Int.natCast_nonneg _, le_rfl, Int.natCast_nonneg _, le_rfl⟩
  have hline : (gap x0 x1 : Int) ≠ 0 ∨ (gap y0 y1 : Int) ≠ 0 →
      OnLine (lineOf x0 y0 x1 y1).dx (lineOf x0 y0 x1 y1).dy
        ⟨gap x0 x1 - gap y0 y1, gap x0 x1, gap y0 y1⟩ := by
    intro hne
    rw [hdx, hdy]
    exact onLine_start (by omega) (by omega) hne
  have hleft : State.left ⟨gap x0 x1 - gap y0 y1, gap x0 x1, gap y0 y1⟩ =
      (max (gap x0 x1) (gap y0 y1) : Nat) := by
    show max (gap x0 x1 : Int) (gap y0 y1) = _
    omega
  obtain ⟨path, hlen, hhead, hlast, hsteps, hrun⟩ :=
    lineLoop_eq hl hx1 hy1 hcursor hline hleft
  refine ⟨path, ⟨hlen, ?_, hlast, hsteps⟩, ?_, ?_⟩
  · rw [hhead, Cursor.point]
    show some (UInt32.ofInt x0.toNat, UInt32.ofInt y0.toNat) = _
    rw [ofInt_toNat, ofInt_toNat]
  · intro σ put fuel st
    exact hrun put fuel st
  · intro r color fuel buf
    exact hrun (fun buf x y => r.putPixel buf x y color) fuel buf

end AeroOS.FlutterShell
