import AeroOS.Lib.Bytes
import AeroOS.Lib.Painting

/-!
# The canvas of the Flutter engine

`framebuffer.rs`: pixels of the mapped framebuffer, and the blit of a rendered frame.

* `blit_eq`: the blit of a frame that is long enough puts every pixel of the clipped rectangle,
  row for row.
* `paints_putPixel`: what a pixel of the frame puts at an address.
* `copies_iff`: when the bytes of the frame get to the framebuffer.

A `u32` wraps, as in a release build.
-/

namespace AeroOS.FlutterAdapter

open Bytes Painting

structure Color where
  r : UInt8
  g : UInt8
  b : UInt8
  deriving DecidableEq, Repr

inductive PixelFormat where
  | rgb
  | bgr
  | unknown
  deriving DecidableEq, Repr

structure FramebufferCanvas where
  len : Nat
  width : UInt32
  height : UInt32
  stride : UInt32
  bpp : UInt32
  format : PixelFormat

/-- The bytes of a colour in the order of the format. -/
def PixelFormat.order : PixelFormat → Color → List UInt8
  | .rgb, color => [color.r, color.g, color.b]
  | .bgr, color => [color.b, color.g, color.r]
  | .unknown, color => [color.r, color.g, color.b]

namespace FramebufferCanvas

variable (canvas : FramebufferCanvas)

/-- `put_pixel`; the addresses of `mem` count from the start of the framebuffer. -/
def putPixel (mem : Store) (x y : UInt32) (color : Color) : Store :=
  if x ≥ canvas.width ∨ y ≥ canvas.height then mem
  else
    let offset := ((y * canvas.stride + x) * canvas.bpp).toNat
    if offset + canvas.bpp.toNat > canvas.len then mem
    else writeBytes mem offset (canvas.format.order color)

end FramebufferCanvas

/-- The arguments of `blit`. -/
structure Frame where
  src : List UInt8
  srcWidth : UInt32
  srcHeight : UInt32
  destX : UInt32
  destY : UInt32

/-- How a loop ends. -/
inductive Flow where
  /-- At the end of the range, or by a `break`. -/
  | next (mem : Store)
  | ret (mem : Store)
  | panic

namespace FramebufferCanvas

variable (canvas : FramebufferCanvas) (frame : Frame)

/-- The loop over the columns of a row. -/
def blitRow (y fbY : UInt32) : List UInt32 → Store → Flow
  | [], mem => .next mem
  | x :: xs, mem =>
    let fbX := frame.destX + x
    if fbX ≥ canvas.width then .next mem
    else
      let srcOffset := ((y * frame.srcWidth + x) * canvas.bpp).toNat
      if srcOffset + canvas.bpp.toNat > frame.src.length then .ret mem
      else
        match frame.src[srcOffset]?, frame.src[srcOffset + 1]?, frame.src[srcOffset + 2]? with
        | some r, some g, some b => blitRow y fbY xs (canvas.putPixel mem fbX fbY ⟨r, g, b⟩)
        | _, _, _ => .panic

/-- The range `0..n`. -/
def upTo (n : UInt32) : List UInt32 := (List.range n.toNat).map UInt32.ofNat

/-- The loop over the rows. -/
def blitRows : List UInt32 → Store → Flow
  | [], mem => .next mem
  | y :: ys, mem =>
    let fbY := frame.destY + y
    if fbY ≥ canvas.height then .next mem
    else
      match canvas.blitRow frame y fbY (upTo frame.srcWidth) mem with
      | .next mem => blitRows ys mem
      | .ret mem => .ret mem
      | .panic => .panic

/-- `blit`; `none` is a panic. -/
def blit (mem : Store) : Option Store :=
  match canvas.blitRows frame (upTo frame.srcHeight) mem with
  | .next mem => some mem
  | .ret mem => some mem
  | .panic => none

end FramebufferCanvas

/-! ## The pixels of a frame -/

/-- A pixel by its column and row in the frame. -/
structure Pixel where
  x : Nat
  y : Nat
  deriving DecidableEq, Repr

/-- The pixel is drawn earlier. -/
def Pixel.Before (p q : Pixel) : Prop := p.y < q.y ∨ p.y = q.y ∧ p.x < q.x

section

variable (canvas : FramebufferCanvas) (frame : Frame)

/-- A pixel of the frame that is inside the canvas. -/
structure Clipped (p : Pixel) : Prop where
  x : p.x < frame.srcWidth.toNat
  y : p.y < frame.srcHeight.toNat
  fbX : frame.destX.toNat + p.x < canvas.width.toNat
  fbY : frame.destY.toNat + p.y < canvas.height.toNat

/-- Where the pixel is in the frame. -/
def srcAt (p : Pixel) : Nat := (p.y * frame.srcWidth.toNat + p.x) * canvas.bpp.toNat

/-- Where it is in the framebuffer. -/
def place (p : Pixel) : Nat :=
  ((frame.destY.toNat + p.y) * canvas.stride.toNat + (frame.destX.toNat + p.x)) * canvas.bpp.toNat

/-- The colour that is read for the pixel. -/
def colorOf (p : Pixel) : Color :=
  let offset := srcAt canvas frame p % 2 ^ 32
  ⟨frame.src.getD offset 0, frame.src.getD (offset + 1) 0, frame.src.getD (offset + 2) 0⟩

/-- The call of `put_pixel` for the pixel. -/
def putAt (mem : Store) (p : Pixel) : Store :=
  canvas.putPixel mem (frame.destX + UInt32.ofNat p.x) (frame.destY + UInt32.ofNat p.y)
    (colorOf canvas frame p)

/-- The pixels of the clipped rectangle, in order. -/
def clipped : List Pixel :=
  (List.range (min frame.srcHeight.toNat (canvas.height.toNat - frame.destY.toNat))).flatMap
    fun y => (List.range (min frame.srcWidth.toNat (canvas.width.toNat - frame.destX.toNat))).map
      fun x => ⟨x, y⟩

variable {canvas frame}

theorem mem_clipped {p : Pixel} : p ∈ clipped canvas frame ↔ Clipped canvas frame p := by
  rw [clipped, List.mem_flatMap]
  constructor
  · rintro ⟨y, hy, hp⟩
    obtain ⟨x, hx, rfl⟩ := List.mem_map.1 hp
    rw [List.mem_range] at hx hy
    exact ⟨by show x < _; omega, by show y < _; omega, by show _ + x < _; omega,
      by show _ + y < _; omega⟩
  · intro h
    have h1 := h.x
    have h2 := h.y
    have h3 := h.fbX
    have h4 := h.fbY
    exact ⟨p.y, List.mem_range.2 (by omega),
      List.mem_map.2 ⟨p.x, List.mem_range.2 (by omega), rfl⟩⟩

theorem pairwise_clipped : (clipped canvas frame).Pairwise Pixel.Before := by
  rw [clipped, List.pairwise_flatMap]
  constructor
  · intro y _
    rw [List.pairwise_map]
    exact List.pairwise_lt_range.imp fun h => Or.inr ⟨rfl, h⟩
  · refine List.pairwise_lt_range.imp ?_
    intro y y' hlt p hp q hq
    obtain ⟨x, -, rfl⟩ := List.mem_map.1 hp
    obtain ⟨x', -, rfl⟩ := List.mem_map.1 hq
    exact Or.inl hlt

/-! ## The loops -/

theorem toNat_index (y s x b : UInt32) :
    ((y * s + x) * b).toNat = (y.toNat * s.toNat + x.toNat) * b.toNat % 2 ^ 32 := by
  rw [UInt32.toNat_mul, UInt32.toNat_add, UInt32.toNat_mul, Nat.mod_add_mod, Nat.mod_mul_mod]

theorem getElem?_getD {l : List UInt8} {i : Nat} (h : i < l.length) :
    l[i]? = some (l.getD i 0) := by
  rw [List.getD_eq_getElem?_getD, List.getElem?_eq_getElem h]
  rfl

theorem blitRow_eq (hbpp : 3 ≤ canvas.bpp.toNat) {y : Nat} (hy : y < 2 ^ 32) {n a : Nat}
    (hend : a + n < 2 ^ 32) (hstart : frame.destX.toNat + a < 2 ^ 32)
    (hsrc : ∀ x, a ≤ x → x < a + n → frame.destX.toNat + x < canvas.width.toNat →
      srcAt canvas frame ⟨x, y⟩ + canvas.bpp.toNat ≤ frame.src.length) (mem : Store) :
    canvas.blitRow frame (UInt32.ofNat y) (frame.destY + UInt32.ofNat y)
        ((List.range' a n).map UInt32.ofNat) mem =
      .next ((List.range' a (min n (canvas.width.toNat - (frame.destX.toNat + a)))).foldl
        (fun mem x => putAt canvas frame mem ⟨x, y⟩) mem) := by
  induction n generalizing a mem with
  | zero => simp [FramebufferCanvas.blitRow]
  | succ n ih =>
    have ha : (UInt32.ofNat a).toNat = a := UInt32.toNat_ofNat_of_lt' (show a < 2 ^ 32 by omega)
    have hfbX : (frame.destX + UInt32.ofNat a).toNat = frame.destX.toNat + a := by
      rw [UInt32.toNat_add, ha, Nat.mod_eq_of_lt hstart]
    have hwidth : canvas.width.toNat < 2 ^ 32 := canvas.width.toNat_lt
    rw [List.range'_succ, List.map_cons, FramebufferCanvas.blitRow]
    by_cases hin : frame.destX.toNat + a < canvas.width.toNat
    swap
    · have hge : frame.destX + UInt32.ofNat a ≥ canvas.width := by
        show canvas.width.toNat ≤ (frame.destX + UInt32.ofNat a).toNat
        rw [hfbX]
        omega
      rw [Nat.min_eq_right (by omega), Nat.sub_eq_zero_of_le (by omega)]
      exact if_pos hge
    have hlt : ¬ frame.destX + UInt32.ofNat a ≥ canvas.width := by
      show ¬ canvas.width.toNat ≤ (frame.destX + UInt32.ofNat a).toNat
      rw [hfbX]
      omega
    have hoffset : ((UInt32.ofNat y * frame.srcWidth + UInt32.ofNat a) * canvas.bpp).toNat =
        srcAt canvas frame ⟨a, y⟩ % 2 ^ 32 := by
      rw [toNat_index, ha, UInt32.toNat_ofNat_of_lt' hy]
      rfl
    have hfits := hsrc a le_rfl (by omega) hin
    have hmod := Nat.mod_le (srcAt canvas frame ⟨a, y⟩) (2 ^ 32)
    refine (if_neg hlt).trans ?_
    simp only [hoffset]
    rw [if_neg (by omega), getElem?_getD (by omega), getElem?_getD (by omega),
      getElem?_getD (by omega)]
    have hrest := ih (a := a + 1) (by omega) (by omega)
      (fun x hx hx' => hsrc x (by omega) (by omega)) (putAt canvas frame mem ⟨a, y⟩)
    have hcount : min (n + 1) (canvas.width.toNat - (frame.destX.toNat + a)) =
        min n (canvas.width.toNat - (frame.destX.toNat + (a + 1))) + 1 := by
      omega
    rw [hcount, List.range'_succ, List.foldl_cons]
    exact hrest

/-- The pixels of a row, or of its part inside the canvas. -/
def putRow (canvas : FramebufferCanvas) (frame : Frame) (mem : Store) (y : Nat) : Store :=
  (List.range (min frame.srcWidth.toNat (canvas.width.toNat - frame.destX.toNat))).foldl
    (fun mem x => putAt canvas frame mem ⟨x, y⟩) mem

/-- The frame has the bytes of every pixel that is to be drawn. -/
def LongEnough (canvas : FramebufferCanvas) (frame : Frame) : Prop :=
  ∀ p, Clipped canvas frame p → srcAt canvas frame p + canvas.bpp.toNat ≤ frame.src.length

theorem blitRows_eq (hbpp : 3 ≤ canvas.bpp.toNat) (hlong : LongEnough canvas frame) {n a : Nat}
    (hend : a + n ≤ frame.srcHeight.toNat) (hstart : frame.destY.toNat + a < 2 ^ 32)
    (mem : Store) :
    canvas.blitRows frame ((List.range' a n).map UInt32.ofNat) mem =
      .next ((List.range' a (min n (canvas.height.toNat - (frame.destY.toNat + a)))).foldl
        (putRow canvas frame) mem) := by
  induction n generalizing a mem with
  | zero => simp [FramebufferCanvas.blitRows]
  | succ n ih =>
    have hsrcHeight : frame.srcHeight.toNat < 2 ^ 32 := frame.srcHeight.toNat_lt
    have hheight : canvas.height.toNat < 2 ^ 32 := canvas.height.toNat_lt
    have hlt : a < 2 ^ 32 := by omega
    have ha : (UInt32.ofNat a).toNat = a := UInt32.toNat_ofNat_of_lt' hlt
    have hfbY : (frame.destY + UInt32.ofNat a).toNat = frame.destY.toNat + a := by
      rw [UInt32.toNat_add, ha, Nat.mod_eq_of_lt hstart]
    rw [List.range'_succ, List.map_cons, FramebufferCanvas.blitRows]
    by_cases hin : frame.destY.toNat + a < canvas.height.toNat
    swap
    · have hge : frame.destY + UInt32.ofNat a ≥ canvas.height := by
        show canvas.height.toNat ≤ (frame.destY + UInt32.ofNat a).toNat
        rw [hfbY]
        omega
      rw [Nat.min_eq_right (by omega), Nat.sub_eq_zero_of_le (by omega)]
      exact if_pos hge
    have hgo : ¬ frame.destY + UInt32.ofNat a ≥ canvas.height := by
      show ¬ canvas.height.toNat ≤ (frame.destY + UInt32.ofNat a).toNat
      rw [hfbY]
      omega
    have hrow : canvas.blitRow frame (UInt32.ofNat a) (frame.destY + UInt32.ofNat a)
        (FramebufferCanvas.upTo frame.srcWidth) mem = .next (putRow canvas frame mem a) := by
      have hcols := blitRow_eq hbpp hlt (n := frame.srcWidth.toNat) (a := 0)
        (by rw [Nat.zero_add]; exact frame.srcWidth.toNat_lt) frame.destX.toNat_lt
        (fun x _ hx hx' => hlong ⟨x, a⟩ ⟨by show x < _; omega, by show a < _; omega, hx', hin⟩) mem
      rw [Nat.add_zero, ← List.range_eq_range', ← List.range_eq_range'] at hcols
      exact hcols
    refine (if_neg hgo).trans ?_
    rw [hrow]
    have hcount : min (n + 1) (canvas.height.toNat - (frame.destY.toNat + a)) =
        min n (canvas.height.toNat - (frame.destY.toNat + (a + 1))) + 1 := by
      omega
    rw [hcount, List.range'_succ, List.foldl_cons]
    exact ih (by omega) (by omega) _

/-- The blit puts the pixels of the clipped rectangle. -/
theorem blit_eq (hbpp : 3 ≤ canvas.bpp.toNat) (hlong : LongEnough canvas frame) (mem : Store) :
    canvas.blit frame mem = some ((clipped canvas frame).foldl (putAt canvas frame) mem) := by
  have hrows := blitRows_eq hbpp hlong (n := frame.srcHeight.toNat) (a := 0) (by omega)
    frame.destY.toNat_lt mem
  rw [Nat.add_zero, ← List.range_eq_range', ← List.range_eq_range'] at hrows
  rw [FramebufferCanvas.blit, FramebufferCanvas.upTo, hrows, clipped, List.foldl_flatMap]
  simp only [List.foldl_map]
  rfl

/-! ## What is drawn -/

/-- The bytes that are written for a pixel. -/
def drawn (canvas : FramebufferCanvas) (frame : Frame) (p : Pixel) : List UInt8 :=
  canvas.format.order (colorOf canvas frame p)

theorem drawn_length (p : Pixel) : (drawn canvas frame p).length = 3 := by
  unfold drawn PixelFormat.order
  split
  · rfl
  · rfl
  · rfl

/-- The pixel is written to the address, where `u32` offsets are taken as they wrap. -/
def Hits (canvas : FramebufferCanvas) (frame : Frame) (p : Pixel) (a : Nat) : Prop :=
  place canvas frame p % 2 ^ 32 + canvas.bpp.toNat ≤ canvas.len ∧
    place canvas frame p % 2 ^ 32 ≤ a ∧ a < place canvas frame p % 2 ^ 32 + 3

instance (p : Pixel) (a : Nat) : Decidable (Hits canvas frame p a) :=
  inferInstanceAs (Decidable (_ ∧ _))

/-- The byte that the pixel puts at an address. -/
def layer (canvas : FramebufferCanvas) (frame : Frame) (a : Nat) (p : Pixel) : Option UInt8 :=
  if Hits canvas frame p a then
    some ((drawn canvas frame p).getD (a - place canvas frame p % 2 ^ 32) 0)
  else none

theorem paints_putAt {p : Pixel} (hp : Clipped canvas frame p) (a : Nat) :
    Paints (fun _ => True) (fun mem : Store => mem a) (putAt canvas frame · p)
      (layer canvas frame a p) := by
  intro mem _
  refine ⟨trivial, ?_⟩
  have h1 := hp.fbX
  have h2 := hp.fbY
  have hwidth : canvas.width.toNat < 2 ^ 32 := canvas.width.toNat_lt
  have hheight : canvas.height.toNat < 2 ^ 32 := canvas.height.toNat_lt
  have hx : (frame.destX + UInt32.ofNat p.x).toNat = frame.destX.toNat + p.x := by
    rw [UInt32.toNat_add, UInt32.toNat_ofNat_of_lt' (show p.x < 2 ^ 32 by omega),
      Nat.mod_eq_of_lt (by omega)]
  have hy : (frame.destY + UInt32.ofNat p.y).toNat = frame.destY.toNat + p.y := by
    rw [UInt32.toNat_add, UInt32.toNat_ofNat_of_lt' (show p.y < 2 ^ 32 by omega),
      Nat.mod_eq_of_lt (by omega)]
  have hinside : ¬ (frame.destX + UInt32.ofNat p.x ≥ canvas.width ∨
      frame.destY + UInt32.ofNat p.y ≥ canvas.height) := by
    show ¬ (canvas.width.toNat ≤ (frame.destX + UInt32.ofNat p.x).toNat ∨
      canvas.height.toNat ≤ (frame.destY + UInt32.ofNat p.y).toNat)
    rw [hx, hy]
    omega
  have hoffset : (((frame.destY + UInt32.ofNat p.y) * canvas.stride +
      (frame.destX + UInt32.ofNat p.x)) * canvas.bpp).toNat = place canvas frame p % 2 ^ 32 := by
    rw [toNat_index, hx, hy]
    rfl
  have hlen : (drawn canvas frame p).length = 3 := drawn_length p
  show canvas.putPixel mem _ _ _ a = _
  rw [FramebufferCanvas.putPixel, if_neg hinside]
  simp only [hoffset]
  by_cases hfits : place canvas frame p % 2 ^ 32 + canvas.bpp.toNat > canvas.len
  · rw [if_pos hfits, layer, if_neg (fun h => absurd h.1 (by omega))]
    rfl
  rw [if_neg hfits]
  show writeBytes mem _ (drawn canvas frame p) a = _
  by_cases ha : place canvas frame p % 2 ^ 32 ≤ a ∧ a < place canvas frame p % 2 ^ 32 + 3
  · rw [layer, if_pos ⟨by omega, ha⟩]
    obtain ⟨k, rfl⟩ := Nat.exists_eq_add_of_le ha.1
    rw [writeBytes_in mem _ (by omega) 0, Nat.add_sub_cancel_left]
    rfl
  · rw [layer, if_neg (fun h => ha h.2), writeBytes_out mem (by omega)]
    rfl

/-- What the blit leaves at an address. -/
theorem blit_apply (hbpp : 3 ≤ canvas.bpp.toNat) (hlong : LongEnough canvas frame)
    {mem mem' : Store} (hblit : canvas.blit frame mem = some mem') (a : Nat) :
    mem' a = (shade (layer canvas frame a) (clipped canvas frame)).getD (mem a) := by
  rw [blit_eq hbpp hlong] at hblit
  obtain rfl := Option.some.inj hblit
  exact (Paints.layers (fun p hp => paints_putAt (mem_clipped.1 hp) a) mem trivial).2

/-- Where no pixel is written nothing is put. -/
theorem shade_eq_none {a : Nat} (h : ∀ p, Clipped canvas frame p → ¬ Hits canvas frame p a) :
    shade (layer canvas frame a) (clipped canvas frame) = none := by
  by_contra hne
  obtain ⟨p, hp, hlayer⟩ := shade_ne_none.1 hne
  exact hlayer (if_neg (h p (mem_clipped.1 hp)))

/-- A byte that is not the same in all stores is put by some pixel. -/
theorem exists_hits (hbpp : 3 ≤ canvas.bpp.toNat) (hlong : LongEnough canvas frame) {a : Nat}
    {v : UInt8} (h : ∀ mem mem', canvas.blit frame mem = some mem' → mem' a = v) :
    ∃ p, Clipped canvas frame p ∧ Hits canvas frame p a := by
  by_contra hnone
  have hshade := shade_eq_none fun p hp hhit => hnone ⟨p, hp, hhit⟩
  have hblit := blit_eq hbpp hlong fun _ => v + 1
  have hsame := blit_apply hbpp hlong hblit a
  rw [h _ _ hblit, hshade] at hsame
  have hplus : v = v + 1 := hsame
  exact absurd hplus (by simp)

/-! ## When the bytes arrive -/

/-- The framebuffer has the bytes of the frame: the colour bytes of each pixel of the clipped
rectangle are those of the pixel in the frame, and no other byte was changed. -/
structure Copied (canvas : FramebufferCanvas) (frame : Frame) (mem mem' : Store) : Prop where
  bytes : ∀ p, Clipped canvas frame p →
    srcAt canvas frame p + canvas.bpp.toNat ≤ frame.src.length ∧
    ∀ k, k < 3 → mem' (place canvas frame p + k) = frame.src.getD (srcAt canvas frame p + k) 0
  rest : ∀ a, (∀ p, Clipped canvas frame p →
    a < place canvas frame p ∨ place canvas frame p + 3 ≤ a) → mem' a = mem a

/-- The blit copies the frame, whatever the framebuffer holds. -/
def Copies (canvas : FramebufferCanvas) (frame : Frame) : Prop :=
  ∀ mem, ∃ mem', canvas.blit frame mem = some mem' ∧ Copied canvas frame mem mem'

/-- Of the pixels of one place, this one is drawn last. -/
structure DrawnLast (canvas : FramebufferCanvas) (frame : Frame) (q : Pixel) : Prop where
  clipped : Clipped canvas frame q
  last : ∀ p, Clipped canvas frame p → place canvas frame p = place canvas frame q →
    p = q ∨ p.Before q

/-- The places are in the framebuffer. -/
def Inside (canvas : FramebufferCanvas) (frame : Frame) : Prop :=
  ∀ p, Clipped canvas frame p →
    place canvas frame p < 2 ^ 32 ∧ place canvas frame p + canvas.bpp.toNat ≤ canvas.len

/-- The bytes that are read are there, the bytes that are written are in the framebuffer, and what
is written last for a place are the bytes of all pixels of that place, in their order. -/
structure Reaches (canvas : FramebufferCanvas) (frame : Frame) : Prop where
  long : LongEnough canvas frame
  inside : Inside canvas frame
  order : ∀ p q, Clipped canvas frame p → DrawnLast canvas frame q →
    place canvas frame q = place canvas frame p → ∀ k, k < 3 →
    (drawn canvas frame q).getD k 0 = frame.src.getD (srcAt canvas frame p + k) 0

/-- Two places with a byte in common are the same. -/
theorem place_eq (hbpp : 3 ≤ canvas.bpp.toNat) {p q : Pixel} {a : Nat}
    (hp : place canvas frame p ≤ a) (hp' : a < place canvas frame p + 3)
    (hq : place canvas frame q ≤ a) (hq' : a < place canvas frame q + 3) :
    place canvas frame p = place canvas frame q := by
  unfold place at *
  generalize (frame.destY.toNat + p.y) * canvas.stride.toNat + (frame.destX.toNat + p.x) = i at *
  generalize (frame.destY.toNat + q.y) * canvas.stride.toNat + (frame.destX.toNat + q.x) = j at *
  rcases Nat.lt_trichotomy i j with hij | rfl | hij
  · have hmul := Nat.mul_le_mul_right canvas.bpp.toNat (show i + 1 ≤ j from hij)
    rw [Nat.add_mul, Nat.one_mul] at hmul
    omega
  · rfl
  · have hmul := Nat.mul_le_mul_right canvas.bpp.toNat (show j + 1 ≤ i from hij)
    rw [Nat.add_mul, Nat.one_mul] at hmul
    omega

theorem before_asymm {p q : Pixel} (h : p.Before q) : ¬ q.Before p := by
  unfold Pixel.Before at *
  omega

theorem hits_iff (hinside : Inside canvas frame) {p : Pixel} (hp : Clipped canvas frame p)
    {a : Nat} :
    Hits canvas frame p a ↔ place canvas frame p ≤ a ∧ a < place canvas frame p + 3 := by
  obtain ⟨hlt, hle⟩ := hinside p hp
  rw [Hits, Nat.mod_eq_of_lt hlt]
  exact and_iff_right hle

/-- For each pixel there is the one that is drawn last at its place, and the framebuffer has its
bytes. -/
theorem exists_drawnLast (hbpp : 3 ≤ canvas.bpp.toNat) (hlong : LongEnough canvas frame)
    (hinside : Inside canvas frame) {p : Pixel} (hp : Clipped canvas frame p) {k : Nat}
    (hk : k < 3) :
    ∃ q, DrawnLast canvas frame q ∧ place canvas frame q = place canvas frame p ∧
      ∀ mem mem', canvas.blit frame mem = some mem' →
        mem' (place canvas frame p + k) = (drawn canvas frame q).getD k 0 := by
  have hlayer : ∀ q ∈ clipped canvas frame,
      layer canvas frame (place canvas frame p + k) q ≠ none ↔
        place canvas frame q = place canvas frame p := by
    intro q hq
    have hhits := hits_iff hinside (mem_clipped.1 hq) (a := place canvas frame p + k)
    constructor
    · intro hne
      have hhit : Hits canvas frame q (place canvas frame p + k) := by
        by_contra hmiss
        exact hne (if_neg hmiss)
      obtain ⟨h1, h2⟩ := hhits.1 hhit
      exact place_eq hbpp h1 h2 (by omega) (by omega)
    · intro heq
      rw [layer, if_pos (hhits.2 (by omega))]
      exact Option.some_ne_none _
  obtain ⟨q, hq, hne, hshade, hlast⟩ := shade_last (o := layer canvas frame _) pairwise_clipped
    ⟨p, mem_clipped.2 hp, (hlayer p (mem_clipped.2 hp)).2 rfl⟩
  have hplace := (hlayer q hq).1 hne
  refine ⟨q, ⟨mem_clipped.1 hq, ?_⟩, hplace, ?_⟩
  · intro p' hp' heq
    exact hlast p' (mem_clipped.2 hp') ((hlayer p' (mem_clipped.2 hp')).2 (heq.trans hplace))
  · intro mem mem' hblit
    have hhit := (hits_iff hinside (mem_clipped.1 hq) (a := place canvas frame p + k)).2 (by omega)
    rw [blit_apply hbpp hlong hblit, hshade, layer, if_pos hhit,
      Nat.mod_eq_of_lt (hinside q (mem_clipped.1 hq)).1, hplace, Nat.add_sub_cancel_left]
    rfl

theorem DrawnLast.unique {q q' : Pixel} (h : DrawnLast canvas frame q)
    (h' : DrawnLast canvas frame q') (heq : place canvas frame q = place canvas frame q') :
    q = q' := by
  rcases h.last q' h'.clipped heq.symm with hsame | hbefore
  · exact hsame.symm
  · rcases h'.last q h.clipped heq with hsame | hafter
    · exact hsame
    · exact absurd hafter (before_asymm hbefore)

/-- Every pixel has its bytes at the true place if and only if offsets do not wrap, everything is
inside of the two buffers, and the byte order does not matter. -/
theorem copies_iff (hbpp : 3 ≤ canvas.bpp.toNat) : Copies canvas frame ↔ Reaches canvas frame := by
  constructor
  · intro h
    have hlong : LongEnough canvas frame := by
      intro p hp
      obtain ⟨_, -, hcopied⟩ := h fun _ => 0
      exact (hcopied.bytes p hp).1
    have hbytes : ∀ p, Clipped canvas frame p → ∀ k, k < 3 → ∀ mem mem',
        canvas.blit frame mem = some mem' →
        mem' (place canvas frame p + k) = frame.src.getD (srcAt canvas frame p + k) 0 := by
      intro p hp k hk mem mem' hblit
      obtain ⟨mem₁, hblit₁, hcopied⟩ := h mem
      rw [hblit] at hblit₁
      obtain rfl := Option.some.inj hblit₁
      exact (hcopied.bytes p hp).2 k hk
    have hinside : Inside canvas frame := by
      intro p hp
      obtain ⟨q, -, hfits, hle, hlt⟩ := exists_hits hbpp hlong (hbytes p hp 2 (by omega))
      have hmod := Nat.mod_lt (place canvas frame q) (show 2 ^ 32 > 0 by omega)
      omega
    refine ⟨hlong, hinside, ?_⟩
    intro p q hp hq heq k hk
    obtain ⟨q', hq', heq', hmem⟩ := exists_drawnLast hbpp hlong hinside hp hk
    obtain rfl := hq.unique hq' (heq.trans heq'.symm)
    have hblit := blit_eq hbpp hlong fun _ => 0
    rw [← hmem _ _ hblit, hbytes p hp k hk _ _ hblit]
  · intro h mem
    have hblit := blit_eq hbpp h.long mem
    refine ⟨_, hblit, ⟨?_, ?_⟩⟩
    · intro p hp
      refine ⟨h.long p hp, ?_⟩
      intro k hk
      obtain ⟨q, hq, heq, hmem⟩ := exists_drawnLast hbpp h.long h.inside hp hk
      rw [hmem _ _ hblit]
      exact h.order p q hp hq heq k hk
    · intro a hout
      have hmiss : ∀ p, Clipped canvas frame p → ¬ Hits canvas frame p a := by
        intro p hp hhit
        have hin := (hits_iff h.inside hp).1 hhit
        have hcell := hout p hp
        omega
      rw [blit_apply hbpp h.long hblit, shade_eq_none hmiss]
      rfl

/-- A canvas with one pixel, and a frame for it. -/
def onePixel (format : PixelFormat) : FramebufferCanvas := ⟨3, 1, 1, 1, 3, format⟩

def oneFrame : Frame := ⟨[1, 2, 3], 1, 1, 0, 0⟩

theorem clipped_oneFrame {format : PixelFormat} {p : Pixel}
    (hp : Clipped (onePixel format) oneFrame p) : p = ⟨0, 0⟩ := by
  obtain ⟨x, y⟩ := p
  have hx : x < 1 := hp.x
  have hy : y < 1 := hp.y
  obtain rfl : x = 0 := by omega
  obtain rfl : y = 0 := by omega
  rfl

theorem copies_iff_rgb : Copies (onePixel .rgb) oneFrame := by
  have hbpp : 3 ≤ (onePixel .rgb).bpp.toNat := by decide
  refine (copies_iff hbpp).2 ⟨?_, ?_, ?_⟩
  · intro p hp
    rw [clipped_oneFrame hp]
    decide
  · intro p hp
    rw [clipped_oneFrame hp]
    decide
  · intro p q hp hq _ k hk
    rw [clipped_oneFrame hp, clipped_oneFrame hq.clipped]
    revert k
    decide

/-- The first byte of a frame for a `Bgr` canvas gets to the third byte of the pixel. -/
theorem not_copies_bgr : ¬ Copies (onePixel .bgr) oneFrame := by
  intro h
  obtain ⟨mem', hblit, hcopied⟩ := h fun _ => 0
  have hfirst := (hcopied.bytes ⟨0, 0⟩ ⟨by decide, by decide, by decide, by decide⟩).2 0 (by decide)
  have hvalue : some 3 = some (mem' 0) := congrArg (Option.map fun mem : Store => mem 0) hblit
  rw [show place (onePixel .bgr) oneFrame ⟨0, 0⟩ + 0 = 0 from rfl,
    ← Option.some.inj hvalue] at hfirst
  exact absurd hfirst (by decide)

/-! ## Ordinary canvases -/

/-- If rows do not overlap, each pixel has a place of its own. -/
theorem place_inj (hbpp : 3 ≤ canvas.bpp.toNat) (hwide : canvas.width.toNat ≤ canvas.stride.toNat)
    {p q : Pixel} (hp : Clipped canvas frame p) (hq : Clipped canvas frame q)
    (h : place canvas frame p = place canvas frame q) : p = q := by
  have hpx := hp.fbX
  have hqx := hq.fbX
  have hindex := Nat.eq_of_mul_eq_mul_right (show 0 < canvas.bpp.toNat by omega) h
  have hrow : frame.destY.toNat + p.y = frame.destY.toNat + q.y := by
    rcases Nat.lt_trichotomy (frame.destY.toNat + p.y) (frame.destY.toNat + q.y) with
      hlt | heq | hlt
    · have hmul := Nat.mul_le_mul_right canvas.stride.toNat (Nat.succ_le_of_lt hlt)
      rw [Nat.succ_mul] at hmul
      omega
    · exact heq
    · have hmul := Nat.mul_le_mul_right canvas.stride.toNat (Nat.succ_le_of_lt hlt)
      rw [Nat.succ_mul] at hmul
      omega
  rw [hrow] at hindex
  have hx : p.x = q.x := by omega
  have hy : p.y = q.y := by omega
  show Pixel.mk p.x p.y = Pixel.mk q.x q.y
  rw [hx, hy]

/-- Where nothing wraps and nothing is missing, the bytes arrive if and only if the canvas is not
`Bgr`, or the outer two colour bytes are the same in each pixel. -/
theorem copies_iff_of_wide (hbpp : 3 ≤ canvas.bpp.toNat)
    (hwide : canvas.width.toNat ≤ canvas.stride.toNat) (hlong : LongEnough canvas frame)
    (hsmall : frame.src.length < 2 ^ 32) (hinside : Inside canvas frame) :
    Copies canvas frame ↔ ∀ p, Clipped canvas frame p → canvas.format = .bgr →
      frame.src.getD (srcAt canvas frame p) 0 = frame.src.getD (srcAt canvas frame p + 2) 0 := by
  have hread : ∀ p, Clipped canvas frame p →
      srcAt canvas frame p % 2 ^ 32 = srcAt canvas frame p := by
    intro p hp
    have := hlong p hp
    exact Nat.mod_eq_of_lt (by omega)
  rw [copies_iff hbpp]
  constructor
  · intro h p hp hbgr
    have hlast : DrawnLast canvas frame p :=
      ⟨hp, fun q hq heq => Or.inl (place_inj hbpp hwide hq hp heq)⟩
    have hfirst := h.order p p hp hlast rfl 0 (by omega)
    rw [drawn, hbgr] at hfirst
    have hblue : frame.src.getD (srcAt canvas frame p % 2 ^ 32 + 2) 0 =
        frame.src.getD (srcAt canvas frame p + 0) 0 := hfirst
    rw [hread p hp] at hblue
    exact hblue.symm
  · intro h
    refine ⟨hlong, hinside, ?_⟩
    intro p q hp hq heq k hk
    obtain rfl := place_inj hbpp hwide hq.clipped hp heq
    have hcolor : colorOf canvas frame q = ⟨frame.src.getD (srcAt canvas frame q) 0,
        frame.src.getD (srcAt canvas frame q + 1) 0,
        frame.src.getD (srcAt canvas frame q + 2) 0⟩ := by
      rw [colorOf, hread q hp]
    rw [drawn, hcolor]
    obtain rfl | rfl | rfl : k = 0 ∨ k = 1 ∨ k = 2 := by omega
    all_goals cases hformat : canvas.format
    · rfl
    · exact (h q hp hformat).symm
    · rfl
    · rfl
    · rfl
    · rfl
    · rfl
    · exact h q hp hformat
    · rfl

end

end AeroOS.FlutterAdapter
