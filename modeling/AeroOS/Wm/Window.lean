import AeroOS.Lib.Cells
import AeroOS.Lib.InsertionSort

/-!
# Windows and the window list

`window.rs` keeps up to 16 windows in slots; the id 0 marks an empty slot.

* `Window` and `WindowList` are the records, and `create`, `destroy`, `moveWindow`,
  `raiseToTop`, `setFocus`, `focusedId`, `hitTest`, `get` and `iterZOrder` the operations.
* `create_cases` and `withSlot_cases` say all that an operation can do.
-/

namespace AeroOS.Wm

open Cells InsertionSort

/-- Maximum windows. -/
def MAX_WINDOWS : Nat := 16

/-- Title bar height in pixels. -/
def TITLE_BAR_HEIGHT : UInt32 := 24

/-- Window border width in pixels. -/
def BORDER_WIDTH : UInt32 := 2

/-! ## A window -/

/-- A single window.  The id 0 is an empty slot; the content buffer is an address in the
memory of the window manager, and 0 is the null pointer. -/
structure Window where
  id : UInt32
  x : Int32
  y : Int32
  width : UInt32
  height : UInt32
  zOrder : UInt32
  visible : Bool
  focused : Bool
  draggable : Bool
  contentBuf : Nat
  contentLen : Nat
  title : List UInt8
  deriving DecidableEq

namespace Window

def empty : Window where
  id := 0
  x := 0
  y := 0
  width := 0
  height := 0
  zOrder := 0
  visible := false
  focused := false
  draggable := true
  contentBuf := 0
  contentLen := 0
  title := List.replicate 32 0

/-- Full width including borders. -/
def fullWidth (w : Window) : UInt32 := w.width + 2 * BORDER_WIDTH

/-- Full height including title bar and borders. -/
def fullHeight (w : Window) : UInt32 := w.height + TITLE_BAR_HEIGHT + 2 * BORDER_WIDTH

/-- Is the point inside the full bounds? -/
def containsPoint (w : Window) (px py : Int32) : Bool :=
  let fw := w.fullWidth.toInt32
  let fh := w.fullHeight.toInt32
  w.x ≤ px && px < w.x + fw && w.y ≤ py && py < w.y + fh

/-- Is the point in the title bar? -/
def isInTitleBar (w : Window) (px py : Int32) : Bool :=
  w.x ≤ px && px < w.x + w.fullWidth.toInt32 && w.y ≤ py &&
    py < w.y + TITLE_BAR_HEIGHT.toInt32

/-- Set the title from bytes: at most 31 of them, and a null terminator. -/
def setTitle (w : Window) (title : List UInt8) : Window :=
  let len := min title.length 31
  { w with title := title.take len ++ 0 :: w.title.drop (len + 1) }

@[simp] theorem setTitle_id (w : Window) (t : List UInt8) : (w.setTitle t).id = w.id := rfl

@[simp] theorem setTitle_zOrder (w : Window) (t : List UInt8) :
    (w.setTitle t).zOrder = w.zOrder := rfl

@[simp] theorem setTitle_focused (w : Window) (t : List UInt8) :
    (w.setTitle t).focused = w.focused := rfl

@[simp] theorem empty_id : empty.id = 0 := rfl

/-- A slot holds a window. -/
def Live (w : Window) : Prop := w.id ≠ 0

instance (w : Window) : Decidable w.Live := inferInstanceAs (Decidable (w.id ≠ 0))

/-- What the compositor draws, and the mouse can hit. -/
def Shown (w : Window) : Prop := w.id ≠ 0 ∧ w.visible = true

instance (w : Window) : Decidable w.Shown := inferInstanceAs (Decidable (_ ∧ _))

end Window

/-! ## The list -/

/-- Fixed-capacity window list. -/
structure WindowList where
  windows : Fin MAX_WINDOWS → Window
  count : UInt64
  nextId : UInt32
  nextZ : UInt32

namespace WindowList

def new : WindowList where
  windows _ := .empty
  count := 0
  nextId := 1
  nextZ := 1

/-- The first slot with an id. -/
def slotOf (l : WindowList) (id : UInt32) : Option (Fin MAX_WINDOWS) :=
  position (fun w => w.id == id) l.windows

/-- The window that `create` stores. -/
def newWindow (l : WindowList) (x y : Int32) (width height : UInt32) (title : List UInt8)
    (contentBuf contentLen : Nat) : Window :=
  let w : Window :=
    { id := l.nextId, x, y, width, height, zOrder := l.nextZ, visible := true,
      focused := false, draggable := true, contentBuf, contentLen,
      title := List.replicate 32 0 }
  w.setTitle title

/-- Create a new window: its id, or 0 on failure. -/
def create (l : WindowList) (x y : Int32) (width height : UInt32) (title : List UInt8)
    (contentBuf contentLen : Nat) : UInt32 × WindowList :=
  if MAX_WINDOWS ≤ l.count.toNat then (0, l)
  else
    -- the first empty slot
    match l.slotOf 0 with
    | none => (0, l)
    | some i =>
      let w := l.newWindow x y width height title contentBuf contentLen
      (l.nextId,
        { windows := Function.update l.windows i w, count := l.count + 1,
          nextId := l.nextId + 1, nextZ := l.nextZ + 1 })

/-- What is done with the window that has an id: `false` and nothing, if there is none. -/
def withSlot (l : WindowList) (id : UInt32) (f : Fin MAX_WINDOWS → WindowList) :
    Bool × WindowList :=
  match l.slotOf id with
  | none => (false, l)
  | some i => (true, f i)

/-- Destroy a window by id. -/
def destroy (l : WindowList) (id : UInt32) : Bool × WindowList :=
  l.withSlot id fun i =>
    { l with windows := Function.update l.windows i .empty, count := l.count - 1 }

/-- Move a window to a new position. -/
def moveWindow (l : WindowList) (id : UInt32) (x y : Int32) : Bool × WindowList :=
  l.withSlot id fun i =>
    { l with windows := Function.update l.windows i { l.windows i with x, y } }

/-- Raise a window to the top of the z-order. -/
def raiseToTop (l : WindowList) (id : UInt32) : Bool × WindowList :=
  l.withSlot id fun i =>
    { l with
      windows := Function.update l.windows i { l.windows i with zOrder := l.nextZ }
      nextZ := l.nextZ + 1 }

/-- Set focus on a window, and clear it on all others. -/
def setFocus (l : WindowList) (id : UInt32) : WindowList :=
  { l with windows := fun i => { l.windows i with focused := (l.windows i).id == id } }

/-- The focused window, 0 if none. -/
def focusedId (l : WindowList) : UInt32 :=
  match position (fun w => w.id != 0 && w.focused) l.windows with
  | some i => (l.windows i).id
  | none => 0

/-- One round of the loop of `hit_test`, on `(top_z, hit_id)`. -/
def hitStep (px py : Int32) (best : UInt32 × UInt32) (w : Window) : UInt32 × UInt32 :=
  if w.id = 0 ∨ w.visible = false then best
  else if w.containsPoint px py && best.1 ≤ w.zOrder then (w.zOrder, w.id)
  else best

/-- The topmost window at a point, 0 if none. -/
def hitTest (l : WindowList) (px py : Int32) : UInt32 :=
  ((List.finRange MAX_WINDOWS).foldl (fun best i => hitStep px py best (l.windows i)) (0, 0)).2

/-- The window with an id. -/
def get (l : WindowList) (id : UInt32) : Option Window := (l.slotOf id).map l.windows

end WindowList

/-- Iterator over windows in z-order, bottom to top: the slots of the windows, and how many
of them it has given. -/
structure ZOrderIter where
  windows : Fin MAX_WINDOWS → Window
  indices : List (Fin MAX_WINDOWS)
  pos : Nat

namespace ZOrderIter

/-- The next window, and the iterator after it. -/
def next (it : ZOrderIter) : Option (Window × ZOrderIter) :=
  match it.indices[it.pos]? with
  | none => none
  | some idx => some (it.windows idx, { it with pos := it.pos + 1 })

/-- What up to `n` calls of `next` give. -/
def collect : Nat → ZOrderIter → List Window
  | 0, _ => []
  | n + 1, it =>
    match it.next with
    | none => []
    | some (w, it) => w :: it.collect n

end ZOrderIter

namespace WindowList

/-- The slots that the compositor draws, in their order. -/
def shownSlots (l : WindowList) : List (Fin MAX_WINDOWS) :=
  (List.finRange MAX_WINDOWS).filter fun i => (l.windows i).id != 0 && (l.windows i).visible

/-- Iterate windows in z-order. -/
def iterZOrder (l : WindowList) : ZOrderIter where
  windows := l.windows
  indices := InsertionSort.sort
    (fun b key => (l.windows key).zOrder < (l.windows b).zOrder) l.shownSlots
  pos := 0

/-- The windows in the order in which a `for` loop over `iter_z_order` gets them. -/
def zOrdered (l : WindowList) : List Window := l.iterZOrder.collect MAX_WINDOWS

/-! ## What the operations do -/

variable {l : WindowList} {id : UInt32} {i : Fin MAX_WINDOWS}

theorem id_of_slotOf (h : l.slotOf id = some i) : (l.windows i).id = id := by
  have hsat := position_sat h
  simpa using hsat

theorem slotOf_eq_none : l.slotOf id = none ↔ ∀ i, (l.windows i).id ≠ id := by
  rw [slotOf, position_eq_none]
  simp

/-- The windows with an id: none, or the one in the slot that a search finds. -/
theorem withSlot_cases (l : WindowList) (id : UInt32) (f : Fin MAX_WINDOWS → WindowList) :
    (l.withSlot id f = (false, l) ∧ ∀ i, (l.windows i).id ≠ id) ∨
      ∃ i, l.slotOf id = some i ∧ (l.windows i).id = id ∧ l.withSlot id f = (true, f i) := by
  unfold withSlot
  cases h : l.slotOf id with
  | none => exact Or.inl ⟨rfl, slotOf_eq_none.1 h⟩
  | some i => exact Or.inr ⟨i, rfl, id_of_slotOf h, rfl⟩

/-- `create` fails and changes nothing, or stores a window in an empty slot. -/
theorem create_cases (l : WindowList) (x y : Int32) (width height : UInt32)
    (title : List UInt8) (contentBuf contentLen : Nat) :
    (l.create x y width height title contentBuf contentLen = (0, l) ∧
        (MAX_WINDOWS ≤ l.count.toNat ∨ ∀ i, (l.windows i).id ≠ 0)) ∨
      ∃ i, (l.windows i).id = 0 ∧ l.count.toNat < MAX_WINDOWS ∧
        l.create x y width height title contentBuf contentLen =
          (l.nextId,
            { windows := Function.update l.windows i
                (l.newWindow x y width height title contentBuf contentLen)
              count := l.count + 1, nextId := l.nextId + 1, nextZ := l.nextZ + 1 }) := by
  unfold create
  by_cases hfull : MAX_WINDOWS ≤ l.count.toNat
  · rw [if_pos hfull]
    exact Or.inl ⟨rfl, Or.inl hfull⟩
  · rw [if_neg hfull]
    cases h : l.slotOf 0 with
    | none => exact Or.inl ⟨rfl, Or.inr (slotOf_eq_none.1 h)⟩
    | some i => exact Or.inr ⟨i, id_of_slotOf h, by omega, rfl⟩

@[simp] theorem newWindow_id (l : WindowList) (x y : Int32) (width height : UInt32)
    (title : List UInt8) (contentBuf contentLen : Nat) :
    (l.newWindow x y width height title contentBuf contentLen).id = l.nextId := rfl

/-! ## Which ids there are -/

/-- An edit of one window that keeps its id. -/
theorem update_id {w : Window} (hw : w.id = (l.windows i).id) (j : Fin MAX_WINDOWS) :
    (Function.update l.windows i w j).id = (l.windows j).id := by
  by_cases hji : j = i
  · subst hji
    rw [Function.update_self, hw]
  · rw [Function.update_of_ne hji]

/-- The two lists have the same ids in the same slots. -/
structure SameIds (l l' : WindowList) : Prop where
  id : ∀ i, (l'.windows i).id = (l.windows i).id
  count : l'.count = l.count
  nextId : l'.nextId = l.nextId

theorem SameIds.trans {l' l'' : WindowList} (h : SameIds l l') (h' : SameIds l' l'') :
    SameIds l l'' where
  id i := (h'.id i).trans (h.id i)
  count := h'.count.trans h.count
  nextId := h'.nextId.trans h.nextId

theorem sameIds_setFocus (l : WindowList) (id : UInt32) : SameIds l (l.setFocus id) :=
  ⟨fun _ => rfl, rfl, rfl⟩

theorem sameIds_moveWindow (l : WindowList) (id : UInt32) (x y : Int32) :
    SameIds l (l.moveWindow id x y).2 := by
  unfold moveWindow
  rcases l.withSlot_cases id _ with ⟨heq, -⟩ | ⟨i, -, -, heq⟩
  · rw [heq]
    exact ⟨fun _ => rfl, rfl, rfl⟩
  · rw [heq]
    exact ⟨update_id rfl, rfl, rfl⟩

theorem sameIds_raiseToTop (l : WindowList) (id : UInt32) : SameIds l (l.raiseToTop id).2 := by
  unfold raiseToTop
  rcases l.withSlot_cases id _ with ⟨heq, -⟩ | ⟨i, -, -, heq⟩
  · rw [heq]
    exact ⟨fun _ => rfl, rfl, rfl⟩
  · rw [heq]
    exact ⟨update_id rfl, rfl, rfl⟩

theorem SameIds.slotOf {l' : WindowList} (h : SameIds l l') (id : UInt32) :
    l'.slotOf id = l.slotOf id :=
  position_congr fun i => by rw [h.id]

/-- A live window has the id. -/
def HasId (l : WindowList) (id : UInt32) : Prop := id ≠ 0 ∧ ∃ i, (l.windows i).id = id

theorem HasId.sameIds {l' : WindowList} (h : l.HasId id) (hs : SameIds l l') : l'.HasId id := by
  obtain ⟨hid, i, hi⟩ := h
  exact ⟨hid, i, (hs.id i).trans hi⟩

theorem HasId.create (h : l.HasId id) (x y : Int32) (width height : UInt32)
    (title : List UInt8) (contentBuf contentLen : Nat) :
    (l.create x y width height title contentBuf contentLen).2.HasId id := by
  rcases l.create_cases x y width height title contentBuf contentLen with
    ⟨heq, -⟩ | ⟨i, hi, -, heq⟩
  · rw [heq]
    exact h
  · obtain ⟨hid, j, hj⟩ := h
    rw [heq]
    refine ⟨hid, j, ?_⟩
    show (Function.update l.windows i _ j).id = id
    rw [Function.update_of_ne, hj]
    rintro rfl
    exact hid (hj.symm.trans hi)

theorem HasId.destroy (h : l.HasId id) {id' : UInt32} (hne : id' ≠ id) :
    (l.destroy id').2.HasId id := by
  unfold WindowList.destroy
  rcases l.withSlot_cases id' _ with ⟨heq, -⟩ | ⟨i, -, hi, heq⟩
  · rw [heq]
    exact h
  · obtain ⟨hid, j, hj⟩ := h
    rw [heq]
    refine ⟨hid, j, ?_⟩
    show (Function.update l.windows i _ j).id = id
    rw [Function.update_of_ne, hj]
    rintro rfl
    exact hne (hi.symm.trans hj)

theorem HasId.exists_slot (h : l.HasId id) : ∃ i, l.slotOf id = some i := by
  obtain ⟨-, i, hi⟩ := h
  exact position_isSome (i := i) (by simpa using hi)

/-- `focused_id` is 0, or names a live window that has the focus. -/
theorem focusedId_cases (l : WindowList) :
    ((∀ i, (l.windows i).id ≠ 0 → (l.windows i).focused = false) ∧ l.focusedId = 0) ∨
      ∃ i, (l.windows i).id ≠ 0 ∧ (l.windows i).focused = true ∧
        l.focusedId = (l.windows i).id := by
  unfold focusedId
  cases h : position (fun w => w.id != 0 && w.focused) l.windows with
  | none =>
    refine Or.inl ⟨?_, rfl⟩
    intro i hi
    simpa [hi] using position_eq_none.1 h i
  | some i =>
    have hsat := position_sat h
    rw [Bool.and_eq_true, bne_iff_ne] at hsat
    exact Or.inr ⟨i, hsat.1, hsat.2, rfl⟩

end WindowList

end AeroOS.Wm
