import AeroOS.Lib.Run
import AeroOS.Wm.Window

/-!
# The input router

`process_event` turns a mouse or keyboard event into actions on the cursor, the drag state
and the windows, and names the window that receives the event.

* `processMouse_cases`: all that a mouse event can do.
* `Action` and `next` are a step of the window manager: an event, or an application that
  creates or destroys a window.
-/

namespace AeroOS.Wm

/-! ## The cursor -/

/-- Mouse cursor state: position and buttons. -/
structure Cursor where
  x : Int32
  y : Int32
  /-- Bit 0 is the left button, bit 1 the right one. -/
  buttons : UInt8
  deriving DecidableEq

namespace Cursor

/-- Apply a mouse delta from the input event. -/
def applyDelta (c : Cursor) (dx dy : Int16) (buttons : UInt8) (fbWidth fbHeight : UInt32) :
    Cursor where
  x := min (max (c.x + dx.toInt32) 0) (fbWidth.toInt32 - 1)
  y := min (max (c.y + dy.toInt32) 0) (fbHeight.toInt32 - 1)
  buttons := buttons

/-- Is the left button currently pressed? -/
def leftButton (c : Cursor) : Bool := (c.buttons &&& 0x01) != 0

/-- Is the right button currently pressed? -/
def rightButton (c : Cursor) : Bool := (c.buttons &&& 0x02) != 0

end Cursor

/-! ## The drag state -/

/-- Which window is being dragged, 0 for none, and the offset of the mouse from its origin. -/
structure DragState where
  windowId : UInt32
  offsetX : Int32
  offsetY : Int32
  deriving DecidableEq

namespace DragState

def new : DragState := ⟨0, 0, 0⟩

def isDragging (d : DragState) : Bool := d.windowId != 0

def start (_ : DragState) (windowId : UInt32) (mouseX mouseY winX winY : Int32) : DragState where
  windowId := windowId
  offsetX := mouseX - winX
  offsetY := mouseY - winY

def stop (d : DragState) : DragState := { d with windowId := 0 }

@[simp] theorem stop_isDragging (d : DragState) : d.stop.isDragging = false := rfl

end DragState

/-! ## Events -/

def EVENT_KEYBOARD : UInt32 := 0
def EVENT_MOUSE : UInt32 := 1

/-- An event, with the fields that the router reads. -/
structure InputEvent where
  eventType : UInt32
  mouseButtons : UInt8
  mouseDx : Int16
  mouseDy : Int16

/-- What the router works on: its drag state, the cursor and the windows. -/
structure WmState where
  cursor : Cursor
  drag : DragState
  windows : WindowList

namespace WmState

/-- Process a mouse event on a framebuffer of the given size. -/
def processMouse (s : WmState) (event : InputEvent) (fbWidth fbHeight : UInt32) :
    UInt32 × WmState :=
  -- 1. the cursor
  let prevLeft := s.cursor.leftButton
  let cursor := s.cursor.applyDelta event.mouseDx event.mouseDy event.mouseButtons fbWidth fbHeight
  let leftDown := cursor.leftButton && !prevLeft
  -- 2. a drag that goes on or ends
  if s.drag.isDragging then
    if !cursor.leftButton then (0, ⟨cursor, s.drag.stop, s.windows⟩)
    else
      let newX := cursor.x - s.drag.offsetX
      let newY := cursor.y - s.drag.offsetY
      (s.drag.windowId, ⟨cursor, s.drag, (s.windows.moveWindow s.drag.windowId newX newY).2⟩)
  -- 3. a press of the left button
  else if leftDown then
    let hitId := s.windows.hitTest cursor.x cursor.y
    if hitId = 0 then (0, ⟨cursor, s.drag, s.windows.setFocus 0⟩)
    else
      let windows := ((s.windows.setFocus hitId).raiseToTop hitId).2
      let drag :=
        match windows.get hitId with
        | some win =>
          if win.draggable && win.isInTitleBar cursor.x cursor.y then
            s.drag.start hitId cursor.x cursor.y win.x win.y
          else s.drag
        | none => s.drag
      (hitId, ⟨cursor, drag, windows⟩)
  -- 4. a move without button
  else if !cursor.leftButton && !cursor.rightButton then
    (s.windows.hitTest cursor.x cursor.y, ⟨cursor, s.drag, s.windows⟩)
  -- 5. a button that is held
  else (s.windows.hitTest cursor.x cursor.y, ⟨cursor, s.drag, s.windows⟩)

/-- Process a keyboard event. -/
def processKeyboard (s : WmState) : UInt32 := s.windows.focusedId

/-- Process a single input event: the window that receives it, 0 for none. -/
def processEvent (s : WmState) (event : InputEvent) (fbWidth fbHeight : UInt32) :
    UInt32 × WmState :=
  if event.eventType = EVENT_MOUSE then s.processMouse event fbWidth fbHeight
  else if event.eventType = EVENT_KEYBOARD then (s.processKeyboard, s)
  else (0, s)

/-! ## What a mouse event does -/

/-- The cursor after a mouse event. -/
def moved (s : WmState) (event : InputEvent) (fbWidth fbHeight : UInt32) : Cursor :=
  s.cursor.applyDelta event.mouseDx event.mouseDy event.mouseButtons fbWidth fbHeight

/-- The windows after a press on a window. -/
def raised (s : WmState) (hitId : UInt32) : WindowList :=
  ((s.windows.setFocus hitId).raiseToTop hitId).2

/-- A press leaves the drag state, or starts a drag of the window. -/
def Starts (s : WmState) (cursor : Cursor) (hitId : UInt32) (drag : DragState) : Prop :=
  drag = s.drag ∨ ∃ win, (s.raised hitId).get hitId = some win ∧
    drag = s.drag.start hitId cursor.x cursor.y win.x win.y

/-- The five things that a mouse event can do, where `cursor` is the cursor after it. -/
inductive MouseStep (s : WmState) (cursor : Cursor) : UInt32 × WmState → Prop where
  | release (hdrag : s.drag.isDragging = true) (hleft : cursor.leftButton = false) :
      MouseStep s cursor (0, ⟨cursor, s.drag.stop, s.windows⟩)
  | drag (hdrag : s.drag.isDragging = true) (hleft : cursor.leftButton = true) :
      MouseStep s cursor (s.drag.windowId, ⟨cursor, s.drag, (s.windows.moveWindow s.drag.windowId
        (cursor.x - s.drag.offsetX) (cursor.y - s.drag.offsetY)).2⟩)
  | desktop (hdrag : s.drag.isDragging = false) (hleft : cursor.leftButton = true)
      (hprev : s.cursor.leftButton = false) (hhit : s.windows.hitTest cursor.x cursor.y = 0) :
      MouseStep s cursor (0, ⟨cursor, s.drag, s.windows.setFocus 0⟩)
  | press (hdrag : s.drag.isDragging = false) (hleft : cursor.leftButton = true)
      (hprev : s.cursor.leftButton = false) (hhit : s.windows.hitTest cursor.x cursor.y ≠ 0)
      {drag : DragState} (hstart : s.Starts cursor (s.windows.hitTest cursor.x cursor.y) drag) :
      MouseStep s cursor (s.windows.hitTest cursor.x cursor.y,
        ⟨cursor, drag, s.raised (s.windows.hitTest cursor.x cursor.y)⟩)
  | hover (hdrag : s.drag.isDragging = false)
      (hpress : ¬ (cursor.leftButton = true ∧ s.cursor.leftButton = false)) :
      MouseStep s cursor (s.windows.hitTest cursor.x cursor.y, ⟨cursor, s.drag, s.windows⟩)

variable {s : WmState} {event : InputEvent} {fbWidth fbHeight : UInt32}

theorem processMouse_cases (s : WmState) (event : InputEvent) (fbWidth fbHeight : UInt32) :
    s.MouseStep (s.moved event fbWidth fbHeight) (s.processMouse event fbWidth fbHeight) := by
  simp only [processMouse]
  rw [← moved]
  set cursor := s.moved event fbWidth fbHeight
  cases hdrag : s.drag.isDragging with
  | true =>
    rw [if_pos rfl]
    cases hleft : cursor.leftButton with
    | false => exact .release hdrag hleft
    | true => exact .drag hdrag hleft
  | false =>
    rw [if_neg Bool.false_ne_true]
    by_cases hpress : cursor.leftButton = true ∧ s.cursor.leftButton = false
    · rw [if_pos (by simp [hpress])]
      by_cases hhit : s.windows.hitTest cursor.x cursor.y = 0
      · rw [if_pos hhit]
        exact .desktop hdrag hpress.1 hpress.2 hhit
      · rw [if_neg hhit]
        refine .press hdrag hpress.1 hpress.2 hhit ?_
        rw [← raised]
        cases hwin : (s.raised (s.windows.hitTest cursor.x cursor.y)).get
            (s.windows.hitTest cursor.x cursor.y) with
        | none => exact Or.inl rfl
        | some win =>
          show s.Starts _ _ (if _ then _ else _)
          split
          · exact Or.inr ⟨win, hwin, rfl⟩
          · exact Or.inl rfl
    · rw [if_neg (by simpa using hpress)]
      have hsame := MouseStep.hover hdrag hpress
      split
      · exact hsame
      · exact hsame

theorem MouseStep.cursor_eq {cursor : Cursor} {r : UInt32 × WmState} (h : s.MouseStep cursor r) :
    r.2.cursor = cursor := by
  cases h with
  | release => rfl
  | drag => rfl
  | desktop => rfl
  | press => rfl
  | hover => rfl

/-! ## Steps of the window manager -/

/-- An event, or an application that creates or destroys a window. -/
inductive Action where
  | event (e : InputEvent)
  | create (x y : Int32) (width height : UInt32) (title : List UInt8)
      (contentBuf contentLen : Nat)
  | destroy (id : UInt32)

/-- The state after an action, on a framebuffer of the given size. -/
def next (fbWidth fbHeight : UInt32) (s : WmState) : Action → WmState
  | .event e => (s.processEvent e fbWidth fbHeight).2
  | .create x y width height title contentBuf contentLen =>
    { s with windows := (s.windows.create x y width height title contentBuf contentLen).2 }
  | .destroy id => { s with windows := (s.windows.destroy id).2 }

/-- The start: no window, no button, and the cursor anywhere. -/
def start (x y : Int32) : WmState := ⟨⟨x, y, 0⟩, .new, .new⟩

/-- What an event leaves alone: all but mouse events change nothing. -/
theorem processEvent_cases (s : WmState) (event : InputEvent) (fbWidth fbHeight : UInt32) :
    (event.eventType = EVENT_MOUSE ∧ s.MouseStep (s.moved event fbWidth fbHeight)
        (s.processEvent event fbWidth fbHeight)) ∨
      (event.eventType ≠ EVENT_MOUSE ∧ (s.processEvent event fbWidth fbHeight).2 = s ∧
        ((s.processEvent event fbWidth fbHeight).1 = s.windows.focusedId ∨
          (s.processEvent event fbWidth fbHeight).1 = 0)) := by
  unfold processEvent
  by_cases hmouse : event.eventType = EVENT_MOUSE
  · rw [if_pos hmouse]
    exact Or.inl ⟨hmouse, processMouse_cases s event fbWidth fbHeight⟩
  · rw [if_neg hmouse]
    refine Or.inr ⟨hmouse, ?_⟩
    split
    · exact ⟨rfl, Or.inl rfl⟩
    · exact ⟨rfl, Or.inr rfl⟩

end WmState

end AeroOS.Wm
