import AeroOS.Wm.InputRouter
import AeroOS.Wm.ZOrder

/-!
# Dragging a window

The drag state names a window by its id, and `destroy` does not know of it.

* `DragInvariant` is what dragging should keep in every state.
* `dragInvariant_of_run`: it holds in every run in which no window is destroyed while it is
  dragged.
* `not_dragInvariant_destroyed`: after such a `destroy` it does not.
-/

namespace AeroOS.Wm

open Run

namespace WmState

variable {s : WmState} {fbWidth fbHeight : UInt32}

/-- The dragged window is live. -/
def DragsLive (s : WmState) : Prop :=
  s.drag.isDragging = true → s.windows.HasId s.drag.windowId

/-- The origin of the dragged window is the cursor, less the offset of the drag. -/
def Follows (s : WmState) : Prop :=
  ∃ win, s.windows.get s.drag.windowId = some win ∧
    win.x = s.cursor.x - s.drag.offsetX ∧ win.y = s.cursor.y - s.drag.offsetY

/-- In the state, the dragged window is live; an event is for no window or a live one, it
leaves the offset of a drag that goes on, and after a mouse event with the left button held
the dragged window follows the cursor. -/
def DragInvariant (fbWidth fbHeight : UInt32) (s : WmState) : Prop :=
  s.DragsLive ∧ ∀ e,
    let r := (s.processEvent e fbWidth fbHeight).1
    let s' := (s.processEvent e fbWidth fbHeight).2
    (r = 0 ∨ s'.windows.HasId r) ∧
      (s.drag.isDragging = true → s'.drag.isDragging = true → s'.drag = s.drag) ∧
      (e.eventType = EVENT_MOUSE → s'.cursor.leftButton = true → s'.drag.isDragging = true →
        s'.Follows)

/-! ## What an event keeps -/

theorem sameIds_raised (s : WmState) (hitId : UInt32) :
    WindowList.SameIds s.windows (s.raised hitId) :=
  (s.windows.sameIds_setFocus hitId).trans (WindowList.sameIds_raiseToTop _ hitId)

/-- A window that is moved is found where it was moved to. -/
theorem get_moveWindow {l : WindowList} {id : UInt32} (h : l.HasId id) (x y : Int32) :
    ∃ win, (l.moveWindow id x y).2.get id = some win ∧ win.x = x ∧ win.y = y := by
  obtain ⟨i, hi⟩ := h.exists_slot
  have hslot := ((l.sameIds_moveWindow id x y).slotOf id).trans hi
  refine ⟨(l.moveWindow id x y).2.windows i, ?_, ?_⟩
  · rw [WindowList.get, hslot]
    rfl
  · rw [WindowList.moveWindow, WindowList.withSlot, hi]
    simp

/-- A mouse event, one case for each thing that it can do. -/
theorem MouseStep.keeps {cursor : Cursor} {r : UInt32 × WmState} (h : s.MouseStep cursor r)
    (hs : s.DragsLive) :
    r.2.DragsLive ∧ (r.1 = 0 ∨ r.2.windows.HasId r.1) ∧
      (s.drag.isDragging = true → r.2.drag.isDragging = true → r.2.drag = s.drag) ∧
      (r.2.drag.isDragging = true → r.2.Follows) := by
  cases h with
  | release hdrag hleft =>
    refine ⟨?_, Or.inl rfl, ?_, ?_⟩
    · intro hstop
      cases hstop
    · intro _ hstop
      cases hstop
    · intro hstop
      cases hstop
  | drag hdrag hleft =>
    have hid := (hs hdrag).sameIds (s.windows.sameIds_moveWindow s.drag.windowId
      (cursor.x - s.drag.offsetX) (cursor.y - s.drag.offsetY))
    exact ⟨fun _ => hid, Or.inr hid, fun _ _ => rfl, fun _ => get_moveWindow (hs hdrag) _ _⟩
  | desktop hdrag hleft hprev hhit =>
    have hno : ¬ s.drag.isDragging = true := Bool.eq_false_iff.1 hdrag
    exact ⟨fun h => absurd h hno, Or.inl rfl, fun _ _ => rfl, fun h => absurd h hno⟩
  | @press hdrag hleft hprev hhit drag hstart =>
    have hno : ¬ s.drag.isDragging = true := Bool.eq_false_iff.1 hdrag
    have hid := (WindowList.hitTest_hasId hhit).sameIds
      (s.sameIds_raised (s.windows.hitTest cursor.x cursor.y))
    rcases hstart with rfl | ⟨win, hwin, rfl⟩
    · exact ⟨fun h => absurd h hno, Or.inr hid, fun _ _ => rfl, fun h => absurd h hno⟩
    · refine ⟨fun _ => hid, Or.inr hid, fun h => absurd h hno, ?_⟩
      intro _
      refine ⟨win, hwin, ?_, ?_⟩
      · show win.x = cursor.x - (cursor.x - win.x)
        grind
      · show win.y = cursor.y - (cursor.y - win.y)
        grind
  | hover hdrag hpress =>
    have hno : ¬ s.drag.isDragging = true := Bool.eq_false_iff.1 hdrag
    refine ⟨fun h => absurd h hno, ?_, fun _ _ => rfl, fun h => absurd h hno⟩
    by_cases hhit : s.windows.hitTest cursor.x cursor.y = 0
    · exact Or.inl hhit
    · exact Or.inr (WindowList.hitTest_hasId hhit)

/-- Events keep the dragged window live. -/
theorem DragsLive.processEvent (hs : s.DragsLive) (e : InputEvent) :
    (s.processEvent e fbWidth fbHeight).2.DragsLive := by
  rcases processEvent_cases s e fbWidth fbHeight with ⟨-, hstep⟩ | ⟨-, hsame, -⟩
  · exact (hstep.keeps hs).1
  · rw [hsame]
    exact hs

theorem dragInvariant_of_dragsLive (hs : s.DragsLive) : s.DragInvariant fbWidth fbHeight := by
  refine ⟨hs, ?_⟩
  intro e
  rcases processEvent_cases s e fbWidth fbHeight with ⟨-, hstep⟩ | ⟨hmouse, hsame, hr⟩
  · obtain ⟨-, hid, hoffset, hfollows⟩ := hstep.keeps hs
    exact ⟨hid, hoffset, fun _ _ => hfollows⟩
  · refine ⟨?_, ?_, ?_⟩
    · rcases hr with hr | hr
      · rw [hsame, hr]
        rcases s.windows.focusedId_cases with ⟨-, hzero⟩ | ⟨i, hi, -, hfocused⟩
        · exact Or.inl hzero
        · rw [hfocused]
          exact Or.inr ⟨hi, i, rfl⟩
      · exact Or.inl hr
    · intro _ _
      rw [hsame]
    · intro hmouse'
      exact absurd hmouse' hmouse

/-! ## Runs -/

/-- The window that is dragged is not destroyed. -/
def SparesDragged (s : WmState) : Action → Prop
  | .destroy id => s.drag.isDragging = true → id ≠ s.drag.windowId
  | .event _ | .create .. => True

theorem DragsLive.next (hs : s.DragsLive) {a : Action} (ha : s.SparesDragged a) :
    (next fbWidth fbHeight s a).DragsLive := by
  cases a with
  | event e => exact hs.processEvent e
  | create x y width height title contentBuf contentLen =>
    intro hdrag
    exact (hs hdrag).create x y width height title contentBuf contentLen
  | destroy id =>
    intro hdrag
    exact (hs hdrag).destroy (ha hdrag)

/-- In a run in which no window is destroyed while it is dragged, dragging is sound. -/
theorem dragInvariant_of_run {x y : Int32} {actions : List Action}
    (h : AllOk (WmState.next fbWidth fbHeight) SparesDragged (start x y) actions) :
    (actions.foldl (WmState.next fbWidth fbHeight) (start x y)).DragInvariant
      fbWidth fbHeight := by
  have hlive : (actions.foldl (WmState.next fbWidth fbHeight) (start x y)).DragsLive := by
    refine (Reaches.foldl h).invariant ?_ ?_
    · intro s a s' hs ha hstep
      rw [hstep]
      exact hs.next ha
    · intro hdrag
      cases hdrag
  exact dragInvariant_of_dragsLive hlive

/-- A window is created, and grabbed at its title bar. -/
def grab : List Action :=
  [.create 0 0 10 10 [] 0 0, .event ⟨EVENT_MOUSE, 1, 5, 5⟩]

/-- A window is grabbed and moved. -/
theorem dragInvariant_grab :
    ((grab ++ [Action.event ⟨EVENT_MOUSE, 1, 3, 0⟩]).foldl (WmState.next 640 480)
      (start 0 0)).DragInvariant 640 480 :=
  dragInvariant_of_run ⟨trivial, trivial, trivial, trivial⟩

/-- The window is destroyed while it is dragged: the next event with the button held is for
the id 1, which no window has. -/
theorem not_dragInvariant_destroyed :
    ¬ ((grab ++ [Action.destroy 1]).foldl (WmState.next 640 480) (start 0 0)).DragInvariant 640 480 := by
  intro h
  rcases (h.2 ⟨EVENT_MOUSE, 1, 3, 0⟩).1 with hzero | ⟨-, hid⟩
  · exact absurd hzero (by decide)
  · exact absurd hid (by decide)

end WmState

end AeroOS.Wm
