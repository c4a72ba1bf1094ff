import AeroOS.Wm.InputRouter
import AeroOS.Wm.ZOrder

/-!
# Click to focus

A press of the left button on a window gives it the focus and puts it on top.

* `Ordered` is the invariant of the window list: live ids differ, ids and z-orders are below
  the next ones, and at most one live window has the focus.
* `Sound.next`: it is kept by events and applications while the counters do not wrap, and a
  drag lasts only while the left button is held.
* `onTop_raised` is what a press does, and `FocusOnly` what later steps keep of it.
* `click_focuses`: the two together, after every run.
-/

namespace AeroOS.Wm

open Run

namespace WindowList

variable {l : WindowList} {i j c : Fin MAX_WINDOWS} {id : UInt32}

/-! ## The invariant of the list -/

structure Ordered (l : WindowList) : Prop where
  distinct : ∀ i j, (l.windows i).Live → (l.windows j).Live →
    (l.windows i).id = (l.windows j).id → i = j
  freshId : ∀ i, (l.windows i).Live → (l.windows i).id < l.nextId
  freshZ : ∀ i, (l.windows i).Live → (l.windows i).zOrder < l.nextZ
  focus : ∀ i j, (l.windows i).Live → (l.windows j).Live → (l.windows i).focused = true →
    (l.windows j).focused = true → i = j

theorem ordered_new : Ordered new where
  distinct _ _ hi := absurd rfl hi
  freshId _ hi := absurd rfl hi
  freshZ _ hi := absurd rfl hi
  focus _ _ hi := absurd rfl hi

/-- A slot is overwritten with a window that agrees with the others. -/
theorem Ordered.update (h : l.Ordered) {l' : WindowList} {w : Window}
    (hwindows : l'.windows = Function.update l.windows i w) (hid : l.nextId ≤ l'.nextId)
    (hz : l.nextZ ≤ l'.nextZ)
    (hw : w.Live → w.id < l'.nextId ∧ w.zOrder < l'.nextZ ∧
      ∀ j, j ≠ i → (l.windows j).Live → (l.windows j).id ≠ w.id ∧
        ¬ (w.focused = true ∧ (l.windows j).focused = true)) : l'.Ordered := by
  have hall : ∀ p : Window → Prop, p w → (∀ j, p (l.windows j)) → ∀ j, p (l'.windows j) := by
    intro p hpw hp
    rw [hwindows]
    exact (Function.forall_update_iff l.windows (fun _ => p)).2 ⟨hpw, fun j _ => hp j⟩
  constructor
  · rw [hwindows]
    refine Cells.eq_of_update (p := Window.Live) (r := fun v v' => v.id = v'.id)
      (fun _ _ => Eq.symm) h.distinct ?_
    intro hlive j hji hj
    exact ((hw hlive).2.2 j hji hj).1
  · refine hall (fun v => v.Live → v.id < l'.nextId) (fun hlive => (hw hlive).1) ?_
    intro j hj
    exact UInt32.lt_of_lt_of_le (h.freshId j hj) hid
  · refine hall (fun v => v.Live → v.zOrder < l'.nextZ) (fun hlive => (hw hlive).2.1) ?_
    intro j hj
    exact UInt32.lt_of_lt_of_le (h.freshZ j hj) hz
  · rw [hwindows]
    intro j k hj hk hfj hfk
    refine Cells.eq_of_update (p := Window.Live)
      (r := fun v v' => v.focused = true ∧ v'.focused = true)
      (fun _ _ => And.symm) (fun j k hj hk hf => h.focus j k hj hk hf.1 hf.2) ?_ j k hj hk
      ⟨hfj, hfk⟩
    intro hlive j hji hj hf
    exact ((hw hlive).2.2 j hji hj).2 hf.symm

/-- A counter that does not wrap grows. -/
theorem lt_succ_of_ne {a : UInt32} (h : a + 1 ≠ 0) : a < a + 1 := by grind

theorem Ordered.create (h : l.Ordered) (x y : Int32) (width height : UInt32)
    (title : List UInt8) (contentBuf contentLen : Nat)
    (hid : (l.create x y width height title contentBuf contentLen).2.nextId ≠ 0)
    (hz : (l.create x y width height title contentBuf contentLen).2.nextZ ≠ 0) :
    (l.create x y width height title contentBuf contentLen).2.Ordered := by
  rcases l.create_cases x y width height title contentBuf contentLen with
    ⟨heq, -⟩ | ⟨i, hi, -, heq⟩
  · rw [heq]
    exact h
  · rw [heq] at hid hz ⊢
    have hidlt := lt_succ_of_ne hid
    have hzlt := lt_succ_of_ne hz
    refine h.update rfl (UInt32.le_of_lt hidlt) (UInt32.le_of_lt hzlt) ?_
    intro _
    refine ⟨hidlt, hzlt, ?_⟩
    intro j _ hj
    refine ⟨?_, ?_⟩
    · intro heqid
      exact absurd (h.freshId j hj) (by rw [heqid]; exact UInt32.lt_irrefl _)
    · intro hboth
      exact absurd hboth.1 Bool.false_ne_true

theorem Ordered.destroy (h : l.Ordered) (id : UInt32) : (l.destroy id).2.Ordered := by
  unfold WindowList.destroy
  rcases l.withSlot_cases id _ with ⟨heq, -⟩ | ⟨i, -, -, heq⟩
  · rw [heq]
    exact h
  · rw [heq]
    refine h.update rfl (UInt32.le_refl _) (UInt32.le_refl _) ?_
    intro hlive
    exact absurd rfl hlive

/-- An edit that keeps the id and the focus of a window. -/
theorem Ordered.edit (h : l.Ordered) {l' : WindowList} {w : Window}
    (hwindows : l'.windows = Function.update l.windows i w) (hwid : w.id = (l.windows i).id)
    (hwf : w.focused = (l.windows i).focused) (hid : l'.nextId = l.nextId)
    (hz : l.nextZ ≤ l'.nextZ) (hwz : w.Live → w.zOrder < l'.nextZ) : l'.Ordered := by
  refine h.update hwindows (by rw [hid]; exact UInt32.le_refl _) hz ?_
  intro hlive
  have hlive' : (l.windows i).Live := by rwa [Window.Live, ← hwid]
  refine ⟨by rw [hid, hwid]; exact h.freshId i hlive', hwz hlive, ?_⟩
  intro j hji hj
  refine ⟨?_, ?_⟩
  · intro heq
    exact hji (h.distinct j i hj hlive' (heq.trans hwid))
  · rintro ⟨hf, hfj⟩
    rw [hwf] at hf
    exact hji (h.focus j i hj hlive' hfj hf)

theorem Ordered.moveWindow (h : l.Ordered) (id : UInt32) (x y : Int32) :
    (l.moveWindow id x y).2.Ordered := by
  unfold WindowList.moveWindow
  rcases l.withSlot_cases id _ with ⟨heq, -⟩ | ⟨i, -, -, heq⟩
  · rw [heq]
    exact h
  · rw [heq]
    exact h.edit rfl rfl rfl rfl (UInt32.le_refl _) (h.freshZ i)

theorem Ordered.raiseToTop (h : l.Ordered) (id : UInt32)
    (hz : (l.raiseToTop id).2.nextZ ≠ 0) : (l.raiseToTop id).2.Ordered := by
  unfold WindowList.raiseToTop at *
  rcases l.withSlot_cases id _ with ⟨heq, -⟩ | ⟨i, -, -, heq⟩
  · rw [heq]
    exact h
  · rw [heq] at hz ⊢
    have hzlt := lt_succ_of_ne hz
    exact h.edit rfl rfl rfl rfl (UInt32.le_of_lt hzlt) (fun _ => hzlt)

theorem Ordered.setFocus (h : l.Ordered) (id : UInt32) : (l.setFocus id).Ordered where
  distinct := h.distinct
  freshId := h.freshId
  freshZ := h.freshZ
  focus i j hi hj hfi hfj := by
    have hidi : (l.windows i).id = id := by simpa [WindowList.setFocus] using hfi
    have hidj : (l.windows j).id = id := by simpa [WindowList.setFocus] using hfj
    exact h.distinct i j hi hj (hidi.trans hidj.symm)

/-! ## A window on top -/

/-- The window in the slot is the only one with the focus, and strictly above the others. -/
def OnTop (l : WindowList) (c : Fin MAX_WINDOWS) : Prop :=
  (l.windows c).Live ∧ (l.windows c).focused = true ∧
    ∀ j, j ≠ c → (l.windows j).Live →
      (l.windows j).focused = false ∧ (l.windows j).zOrder < (l.windows c).zOrder

/-- A window on top is hit wherever it is. -/
theorem OnTop.hitTest {px py : Int32} (h : l.OnTop c) (hhit : l.Hits px py c) :
    l.hitTest px py = (l.windows c).id := by
  rcases l.hitTest_cases px py with ⟨hnone, -⟩ | ⟨c', hc', heq⟩
  · exact absurd hhit (hnone c)
  · rcases hc'.2.2 c (List.mem_finRange c) hhit with rfl | hbelow
    · exact heq
    · by_cases hcc : c' = c
      · rw [heq, hcc]
      · have hlt := (h.2.2 c' hcc hc'.2.1.1.1).2
        have hle := hbelow.zOrder_le
        exact absurd hlt (UInt32.not_lt.2 hle)

theorem raiseToTop_windows (h : l.slotOf id = some c) :
    (l.raiseToTop id).2.windows =
      Function.update l.windows c { l.windows c with zOrder := l.nextZ } := by
  rw [raiseToTop, withSlot, h]

/-- What a press on a window does: `set_focus`, then `raise_to_top`. -/
theorem onTop_raised (h : l.Ordered) (hc : (l.windows c).Live) :
    let l' := ((l.setFocus (l.windows c).id).raiseToTop (l.windows c).id).2
    l'.OnTop c ∧
      l'.windows c = { l.windows c with focused := true, zOrder := l.nextZ } := by
  intro l'
  have huniq : ∀ j, (l.windows j).id = (l.windows c).id → j = c := by
    intro j hj
    refine h.distinct j c ?_ hc hj
    rw [Window.Live, hj]
    exact hc
  have hslot : (l.setFocus (l.windows c).id).slotOf (l.windows c).id = some c := by
    rw [(l.sameIds_setFocus _).slotOf]
    refine Cells.position_eq_some_of_unique (by simp) ?_
    intro j hj
    exact huniq j (by simpa using hj)
  have hwindows := raiseToTop_windows hslot
  have hself : l'.windows c = { l.windows c with focused := true, zOrder := l.nextZ } := by
    rw [hwindows, Function.update_self]
    simp [setFocus]
  have hother : ∀ j, j ≠ c → l'.windows j = { l.windows j with focused := false } := by
    intro j hj
    have hne : ((l.windows j).id == (l.windows c).id) = false := by
      rw [beq_eq_false_iff_ne]
      intro heq
      exact hj (huniq j heq)
    rw [hwindows, Function.update_of_ne hj]
    simp only [setFocus, hne]
  refine ⟨⟨?_, ?_, ?_⟩, hself⟩
  · rw [hself]
    exact hc
  · rw [hself]
  · intro j hj hlive
    rw [hother j hj] at hlive ⊢
    rw [hself]
    exact ⟨rfl, h.freshZ j hlive⟩

/-! ## The focus later -/

/-- The window with the id is the only one with the focus. -/
def FocusOnly (l : WindowList) (id : UInt32) : Prop :=
  ∃ c, (l.windows c).id = id ∧ (l.windows c).Live ∧ (l.windows c).focused = true ∧
    ∀ j, j ≠ c → (l.windows j).Live → (l.windows j).focused = false

theorem OnTop.focusOnly (h : l.OnTop c) : l.FocusOnly (l.windows c).id :=
  ⟨c, rfl, h.1, h.2.1, fun j hj hlive => (h.2.2 j hj hlive).1⟩

theorem FocusOnly.focusedId (h : l.FocusOnly id) : l.focusedId = id := by
  obtain ⟨c, hid, hc, hfocused, honly⟩ := h
  rcases l.focusedId_cases with ⟨hnone, -⟩ | ⟨i, hi, hfi, heq⟩
  · rw [hnone c hc] at hfocused
    cases hfocused
  · by_cases hic : i = c
    · rw [heq, hic, hid]
    · rw [honly i hic hi] at hfi
      cases hfi

/-- Another slot is overwritten with a window that does not have the focus, or is emptied. -/
theorem FocusOnly.update (h : l.FocusOnly id) {l' : WindowList} {w : Window}
    (hwindows : l'.windows = Function.update l.windows i w) (hi : (l.windows i).id ≠ id)
    (hw : w.Live → w.focused = false) : l'.FocusOnly id := by
  obtain ⟨c, hid, hc, hfocused, honly⟩ := h
  have hci : c ≠ i := by
    rintro rfl
    exact hi hid
  refine ⟨c, ?_, ?_, ?_, ?_⟩
  · rw [hwindows, Function.update_of_ne hci, hid]
  · rw [hwindows, Function.update_of_ne hci]
    exact hc
  · rw [hwindows, Function.update_of_ne hci, hfocused]
  · intro j hj hlive
    rw [hwindows] at hlive ⊢
    by_cases hji : j = i
    · subst hji
      rw [Function.update_self] at hlive ⊢
      exact hw hlive
    · rw [Function.update_of_ne hji] at hlive ⊢
      exact honly j hj hlive

theorem FocusOnly.create (h : l.FocusOnly id) (x y : Int32) (width height : UInt32)
    (title : List UInt8) (contentBuf contentLen : Nat) :
    (l.create x y width height title contentBuf contentLen).2.FocusOnly id := by
  rcases l.create_cases x y width height title contentBuf contentLen with
    ⟨heq, -⟩ | ⟨i, hi, -, heq⟩
  · rw [heq]
    exact h
  · rw [heq]
    refine h.update rfl ?_ (fun _ => rfl)
    obtain ⟨c, hid, hc, -⟩ := h
    rw [hi, ← hid]
    exact hc.symm

theorem FocusOnly.destroy (h : l.FocusOnly id) {id' : UInt32} (hne : id' ≠ id) :
    (l.destroy id').2.FocusOnly id := by
  unfold WindowList.destroy
  rcases l.withSlot_cases id' _ with ⟨heq, -⟩ | ⟨i, -, hi, heq⟩
  · rw [heq]
    exact h
  · rw [heq]
    refine h.update rfl (by rw [hi]; exact hne) ?_
    intro hlive
    exact absurd rfl hlive

theorem FocusOnly.moveWindow (h : l.FocusOnly id) (id' : UInt32) (x y : Int32) :
    (l.moveWindow id' x y).2.FocusOnly id := by
  unfold WindowList.moveWindow
  rcases l.withSlot_cases id' _ with ⟨heq, -⟩ | ⟨i, -, -, heq⟩
  · rw [heq]
    exact h
  · have hkeep : ∀ j, (Function.update l.windows i { l.windows i with x, y } j).id =
        (l.windows j).id ∧ (Function.update l.windows i { l.windows i with x, y } j).focused =
        (l.windows j).focused := by
      intro j
      by_cases hji : j = i
      · subst hji
        rw [Function.update_self]
        exact ⟨rfl, rfl⟩
      · rw [Function.update_of_ne hji]
        exact ⟨rfl, rfl⟩
    obtain ⟨c, hid, hc, hfocused, honly⟩ := h
    rw [heq]
    refine ⟨c, (hkeep c).1.trans hid, ?_, (hkeep c).2.trans hfocused, ?_⟩
    · exact (hkeep c).1.trans_ne hc
    · intro j hj hlive
      have hlive' : (l.windows j).Live := (hkeep j).1.symm.trans_ne hlive
      exact (hkeep j).2.trans (honly j hj hlive')

end WindowList

namespace WmState

variable {s : WmState} {fbWidth fbHeight : UInt32}

/-! ## Runs -/

/-- The event presses the left button. -/
def Presses (s : WmState) (e : InputEvent) : Prop :=
  e.eventType = EVENT_MOUSE ∧ (e.mouseButtons &&& 0x01 != 0) = true ∧ s.cursor.leftButton = false

/-- Neither counter has wrapped to 0. -/
def Unwrapped (s : WmState) : Prop := s.windows.nextId ≠ 0 ∧ s.windows.nextZ ≠ 0

/-- A step after which the counters have not wrapped. -/
def Step (fbWidth fbHeight : UInt32) (s : WmState) (a : Action) (s' : WmState) : Prop :=
  s' = next fbWidth fbHeight s a ∧ s'.Unwrapped

/-- Only live windows are destroyed. -/
def DestroysLive (s : WmState) : Action → Prop
  | .destroy id => s.windows.HasId id
  | .event _ | .create .. => True

/-- The invariant of a run. -/
structure Sound (s : WmState) : Prop where
  ordered : s.windows.Ordered
  drag : s.drag.isDragging = true → s.cursor.leftButton = true

theorem sound_start (x y : Int32) : Sound (start x y) where
  ordered := WindowList.ordered_new
  drag h := by cases h

/-- A mouse event keeps the invariant, one case for each thing that it can do. -/
theorem MouseStep.sound {cursor : Cursor} {r : UInt32 × WmState} (h : s.MouseStep cursor r)
    (hs : s.Sound) (hr : r.2.Unwrapped) : r.2.Sound := by
  cases h with
  | release hdrag hleft => exact ⟨hs.ordered, fun hstop => absurd hstop Bool.false_ne_true⟩
  | drag hdrag hleft => exact ⟨hs.ordered.moveWindow _ _ _, fun _ => hleft⟩
  | desktop hdrag hleft hprev hhit => exact ⟨hs.ordered.setFocus 0, fun _ => hleft⟩
  | press hdrag hleft hprev hhit hstart =>
    exact ⟨(hs.ordered.setFocus _).raiseToTop _ hr.2, fun _ => hleft⟩
  | hover hdrag hpress =>
    exact ⟨hs.ordered, fun hdrag' => absurd hdrag' (Bool.eq_false_iff.1 hdrag)⟩

/-- A step keeps the invariant. -/
theorem Sound.step (hs : s.Sound) {a : Action} {s' : WmState}
    (h : Step fbWidth fbHeight s a s') : s'.Sound := by
  obtain ⟨rfl, hwrap⟩ := h
  cases a with
  | event e =>
    rcases processEvent_cases s e fbWidth fbHeight with ⟨-, hstep⟩ | ⟨-, hsame, -⟩
    · exact hstep.sound hs hwrap
    · show (s.processEvent e fbWidth fbHeight).2.Sound
      rw [hsame]
      exact hs
  | create x y width height title contentBuf contentLen =>
    exact ⟨hs.ordered.create x y width height title contentBuf contentLen hwrap.1 hwrap.2,
      hs.drag⟩
  | destroy id => exact ⟨hs.ordered.destroy id, hs.drag⟩

theorem sound_of_run {x y : Int32}
    (h : Reaches (Step fbWidth fbHeight) DestroysLive (start x y) s) : s.Sound :=
  h.invariant (fun _ _ _ hs _ hstep => hs.step hstep) (sound_start x y)

/-- A step that leaves the focus alone: an event that does not press the left button, or an
application that creates a window or destroys another one. -/
def Quiet (id : UInt32) (s : WmState) : Action → Prop
  | .event e => ¬ s.Presses e
  | .create .. => True
  | .destroy id' => id' ≠ id

theorem MouseStep.focusOnly {id : UInt32} {cursor : Cursor} {r : UInt32 × WmState}
    (h : s.MouseStep cursor r) (hs : s.windows.FocusOnly id)
    (hquiet : ¬ (cursor.leftButton = true ∧ s.cursor.leftButton = false)) :
    r.2.windows.FocusOnly id := by
  cases h with
  | release hdrag hleft => exact hs
  | drag hdrag hleft => exact hs.moveWindow _ _ _
  | desktop hdrag hleft hprev hhit => exact absurd ⟨hleft, hprev⟩ hquiet
  | press hdrag hleft hprev hhit hstart => exact absurd ⟨hleft, hprev⟩ hquiet
  | hover hdrag hpress => exact hs

/-- Quiet steps keep the focus. -/
theorem focusOnly_next {id : UInt32} (hs : s.windows.FocusOnly id) {a : Action}
    (ha : s.Quiet id a) : (next fbWidth fbHeight s a).windows.FocusOnly id := by
  cases a with
  | event e =>
    rcases processEvent_cases s e fbWidth fbHeight with ⟨hmouse, hstep⟩ | ⟨-, hsame, -⟩
    · exact hstep.focusOnly hs (fun hpress => ha ⟨hmouse, hpress⟩)
    · show (s.processEvent e fbWidth fbHeight).2.windows.FocusOnly id
      rw [hsame]
      exact hs
  | create x y width height title contentBuf contentLen =>
    exact hs.create x y width height title contentBuf contentLen
  | destroy id' => exact hs.destroy ha

/-! ## A press -/

/-- A press that hits a window. -/
theorem Sound.press (hs : s.Sound) {e : InputEvent} (he : s.Presses e) {w : UInt32}
    (hw : w = s.windows.hitTest (s.moved e fbWidth fbHeight).x (s.moved e fbWidth fbHeight).y)
    (hw0 : w ≠ 0) :
    let s' := (s.processEvent e fbWidth fbHeight).2
    ∃ c, (s'.windows.windows c).id = w ∧ s'.windows.OnTop c ∧
      s'.windows.hitTest (s.moved e fbWidth fbHeight).x (s.moved e fbWidth fbHeight).y = w := by
  obtain ⟨hmouse, hleft, hprev⟩ := he
  have hnodrag : ¬ s.drag.isDragging = true := by
    intro hdrag
    rw [hs.drag hdrag] at hprev
    cases hprev
  rcases processEvent_cases s e fbWidth fbHeight with ⟨-, hstep⟩ | ⟨hother, -⟩
  · generalize s.processEvent e fbWidth fbHeight = r at hstep
    set cursor := s.moved e fbWidth fbHeight
    cases hstep with
    | release hdrag hleft => exact absurd hdrag hnodrag
    | drag hdrag hleft => exact absurd hdrag hnodrag
    | desktop hdrag hleft hprev hhit => exact absurd (hw.trans hhit) hw0
    | press hdrag hleft hprev hhit hstart =>
      rcases s.windows.hitTest_cases cursor.x cursor.y with ⟨-, hzero⟩ | ⟨c, hc, heq⟩
      · exact absurd hzero hhit
      · rw [← hw] at heq ⊢
        obtain ⟨htop, hwin⟩ := WindowList.onTop_raised hs.ordered hc.2.1.1.1
        rw [← heq] at htop hwin
        have hid : ((s.raised w).windows c).id = w := by
          rw [raised, hwin]
          exact heq.symm
        have hhits : (s.raised w).Hits cursor.x cursor.y c := by
          rw [WindowList.Hits, Window.Shown, raised, hwin]
          exact hc.2.1
        exact ⟨c, hid, htop, (htop.hitTest hhits).trans hid⟩
    | hover hdrag hpress => exact absurd ⟨hleft, hprev⟩ hpress
  · exact absurd hmouse hother

/-- After every run, at most one live window has the focus; and a press on a window gives it
the focus alone and puts it strictly above the others, so that it is hit at that point and gets
the keyboard until the focus changes. -/
theorem click_focuses {x y : Int32}
    (h : Reaches (Step fbWidth fbHeight) DestroysLive (start x y) s) :
    (∀ i j, (s.windows.windows i).Live → (s.windows.windows j).Live →
      (s.windows.windows i).focused = true → (s.windows.windows j).focused = true → i = j) ∧
    ∀ e w, s.Presses e →
      let s' := (s.processEvent e fbWidth fbHeight).2
      s'.Unwrapped → w = s.windows.hitTest s'.cursor.x s'.cursor.y → w ≠ 0 →
        (∃ c, (s'.windows.windows c).id = w ∧ s'.windows.OnTop c) ∧
        s'.windows.hitTest s'.cursor.x s'.cursor.y = w ∧
        ∀ s'' k, Reaches (fun s a s' => s' = next fbWidth fbHeight s a) (Quiet w) s' s'' →
          k.eventType = EVENT_KEYBOARD → (s''.processEvent k fbWidth fbHeight).1 = w := by
  have hs := sound_of_run h
  refine ⟨hs.ordered.focus, ?_⟩
  intro e w he s' _ hw hw0
  have hcursor : s'.cursor = s.moved e fbWidth fbHeight := by
    rcases processEvent_cases s e fbWidth fbHeight with ⟨-, hstep⟩ | ⟨hother, -⟩
    · exact hstep.cursor_eq
    · exact absurd he.1 hother
  rw [hcursor] at hw ⊢
  obtain ⟨c, hid, htop, hhit⟩ := hs.press he hw hw0
  refine ⟨⟨c, hid, htop⟩, hhit, ?_⟩
  intro s'' k hrun hk
  have hfocus : s''.windows.FocusOnly w := by
    refine hrun.invariant (I := fun s => s.windows.FocusOnly w) ?_ ?_
    · intro s a s' hs ha hstep
      rw [hstep]
      exact focusOnly_next hs ha
    · rw [← hid]
      exact htop.focusOnly
  rw [processEvent, if_neg (by rw [hk]; decide), if_pos hk]
  exact hfocus.focusedId

/-- A window is created and pressed. -/
theorem click_focuses_one :
    let s := next 640 480 (start 0 0) (.create 0 0 10 10 [] 0 0)
    let s' := (s.processEvent ⟨EVENT_MOUSE, 1, 5, 5⟩ 640 480).2
    s'.windows.hitTest s'.cursor.x s'.cursor.y = 1 := by
  intro s s'
  have hstep : Step 640 480 (start 0 0) (.create 0 0 10 10 [] 0 0) s :=
    ⟨rfl, by decide, by decide⟩
  have hlive : (start 0 0).DestroysLive (.create 0 0 10 10 [] 0 0) := trivial
  have hrun : Reaches (Step 640 480) DestroysLive (start 0 0) s :=
    (Reaches.refl (start 0 0)).snoc hlive hstep
  exact ((click_focuses hrun).2 ⟨EVENT_MOUSE, 1, 5, 5⟩ 1 ⟨rfl, by decide, by decide⟩
    ⟨by decide, by decide⟩ (by decide) (by decide)).2.1

end WmState

end AeroOS.Wm
