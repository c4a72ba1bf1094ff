import AeroOS.Syscalls.Dispatch

/-!
# Input events

`poll_next` gives the window manager one event a call, first from the scancode
ring and then from the mouse; IRQ 12 gives the mouse driver one byte at a time.

There are four groups.

* `pollNext` and `sysPollInput_eq`: the event of a call. The lemmas
  `pollNext_cases` and `pollNext_mouse` say what a poll takes away.
* `delivered_of_run`: a changed button mask is reported by the next poll, as long
  as no packet releases the last button without movement.
* `drains_iff`: the loop that polls until nothing is left ends if and only if no
  button is held and no prefix of an extended key waits.
* `pollNext_returns_iff`: a poll that finds such a prefix does not return.
-/

namespace AeroOS.Syscalls

open Bytes Fs Run

/-! ## The mouse driver -/

/-- An `i16` addition that saturates. -/
def saturatingAdd (a b : Int) : Int := max (-32768) (min 32767 (a + b))

/-- The movement of a packet: the last two bytes, or the bounds when the status byte says
that they overflowed. Up is positive. -/
def packetDelta (status x y : UInt8) : Int × Int :=
  (if status &&& 0x40 ≠ 0 then if status &&& 0x10 ≠ 0 then -256 else 255 else x.toInt8.toInt,
    if status &&& 0x80 ≠ 0 then if status &&& 0x20 ≠ 0 then 255 else -256 else -y.toInt8.toInt)

/-- Process a complete packet. -/
def completePacket (m : MouseState) (status x y : UInt8) : MouseState where
  dx := saturatingAdd m.dx (packetDelta status x y).1
  dy := saturatingAdd m.dy (packetDelta status x y).2
  buttons := status &&& 0x07

/-- Process one byte; `packet` holds the bytes of the unfinished packet. -/
def onByte (m : MouseState) (packet : List UInt8) (byte : UInt8) : MouseState × List UInt8 :=
  match packet with
  | [] => if byte &&& 0x08 = 0 then (m, []) else (m, [byte])
  | [status] => (m, [status, byte])
  | status :: x :: _ => (completePacket m status x byte, [])

/-! ## One poll -/

/-- What `poll_next` reports. -/
inductive InputEvent where
  | keyboard (keycode keyChar : Nat) (keyPressed : UInt8)
  | mouse (mouseButtons : UInt8) (mouseDx mouseDy : Int)

/-- The layout of an event. -/
def InputEvent.bytes : InputEvent → List UInt8
  | keyboard keycode keyChar keyPressed => inputEvent 0 keycode keyChar keyPressed 0 0 0
  | mouse mouseButtons mouseDx mouseDy => inputEvent 1 0 0 0 mouseButtons mouseDx mouseDy

/-- The event of a scancode. -/
def keyEvent (sc : UInt8) : InputEvent :=
  .keyboard (sc &&& 0x7F).toNat ((scancodeToAscii (sc &&& 0x7F)).elim 0 (·.toNat))
    (if sc &&& 0x80 != 0 then 0 else 1)

/-- How `poll_next` ends: it spins on the lock of the ring, or returns 0 or 1. -/
inductive Poll where
  | stuck
  | idle
  | event (e : InputEvent)

/-- The mouse part of `poll_next`. -/
def pollMouse (m : MouseState) : Poll × MouseState :=
  match m.drain with
  | ((dx, dy, buttons), m) =>
    (if dx ≠ 0 ∨ dy ≠ 0 ∨ buttons ≠ 0 then .event (.mouse buttons dx dy) else .idle, m)

/-- `poll_next`. -/
def pollNext (d : Devices) : Poll × Devices :=
  match pollKey 256 false d.scancodes with
  | (.stuck, b) => (.stuck, { d with scancodes := b })
  | (.key sc, b) => (.event (keyEvent sc), { d with scancodes := b })
  | (.empty, b) =>
    ((pollMouse d.mouse).1, { d with scancodes := b, mouse := (pollMouse d.mouse).2 })

/-- The reply of `poll_input` for a poll. -/
def Poll.reply (eventPtr : Nat) : Poll → Reply
  | stuck => ⟨none, []⟩
  | idle => .value 0
  | event e => ⟨some 1, [(eventPtr, e.bytes)]⟩

/-- The system call returns 1 and stores the event, or 0, or does not return. -/
theorem sysPollInput_eq {τ : Type} (m : Machine τ) {eventPtr : Nat} (hp : eventPtr ≠ 0) :
    sysPollInput m eventPtr =
      ((pollNext m.devices).1.reply eventPtr, { m with devices := (pollNext m.devices).2 }) := by
  rw [sysPollInput, if_neg hp, pollNext]
  rcases pollKey 256 false m.devices.scancodes with ⟨_ | _ | sc, b⟩
  · rfl
  · simp only [pollMouse]
    split <;> rfl
  · rfl

/-- A prefix of an extended key. -/
def IsPrefix (sc : UInt8) : Prop := sc = 0xE0 ∨ sc = 0xE1

instance (sc : UInt8) : Decidable (IsPrefix sc) := inferInstanceAs (Decidable (_ ∨ _))

/-- The keyboard part looks at the first byte that waits. -/
theorem pollKey_cases (n : Nat) (b : ScancodeBuffer) :
    b.pending = [] ∧ pollKey (n + 2) false b = (.empty, b) ∨
      ∃ sc b', b.pending = sc :: b'.pending ∧
        pollKey (n + 2) false b = (if IsPrefix sc then .stuck else .key sc, b') := by
  rw [pollKey, if_neg Bool.false_ne_true]
  cases hpop : b.pop with
  | none => exact Or.inl ⟨ScancodeBuffer.pending_of_pop_none hpop, rfl⟩
  | some r =>
    obtain ⟨sc, b'⟩ := r
    refine Or.inr ⟨sc, b', ScancodeBuffer.pop_eq_some hpop, ?_⟩
    by_cases h : IsPrefix sc
    · rw [if_pos h]
      exact (if_pos h).trans (if_pos rfl)
    · rw [if_neg h]
      exact if_neg h

/-- A poll with no key waiting drains the mouse; with one waiting it takes the key
and leaves the mouse, or is stuck at a prefix. -/
theorem pollNext_cases (d : Devices) :
    (d.scancodes.pending = [] ∧
        (pollNext d).1 = (if d.mouse.dx ≠ 0 ∨ d.mouse.dy ≠ 0 ∨ d.mouse.buttons ≠ 0 then
          .event (.mouse d.mouse.buttons d.mouse.dx d.mouse.dy) else .idle) ∧
        (pollNext d).2.mouse = { d.mouse with dx := 0, dy := 0 } ∧
        (pollNext d).2.scancodes.pending = []) ∨
      ∃ sc rest, d.scancodes.pending = sc :: rest ∧
        (pollNext d).1 = (if IsPrefix sc then .stuck else .event (keyEvent sc)) ∧
        (pollNext d).2.mouse = d.mouse ∧ (pollNext d).2.scancodes.pending = rest := by
  rcases pollKey_cases 254 d.scancodes with ⟨hempty, hkey⟩ | ⟨sc, b', hpend, hkey⟩
  · left
    rw [pollNext, hkey]
    exact ⟨hempty, rfl, rfl, hempty⟩
  · right
    refine ⟨sc, b'.pending, hpend, ?_⟩
    rw [pollNext, hkey]
    by_cases h : IsPrefix sc
    · rw [if_pos h, if_pos h]
      exact ⟨rfl, rfl, rfl⟩
    · rw [if_neg h, if_neg h]
      exact ⟨rfl, rfl, rfl⟩

/-- With no key waiting the poll drains the mouse. -/
theorem pollNext_mouse {d : Devices} (h : d.scancodes.pending = []) :
    (pollNext d).1 = (if d.mouse.dx ≠ 0 ∨ d.mouse.dy ≠ 0 ∨ d.mouse.buttons ≠ 0 then
        .event (.mouse d.mouse.buttons d.mouse.dx d.mouse.dy) else .idle) ∧
      (pollNext d).2.mouse = { d.mouse with dx := 0, dy := 0 } ∧
      (pollNext d).2.scancodes.pending = [] := by
  rcases pollNext_cases d with ⟨-, hmouse⟩ | ⟨sc, rest, hne, -⟩
  · exact hmouse
  · rw [h] at hne
    cases hne

/-! ## Packets and polls -/

/-- The devices, the bytes of the unfinished mouse packet, and the button mask of the last
mouse event that was reported. -/
structure Watch where
  devices : Devices
  packet : List UInt8
  reported : UInt8

/-- A byte from the mouse, or a poll. -/
inductive InputStep where
  | irq12 (byte : UInt8)
  | poll

namespace Watch

/-- Nothing has happened since boot. -/
def boot (graphics : Option Graphics) : Watch := ⟨⟨graphics, .new, ⟨0, 0, 0⟩⟩, [], 0⟩

/-- The handler of IRQ 12. -/
def irq12 (w : Watch) (byte : UInt8) : Watch :=
  { w with
    devices := { w.devices with mouse := (onByte w.devices.mouse w.packet byte).1 }
    packet := (onByte w.devices.mouse w.packet byte).2 }

/-- A poll; a mouse event carries the mask. -/
def poll (w : Watch) : Watch :=
  { w with
    devices := (pollNext w.devices).2
    reported :=
      match (pollNext w.devices).1 with
      | .event (.mouse buttons _ _) => buttons
      | _ => w.reported }

def exec (w : Watch) : InputStep → Watch
  | .irq12 byte => w.irq12 byte
  | .poll => w.poll

/-- A mask that was not reported yet is reported by the next poll. -/
def Delivered (w : Watch) : Prop :=
  w.devices.mouse.buttons ≠ w.reported →
    ∃ dx dy, (pollNext w.devices).1 = .event (.mouse w.devices.mouse.buttons dx dy)

/-- The byte completes a packet that releases the last reported button and leaves no
movement. -/
def SilentRelease (w : Watch) (byte : UInt8) : Prop :=
  ∃ status x rest, w.packet = status :: x :: rest ∧ status &&& 0x07 = 0 ∧ w.reported ≠ 0 ∧
    saturatingAdd w.devices.mouse.dx (packetDelta status x byte).1 = 0 ∧
    saturatingAdd w.devices.mouse.dy (packetDelta status x byte).2 = 0

/-- No packet is a silent release. -/
def Loud (w : Watch) : InputStep → Prop
  | .irq12 byte => ¬ w.SilentRelease byte
  | .poll => True

/-- What is hidden: a release with nothing else to report. -/
theorem delivered_iff {w : Watch} (h : w.devices.scancodes.pending = []) :
    w.Delivered ↔ ¬ (w.devices.mouse.buttons = 0 ∧ w.devices.mouse.dx = 0 ∧
      w.devices.mouse.dy = 0 ∧ w.reported ≠ 0) := by
  rw [Delivered, (pollNext_mouse h).1]
  constructor
  · rintro hd ⟨hb, hx, hy, hr⟩
    obtain ⟨dx, dy, hsome⟩ := hd (by rw [hb]; exact hr.symm)
    rw [if_neg (by simp [hb, hx, hy])] at hsome
    cases hsome
  · intro hn hne
    refine ⟨w.devices.mouse.dx, w.devices.mouse.dy, if_pos ?_⟩
    by_contra hquiet
    push Not at hquiet
    exact hn ⟨hquiet.2.2, hquiet.1, hquiet.2.1, fun h0 => hne (hquiet.2.2.trans h0.symm)⟩

/-- After a poll the mask is reported. -/
theorem poll_reported {w : Watch} (h : w.devices.scancodes.pending = []) (hd : w.Delivered) :
    w.poll.devices.mouse.buttons = w.poll.reported := by
  obtain ⟨hev, hmouse, -⟩ := pollNext_mouse h
  have hbuttons : w.poll.devices.mouse.buttons = w.devices.mouse.buttons := by
    change (pollNext w.devices).2.mouse.buttons = _
    rw [hmouse]
  rw [hbuttons]
  by_cases hne : w.devices.mouse.buttons = w.reported
  · simp only [poll]
    rw [hev]
    split
    · rename_i hs
      split at hs
      · cases hs
        rfl
      · cases hs
    · exact hne
  · obtain ⟨dx, dy, hs⟩ := hd hne
    simp only [poll, hs]

/-- One step: only a silent release hides a mask. -/
theorem exec_delivered {w : Watch} (h : w.devices.scancodes.pending = []) (hd : w.Delivered)
    (e : InputStep) :
    (w.exec e).devices.scancodes.pending = [] ∧ ((w.exec e).Delivered ↔ w.Loud e) := by
  cases e with
  | poll =>
    have hempty : w.poll.devices.scancodes.pending = [] := (pollNext_mouse h).2.2
    exact ⟨hempty, fun _ => trivial, fun _ hne => absurd (poll_reported h hd) hne⟩
  | irq12 byte =>
    refine ⟨h, ?_⟩
    have hempty : (w.irq12 byte).devices.scancodes.pending = [] := h
    rw [exec, delivered_iff hempty, Loud, not_iff_not]
    rw [delivered_iff h] at hd
    constructor
    · rintro ⟨hb, hx, hy, hr⟩
      obtain ⟨status, x, rest, hp, hb', hx', hy'⟩ : ∃ status x rest, w.packet = status :: x :: rest ∧
          status &&& 0x07 = 0 ∧
          saturatingAdd w.devices.mouse.dx (packetDelta status x byte).1 = 0 ∧
          saturatingAdd w.devices.mouse.dy (packetDelta status x byte).2 = 0 := by
        simp only [irq12, onByte] at hb hx hy hr
        split at hb
        · -- the first byte of a packet changes no button
          split at hb <;> rename_i hp hb8 <;> rw [hp] at hx hy <;> simp only [hb8] at hx hy
          · exact absurd ⟨hb, hx, hy, hr⟩ hd
          · exact absurd ⟨hb, hx, hy, hr⟩ hd
        · rename_i hp
          rw [hp] at hx hy
          exact absurd ⟨hb, hx, hy, hr⟩ hd
        · rename_i status x rest hp
          rw [hp] at hx hy
          exact ⟨status, x, rest, hp, hb, hx, hy⟩
      exact ⟨status, x, rest, hp, hb', hr, hx', hy'⟩
    · rintro ⟨status, x, rest, hp, hb, hr, hx, hy⟩
      simp only [irq12, onByte, hp]
      exact ⟨hb, hx, hy, hr⟩

/-- In a run from boot without a silent release every changed mask is reported by the next
poll. -/
theorem delivered_of_run {graphics : Option Graphics} {w : Watch}
    (hrun : Reaches (fun w e w' => w' = w.exec e) Loud (boot graphics) w) :
    w.Delivered ∧ w.poll.devices.mouse.buttons = w.poll.reported := by
  have hinv : w.devices.scancodes.pending = [] ∧ w.Delivered := by
    refine hrun.invariant (I := fun w => w.devices.scancodes.pending = [] ∧ w.Delivered) ?_
      ⟨ScancodeBuffer.pending_new, fun hne => absurd rfl hne⟩
    rintro w e _ ⟨h, hd⟩ hok rfl
    obtain ⟨h', hd'⟩ := exec_delivered h hd e
    exact ⟨h', hd'.2 hok⟩
  exact ⟨hinv.2, poll_reported hinv.1 hinv.2⟩

/-- A click without movement: the left button is pressed, polled and released. -/
def click : List InputStep :=
  [.irq12 0x09, .irq12 0, .irq12 0, .poll, .irq12 0x08, .irq12 0, .irq12 0]

/-- Up to the poll the click is delivered. -/
theorem delivered_of_run_press :
    ((click.take 4).foldl exec (boot none)).Delivered ∧
      ((click.take 4).foldl exec (boot none)).poll.devices.mouse.buttons =
        ((click.take 4).foldl exec (boot none)).poll.reported := by
  refine delivered_of_run (Reaches.foldl ⟨?_, ?_, ?_, trivial, trivial⟩)
  · rintro ⟨status, x, rest, h, -⟩
    cases h
  · rintro ⟨status, x, rest, h, -⟩
    cases h
  · rintro ⟨status, x, rest, h, hb, -⟩
    obtain rfl : (0x09 : UInt8) = status := (List.cons.inj h).1
    exact absurd hb (by decide)

/-- The release is not. -/
theorem not_delivered_click :
    ¬ ∀ w, Reaches (fun w e w' => w' = w.exec e) (fun _ _ => True) (boot none) w →
      w.Delivered := by
  intro h
  have hrun : Reaches (fun (w : Watch) e w' => w' = w.exec e) (fun _ _ => True) (boot none)
      (click.foldl exec (boot none)) :=
    Reaches.foldl ⟨trivial, trivial, trivial, trivial, trivial, trivial, trivial, trivial⟩
  have hd := (delivered_iff (by decide)).1 (h _ hrun)
  exact hd (by decide)

end Watch

/-! ## The drain loop of the window manager -/

/-- The inner loop of `run` ends after `n` events. -/
inductive Drains : Devices → Nat → Devices → Prop where
  | stop {d : Devices} (h : (pollNext d).1 = .idle) : Drains d 0 (pollNext d).2
  | next {d d' : Devices} {n : Nat} {e : InputEvent} (h : (pollNext d).1 = .event e)
      (hrest : Drains (pollNext d).2 n d') : Drains d (n + 1) d'

/-- No byte that waits is the prefix of an extended key. -/
def Unprefixed (d : Devices) : Prop := ∀ sc ∈ d.scancodes.pending, ¬ IsPrefix sc

/-- A held button is an event on every poll, and a poll is stuck at a prefix. -/
theorem Drains.quiet {d d' : Devices} {n : Nat} (h : Drains d n d') :
    d.mouse.buttons = 0 ∧ Unprefixed d := by
  induction h with
  | @stop d hidle =>
    rcases pollNext_cases d with ⟨hempty, hif, -⟩ | ⟨sc, rest, -, hev, -⟩
    · refine ⟨by_contra fun hb => ?_, fun sc hsc => ?_⟩
      · rw [if_pos (Or.inr (Or.inr hb)), hidle] at hif
        cases hif
      · rw [hempty] at hsc
        cases hsc
    · rw [hidle] at hev
      split at hev <;> cases hev
  | @next d _ _ e hev _ ih =>
    rcases pollNext_cases d with ⟨hempty, -, hmouse, -⟩ | ⟨sc, rest, hpend, hif, hmouse, hrest⟩
    · rw [hmouse] at ih
      refine ⟨ih.1, fun sc hsc => ?_⟩
      rw [hempty] at hsc
      cases hsc
    · rw [hmouse] at ih
      refine ⟨ih.1, fun c hc => ?_⟩
      rw [hpend, List.mem_cons] at hc
      rcases hc with rfl | hc
      · intro hp
        rw [if_pos hp, hev] at hif
        cases hif
      · exact ih.2 c (hrest.symm ▸ hc)

/-- What is left to report: the waiting bytes, and the mouse. -/
def backlog (d : Devices) : Nat :=
  d.scancodes.pending.length +
    if d.mouse.dx ≠ 0 ∨ d.mouse.dy ≠ 0 ∨ d.mouse.buttons ≠ 0 then 1 else 0

/-- Without a button each event shortens the backlog. -/
theorem backlog_lt {d : Devices} {e : InputEvent} (hb : d.mouse.buttons = 0)
    (h : (pollNext d).1 = .event e) :
    backlog (pollNext d).2 < backlog d ∧ (pollNext d).2.mouse.buttons = 0 ∧
      (Unprefixed d → Unprefixed (pollNext d).2) := by
  rcases pollNext_cases d with ⟨-, hif, hmouse, hempty⟩ | ⟨sc, rest, hpend, -, hmouse, hrest⟩
  · have hev : d.mouse.dx ≠ 0 ∨ d.mouse.dy ≠ 0 ∨ d.mouse.buttons ≠ 0 := by
      by_contra hquiet
      rw [if_neg hquiet, h] at hif
      cases hif
    rw [Unprefixed, Unprefixed, backlog, backlog, hmouse, hempty, if_pos hev]
    simp [hb]
  · rw [Unprefixed, Unprefixed, backlog, backlog, hmouse, hrest, hpend, List.length_cons]
    exact ⟨by omega, hb, fun hun c hc => hun c (List.mem_cons_of_mem _ hc)⟩

theorem exists_drains {d : Devices} (hb : d.mouse.buttons = 0) (hun : Unprefixed d) :
    ∃ n d', Drains d n d' := by
  induction hk : backlog d using Nat.strong_induction_on generalizing d with
  | _ k ih =>
    cases hpoll : (pollNext d).1 with
    | idle => exact ⟨0, _, .stop hpoll⟩
    | event e =>
      obtain ⟨hlt, hb', hun'⟩ := backlog_lt hb hpoll
      obtain ⟨n, d', hd'⟩ := ih _ (hk ▸ hlt) hb' (hun' hun) rfl
      exact ⟨n + 1, d', .next hpoll hd'⟩
    | stuck =>
      rcases pollNext_cases d with ⟨-, hif, -⟩ | ⟨sc, rest, hpend, hif, -⟩
      · rw [hpoll] at hif
        split at hif <;> cases hif
      · rw [if_neg (hun sc (hpend ▸ List.mem_cons_self)), hpoll] at hif
        cases hif

/-- The loop has no more events than the backlog. -/
theorem drains_le_backlog {d d' : Devices} {n : Nat} (h : Drains d n d') : n ≤ backlog d := by
  induction h with
  | stop => exact Nat.zero_le _
  | next hev hrest ih =>
    have hb := (Drains.next hev hrest).quiet.1
    exact Nat.succ_le_of_lt (ih.trans_lt (backlog_lt hb hev).1)

/-- With no further byte from the hardware, the loop ends exactly when no button is held
and no prefix of an extended key waits, and after at most one event for each waiting byte
and one for the mouse. -/
theorem drains_iff (d : Devices) :
    ((∃ n d', Drains d n d') ↔ d.mouse.buttons = 0 ∧ Unprefixed d) ∧
      ∀ n d', Drains d n d' → n ≤ d.scancodes.pending.length + 1 := by
  refine ⟨⟨fun ⟨n, d', h⟩ => h.quiet, fun h => exists_drains h.1 h.2⟩, fun n d' h => ?_⟩
  refine (drains_le_backlog h).trans ?_
  rw [backlog]
  split <;> omega

/-- The left button is held and no key is waiting. -/
theorem not_drains_held :
    ¬ ∀ d : Devices, ∃ n d', Drains d n d' := by
  intro h
  obtain ⟨n, d', hd⟩ := h ⟨none, .new, ⟨0, 0, 1⟩⟩
  exact absurd hd.quiet.1 (by decide)

/-! ## Prefixes of extended keys -/

/-- What a poll should do: it skips the prefixes and takes the key behind them, or
goes on to the mouse when nothing else waits. -/
def SkipsPrefixes (d : Devices) (r : Poll × Devices) : Prop :=
  match d.scancodes.pending.dropWhile (IsPrefix ·) with
  | sc :: rest => r.1 = .event (keyEvent sc) ∧ r.2.mouse = d.mouse ∧ r.2.scancodes.pending = rest
  | [] => r.1 = (pollMouse d.mouse).1 ∧ r.2.mouse = (pollMouse d.mouse).2 ∧
      r.2.scancodes.pending = []

/-- A poll returns, and has skipped the prefixes, exactly when there is none in front:
the call that is to skip one spins on the lock that the first call holds. -/
theorem pollNext_returns_iff (d : Devices) :
    (pollNext d).1 ≠ .stuck ∧ SkipsPrefixes d (pollNext d) ↔
      ∀ sc ∈ d.scancodes.pending.head?, ¬ IsPrefix sc := by
  unfold SkipsPrefixes
  rcases pollNext_cases d with ⟨hempty, hmouse⟩ | ⟨sc, rest, hpend, hev, hkey⟩
  · rw [hempty]
    refine ⟨fun _ _ h => (nomatch h), fun _ => ⟨fun hs => ?_, hmouse⟩⟩
    rw [hmouse.1] at hs
    split at hs <;> cases hs
  · rw [hpend, hev, List.head?_cons]
    by_cases h : IsPrefix sc
    · rw [if_pos h]
      exact ⟨fun hs => absurd rfl hs.1, fun hn => absurd h (hn sc rfl)⟩
    · rw [if_neg h, List.dropWhile_cons_of_neg (by simpa using h)]
      refine ⟨fun _ c hc => ?_, fun _ => ⟨fun hs => (nomatch hs), rfl, hkey⟩⟩
      rwa [← Option.some.inj hc]

/-- The arrow key up: a prefix and a scancode. -/
theorem not_pollNext_returns_arrow : ¬ ∀ d : Devices,
    (pollNext d).1 ≠ .stuck ∧ SkipsPrefixes d (pollNext d) := by
  intro h
  exact (h ⟨none, (ScancodeBuffer.new.push 0xE0).push 0x48, ⟨0, 0, 0⟩⟩).1 rfl

end AeroOS.Syscalls
