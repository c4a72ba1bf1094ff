import Mathlib.Data.List.Basic

/-!
# The input adapter of the Flutter engine

`input.rs`: scancodes are converted to key events and, for some keys, pointer events.

* `Firsts`: the bounded list has the first events of those that the bytes make.
* `marks_made`: which keys these events have.
* `keys_take_iff`: how many of the events are needed so that no key is missing.
* `poll_keys`: the key events of one poll.
-/

namespace AeroOS.FlutterAdapter

inductive PointerPhase where
  | cancel
  | add
  | hover
  | down
  | up
  | remove
  deriving DecidableEq, Repr

inductive KeyPhase where
  | down
  | up
  /-- `Repeat`. -/
  | again
  deriving DecidableEq, Repr

structure FlutterPointerEvent where
  phase : PointerPhase
  x : Float
  y : Float
  timestamp : UInt64

structure FlutterKeyEvent where
  phase : KeyPhase
  keycode : UInt32
  keychar : UInt32
  timestamp : UInt64
  deriving DecidableEq, Repr

inductive InputEvent where
  | pointer (event : FlutterPointerEvent)
  | key (event : FlutterKeyEvent)

def MAX_EVENTS : Nat := 32

/-- The events up to the length of the list. -/
structure EventList where
  events : List InputEvent
  len_le : events.length ≤ MAX_EVENTS

namespace EventList

def new : EventList := ⟨[], Nat.zero_le _⟩

def push (l : EventList) (event : InputEvent) : EventList :=
  if h : l.events.length < MAX_EVENTS then
    ⟨l.events ++ [event], by rw [List.length_append, List.length_singleton]; exact h⟩
  else l

end EventList

/-! ## Converting a byte -/

/-- The printable keys: the first scancode of a row, and its characters. -/
def keyRows : List (UInt8 × List UInt32) :=
  [(0x02, [0x31, 0x32, 0x33, 0x34, 0x35, 0x36, 0x37, 0x38, 0x39, 0x30, 0x2D, 0x3D]),
    (0x10, [0x71, 0x77, 0x65, 0x72, 0x74, 0x79, 0x75, 0x69, 0x6F, 0x70, 0x5B, 0x5D, 0x0A]),
    (0x1E, [0x61, 0x73, 0x64, 0x66, 0x67, 0x68, 0x6A, 0x6B, 0x6C, 0x3B, 0x27, 0x60]),
    (0x2B, [0x5C, 0x7A, 0x78, 0x63, 0x76, 0x62, 0x6E, 0x6D, 0x2C, 0x2E, 0x2F]),
    (0x39, [0x20])]

/-- `scancode_to_char`. -/
def scancodeToChar (sc : UInt8) : Option UInt32 :=
  keyRows.findSome? fun r => if r.1 ≤ sc then r.2[(sc - r.1).toNat]? else none

/-- What a call of `clock_gettime` returns and stores. -/
structure ClockReply where
  ret : Int64
  sec : Int64
  nsec : Int64

/-- `get_timestamp`. -/
def getTimestamp (reply : ClockReply) : UInt64 :=
  if reply.ret < 0 then 0
  else reply.sec.toUInt64 * 1000000 + reply.nsec.toUInt64 / 1000

/-- `f64::max`. -/
def f64Max (a b : Float) : Float :=
  if a.isNaN then b else if b.isNaN then a else if a < b then b else a

/-- What the loop of `poll` changes. -/
structure Polling (σ : Type) where
  cursorX : Float
  cursorY : Float
  events : σ
  /-- The calls of `clock_gettime` so far. -/
  calls : Nat

section

variable {σ : Type} (push : σ → InputEvent → σ)

/-- The push of a pointer event at the cursor. -/
def Polling.pushPointer (p : Polling σ) (phase : PointerPhase) (timestamp : UInt64) : Polling σ :=
  { p with events := push p.events (.pointer ⟨phase, p.cursorX, p.cursorY, timestamp⟩) }

/-- The pointer event of a pressed key, and the cursor. -/
def Polling.synthesise (p : Polling σ) (scancode : UInt8) (timestamp : UInt64) : Polling σ :=
  if scancode = 0x4B then
    { p with cursorX := f64Max (p.cursorX - 5.0) 0.0 }.pushPointer push .hover timestamp
  else if scancode = 0x4D then
    { p with cursorX := p.cursorX + 5.0 }.pushPointer push .hover timestamp
  else if scancode = 0x48 then
    { p with cursorY := f64Max (p.cursorY - 5.0) 0.0 }.pushPointer push .hover timestamp
  else if scancode = 0x50 then
    { p with cursorY := p.cursorY + 5.0 }.pushPointer push .hover timestamp
  else if scancode = 0x1C then p.pushPointer push .down timestamp
  else p

/-- The push of a key event, with the time from the next call of `clock_gettime`. -/
def Polling.pushKey (clock : Nat → ClockReply) (p : Polling σ) (phase : KeyPhase)
    (scancode : UInt8) : Polling σ :=
  { p with
    calls := p.calls + 1
    events := push p.events (.key ⟨phase, scancode.toUInt32, (scancodeToChar scancode).getD 0,
      getTimestamp (clock p.calls)⟩) }

/-- One round of the loop of `poll`; the `i`-th call of `clock_gettime` is answered by
`clock i`. -/
def Polling.byte (clock : Nat → ClockReply) (p : Polling σ) (sc : UInt8) : Polling σ :=
  if sc = 0xE0 ∨ sc = 0xE1 then p
  else if sc &&& 0x80 ≠ 0 then p.pushKey push clock .up (sc &&& 0x7F)
  else
    (p.pushKey push clock .down (sc &&& 0x7F)).synthesise push (sc &&& 0x7F)
      (getTimestamp (clock p.calls))

end

structure InputAdapter where
  cursorX : Float
  cursorY : Float
  scancodeBuf : List UInt8

/-- The loop over `count` bytes of the buffer from the index `i` on; `none` is the panic of an
index behind the buffer. -/
def pollLoop (clock : Nat → ClockReply) (buf : List UInt8) :
    (count i : Nat) → Polling EventList → Option (Polling EventList)
  | 0, _, p => some p
  | count + 1, i, p =>
    match buf[i]? with
    | none => none
    | some sc => pollLoop clock buf count (i + 1) (p.byte EventList.push clock sc)

/-- `poll`; `read` gives the returned number and the new contents of the buffer. -/
def poll (read : List UInt8 → Int64 × List UInt8) (clock : Nat → ClockReply)
    (adapter : InputAdapter) : Option (EventList × InputAdapter) :=
  let (n, buf) := read adapter.scancodeBuf
  if n ≤ 0 then some (EventList.new, { adapter with scancodeBuf := buf })
  else
    (pollLoop clock buf n.toInt.toNat 0
      ⟨adapter.cursorX, adapter.cursorY, EventList.new, 0⟩).map fun p =>
        (p.events, ⟨p.cursorX, p.cursorY, buf⟩)

/-! ## All events of some bytes -/

/-- A list without a bound. -/
def append (l : List InputEvent) (event : InputEvent) : List InputEvent := l ++ [event]

/-- The events that the bytes make, behind those of `p`. -/
def made (clock : Nat → ClockReply) (p : Polling (List InputEvent)) (bytes : List UInt8) :
    Polling (List InputEvent) :=
  bytes.foldl (Polling.byte append clock) p

/-- The list has the first events, and nothing else is different. -/
structure Firsts (p : Polling EventList) (q : Polling (List InputEvent)) : Prop where
  cursorX : p.cursorX = q.cursorX
  cursorY : p.cursorY = q.cursorY
  calls : p.calls = q.calls
  events : p.events.events = q.events.take MAX_EVENTS

variable {clock : Nat → ClockReply} {p : Polling EventList} {q : Polling (List InputEvent)}

theorem push_events {l : EventList} {all : List InputEvent} (h : l.events = all.take MAX_EVENTS)
    (event : InputEvent) : (l.push event).events = (append all event).take MAX_EVENTS := by
  have hlen : l.events.length = min MAX_EVENTS all.length := by
    rw [h, List.length_take]
  unfold EventList.push append
  by_cases hroom : l.events.length < MAX_EVENTS
  · rw [dif_pos hroom]
    show l.events ++ [event] = _
    have hall : all.length < MAX_EVENTS := by omega
    rw [h, List.take_of_length_le (Nat.le_of_lt hall), List.take_of_length_le]
    rw [List.length_append, List.length_singleton]
    exact hall
  · rw [dif_neg hroom, h, List.take_append_of_le_length (by omega)]

theorem Firsts.pushPointer (h : Firsts p q) (phase : PointerPhase) (timestamp : UInt64) :
    Firsts (p.pushPointer EventList.push phase timestamp)
      (q.pushPointer append phase timestamp) := by
  refine ⟨h.cursorX, h.cursorY, h.calls, ?_⟩
  show (p.events.push (.pointer ⟨phase, p.cursorX, p.cursorY, timestamp⟩)).events =
    (append q.events (.pointer ⟨phase, q.cursorX, q.cursorY, timestamp⟩)).take MAX_EVENTS
  rw [h.cursorX, h.cursorY]
  exact push_events h.events _

theorem Firsts.moveX (h : Firsts p q) (f : Float → Float) :
    Firsts { p with cursorX := f p.cursorX } { q with cursorX := f q.cursorX } :=
  ⟨congrArg f h.cursorX, h.cursorY, h.calls, h.events⟩

theorem Firsts.moveY (h : Firsts p q) (f : Float → Float) :
    Firsts { p with cursorY := f p.cursorY } { q with cursorY := f q.cursorY } :=
  ⟨h.cursorX, congrArg f h.cursorY, h.calls, h.events⟩

theorem Firsts.synthesise (h : Firsts p q) (scancode : UInt8) (timestamp : UInt64) :
    Firsts (p.synthesise EventList.push scancode timestamp)
      (q.synthesise append scancode timestamp) := by
  unfold Polling.synthesise
  split
  · exact (h.moveX fun x => f64Max (x - 5.0) 0.0).pushPointer _ _
  split
  · exact (h.moveX fun x => x + 5.0).pushPointer _ _
  split
  · exact (h.moveY fun y => f64Max (y - 5.0) 0.0).pushPointer _ _
  split
  · exact (h.moveY fun y => y + 5.0).pushPointer _ _
  split
  · exact h.pushPointer _ _
  · exact h

theorem Firsts.pushKey (h : Firsts p q) (phase : KeyPhase) (scancode : UInt8) :
    Firsts (p.pushKey EventList.push clock phase scancode)
      (q.pushKey append clock phase scancode) := by
  refine ⟨h.cursorX, h.cursorY, congrArg (· + 1) h.calls, ?_⟩
  unfold Polling.pushKey
  rw [h.calls]
  exact push_events h.events _

theorem Firsts.byte (h : Firsts p q) (sc : UInt8) :
    Firsts (p.byte EventList.push clock sc) (q.byte append clock sc) := by
  unfold Polling.byte
  by_cases hskip : sc = 0xE0 ∨ sc = 0xE1
  · rw [if_pos hskip, if_pos hskip]
    exact h
  rw [if_neg hskip, if_neg hskip]
  by_cases hrelease : sc &&& 0x80 ≠ 0
  · rw [if_pos hrelease, if_pos hrelease]
    exact h.pushKey _ _
  · rw [if_neg hrelease, if_neg hrelease, h.calls]
    exact (h.pushKey _ _).synthesise _ _

/-- The loop puts the first of the events into the list. -/
theorem Firsts.bytes (h : Firsts p q) (bytes : List UInt8) :
    Firsts (bytes.foldl (Polling.byte EventList.push clock) p) (made clock q bytes) := by
  induction bytes generalizing p q with
  | nil => exact h
  | cons sc bytes ih => exact ih (h.byte sc)

/-! ## Keys -/

/-- The key of an event. -/
def keyOf : InputEvent → Option (KeyPhase × UInt32)
  | .pointer _ => none
  | .key event => some (event.phase, event.keycode)

/-- The prefix of an extended key. -/
def IsExtension (sc : UInt8) : Prop := sc = 0xE0 ∨ sc = 0xE1

instance : DecidablePred IsExtension := fun sc =>
  inferInstanceAs (Decidable (sc = 0xE0 ∨ sc = 0xE1))

/-- A byte that makes a pointer event, too: the press of an arrow key or of Enter. -/
def MakesPointer (sc : UInt8) : Prop := sc ∈ [0x4B, 0x4D, 0x48, 0x50, 0x1C]

instance : DecidablePred MakesPointer := fun sc =>
  inferInstanceAs (Decidable (sc ∈ [0x4B, 0x4D, 0x48, 0x50, 0x1C]))

/-- The key of a byte: the phase in the upper bit, and the code in the others. -/
def byteKey (sc : UInt8) : KeyPhase × UInt32 :=
  (if sc < 0x80 then .down else .up, (sc % 0x80).toUInt32)

/-- The keys of the events that a byte makes. -/
def marks (sc : UInt8) : List (Option (KeyPhase × UInt32)) :=
  some (byteKey sc) :: if MakesPointer sc then [none] else []

theorem and_0x7F (sc : UInt8) : sc &&& 0x7F = sc % 0x80 := by
  apply UInt8.toNat.inj
  rw [UInt8.toNat_and, UInt8.toNat_mod]
  exact Nat.and_two_pow_sub_one_eq_mod sc.toNat 7

theorem release_iff (sc : UInt8) : sc &&& 0x80 ≠ 0 ↔ ¬ sc < 0x80 := by
  have h : ∀ n : Fin 256, (UInt8.ofNat n &&& 0x80 ≠ 0 ↔ ¬ UInt8.ofNat n < 0x80) := by
    decide +kernel
  have hsc := h ⟨sc.toNat, sc.toNat_lt⟩
  rwa [UInt8.ofNat_toNat] at hsc

theorem marks_synthesise (q : Polling (List InputEvent)) {sc : UInt8} (timestamp : UInt64) :
    (q.synthesise append sc timestamp).events.map keyOf =
      q.events.map keyOf ++ if MakesPointer sc then [none] else [] := by
  have hpush : ∀ (q' : Polling (List InputEvent)) phase, q'.events = q.events →
      (q'.pushPointer append phase timestamp).events.map keyOf = q.events.map keyOf ++ [none] := by
    intro q' phase heq
    show (append q'.events _).map keyOf = _
    rw [append, heq, List.map_append]
    rfl
  unfold Polling.synthesise
  by_cases h1 : sc = 0x4B
  · rw [if_pos h1, if_pos (by rw [h1]; decide)]
    exact hpush _ _ rfl
  by_cases h2 : sc = 0x4D
  · rw [if_neg h1, if_pos h2, if_pos (by rw [h2]; decide)]
    exact hpush _ _ rfl
  by_cases h3 : sc = 0x48
  · rw [if_neg h1, if_neg h2, if_pos h3, if_pos (by rw [h3]; decide)]
    exact hpush _ _ rfl
  by_cases h4 : sc = 0x50
  · rw [if_neg h1, if_neg h2, if_neg h3, if_pos h4, if_pos (by rw [h4]; decide)]
    exact hpush _ _ rfl
  by_cases h5 : sc = 0x1C
  · rw [if_neg h1, if_neg h2, if_neg h3, if_neg h4, if_pos h5, if_pos (by rw [h5]; decide)]
    exact hpush _ _ rfl
  · have hnone : ¬ MakesPointer sc := by
      unfold MakesPointer
      simp only [List.mem_cons, List.not_mem_nil, or_false]
      tauto
    rw [if_neg h1, if_neg h2, if_neg h3, if_neg h4, if_neg h5, if_neg hnone, List.append_nil]

theorem marks_byte (q : Polling (List InputEvent)) (sc : UInt8) :
    (q.byte append clock sc).events.map keyOf =
      q.events.map keyOf ++ if IsExtension sc then [] else marks sc := by
  have hkey : ∀ phase scancode, (q.pushKey append clock phase scancode).events.map keyOf =
      q.events.map keyOf ++ [some (phase, scancode.toUInt32)] := by
    intro phase scancode
    show (append q.events _).map keyOf = _
    rw [append, List.map_append]
    rfl
  unfold Polling.byte
  by_cases hskip : IsExtension sc
  · rw [if_pos hskip, List.append_nil]
    exact congrArg (fun r : Polling (List InputEvent) => r.events.map keyOf) (if_pos hskip)
  rw [if_neg hskip]
  refine (congrArg (fun r : Polling (List InputEvent) => r.events.map keyOf)
    (if_neg hskip)).trans ?_
  rw [and_0x7F, marks]
  by_cases hrelease : sc &&& 0x80 ≠ 0
  · have hge := (release_iff sc).1 hrelease
    have hnone : ¬ MakesPointer sc := by
      intro h
      unfold MakesPointer at h
      simp only [List.mem_cons, List.not_mem_nil, or_false] at h
      rcases h with rfl | rfl | rfl | rfl | rfl
      all_goals exact hge (by decide)
    rw [if_pos hrelease, hkey, byteKey, if_neg hge, if_neg hnone]
  · have hlt : sc < 0x80 := not_not.1 fun h => hrelease ((release_iff sc).2 h)
    have hmod : sc % 0x80 = sc := by
      apply UInt8.toNat.inj
      rw [UInt8.toNat_mod]
      exact Nat.mod_eq_of_lt hlt
    rw [if_neg hrelease, marks_synthesise, hkey, byteKey, if_pos hlt, hmod, List.append_assoc]
    rfl

/-- The keys of all events that some bytes make. -/
theorem marks_made (q : Polling (List InputEvent)) (bytes : List UInt8) :
    (made clock q bytes).events.map keyOf = q.events.map keyOf ++
      (bytes.filter fun sc => ¬ IsExtension sc).flatMap marks := by
  induction bytes generalizing q with
  | nil => exact (List.append_nil _).symm
  | cons sc bytes ih =>
    show (made clock (q.byte append clock sc) bytes).events.map keyOf = _
    rw [ih, marks_byte, List.append_assoc]
    congr 1
    by_cases hskip : IsExtension sc
    · rw [if_pos hskip, List.filter_cons_of_neg (by simpa using hskip), List.nil_append]
    · rw [if_neg hskip, List.filter_cons_of_pos (by simpa using hskip), List.flatMap_cons]

/-- The keys of some bytes, in order. -/
def bytesKeys (bytes : List UInt8) : List (KeyPhase × UInt32) :=
  (bytes.filter fun sc => ¬ IsExtension sc).map byteKey

/-- The number of events up to the last key event of some codes: one for each code, and one for
each that makes a pointer event, except for the last. -/
def upToLastKey (codes : List UInt8) : Nat :=
  codes.length + (codes.dropLast.filter fun sc => MakesPointer sc).length

theorem upToLastKey_cons (sc sc' : UInt8) (codes : List UInt8) :
    upToLastKey (sc :: sc' :: codes) =
      upToLastKey (sc' :: codes) + if MakesPointer sc then 2 else 1 := by
  rw [upToLastKey, upToLastKey, List.dropLast_cons_cons, List.length_cons]
  by_cases h : MakesPointer sc
  · have hcount : ((sc :: (sc' :: codes).dropLast).filter fun sc => MakesPointer sc).length =
        ((sc' :: codes).dropLast.filter fun sc => MakesPointer sc).length + 1 := by
      rw [List.filter_cons_of_pos (by simpa using h), List.length_cons]
    rw [if_pos h, hcount]
    omega
  · rw [if_neg h, List.filter_cons_of_neg (by simpa using h)]
    omega

/-- All keys are among the first `n` events if and only if the last one is. -/
theorem keys_take_iff (codes : List UInt8) (n : Nat) :
    ((codes.flatMap marks).take n).filterMap id = codes.map byteKey ↔ upToLastKey codes ≤ n := by
  induction codes generalizing n with
  | nil => simp [upToLastKey]
  | cons sc codes ih =>
    cases n with
    | zero => simp [upToLastKey]
    | succ n =>
      have htake : (((sc :: codes).flatMap marks).take (n + 1)).filterMap id = byteKey sc ::
          (((if MakesPointer sc then [none] else []) ++ codes.flatMap marks).take n).filterMap
            id := rfl
      rw [htake, List.map_cons, List.cons_inj_right]
      cases codes with
      | nil =>
        have hlast : upToLastKey [sc] ≤ n + 1 := Nat.succ_le_succ (Nat.zero_le n)
        refine iff_of_true ?_ hlast
        by_cases h : MakesPointer sc
        · rw [if_pos h]
          cases n with
          | zero => rfl
          | succ n => simp
        · rw [if_neg h]
          simp
      | cons sc' codes =>
        rw [upToLastKey_cons]
        by_cases h : MakesPointer sc
        · rw [if_pos h, if_pos h]
          cases n with
          | zero => simp [upToLastKey]
          | succ n =>
            have hskip : (([none] ++ (sc' :: codes).flatMap marks).take (n + 1)).filterMap id =
                (((sc' :: codes).flatMap marks).take n).filterMap id := rfl
            rw [hskip, ih]
            omega
        · rw [if_neg h, if_neg h, List.nil_append, ih]
          omega

/-! ## One poll -/

/-- The key events of a list. -/
def keys (events : List InputEvent) : List (KeyPhase × UInt32) := events.filterMap keyOf

/-- A `read` that returns some bytes. -/
def readReturning (bytes buf : List UInt8) : Int64 × List UInt8 :=
  (Int64.ofNat bytes.length, bytes ++ buf.drop bytes.length)

theorem pollLoop_eq (bytes front rest : List UInt8) (p : Polling EventList) :
    pollLoop clock (front ++ (bytes ++ rest)) bytes.length front.length p =
      some (bytes.foldl (Polling.byte EventList.push clock) p) := by
  induction bytes generalizing front p with
  | nil => rfl
  | cons sc bytes ih =>
    have hget : (front ++ (sc :: bytes ++ rest))[front.length]? = some sc := by
      rw [List.getElem?_append_right (Nat.le_refl _), Nat.sub_self]
      rfl
    have hrest := ih (front ++ [sc]) (p.byte EventList.push clock sc)
    rw [List.append_assoc, List.length_append] at hrest
    rw [List.length_cons, pollLoop, hget]
    exact hrest

/-- The events that the bytes of a `read` make, one after the other. -/
def allEvents (clock : Nat → ClockReply) (adapter : InputAdapter) (bytes : List UInt8) :
    List InputEvent :=
  (made clock ⟨adapter.cursorX, adapter.cursorY, [], 0⟩ bytes).events

theorem keys_eq (events : List InputEvent) : keys events = (events.map keyOf).filterMap id := by
  rw [List.filterMap_map]
  rfl

theorem filterMap_marks (codes : List UInt8) :
    (codes.flatMap marks).filterMap id = codes.map byteKey := by
  induction codes with
  | nil => rfl
  | cons sc codes ih =>
    rw [List.flatMap_cons, List.filterMap_append, ih, List.map_cons, marks]
    by_cases h : MakesPointer sc
    · rw [if_pos h]
      rfl
    · rw [if_neg h]
      rfl

theorem marks_allEvents (clock : Nat → ClockReply) (adapter : InputAdapter) (bytes : List UInt8) :
    (allEvents clock adapter bytes).map keyOf =
      (bytes.filter fun sc => ¬ IsExtension sc).flatMap marks :=
  marks_made _ bytes

theorem keys_allEvents (clock : Nat → ClockReply) (adapter : InputAdapter) (bytes : List UInt8) :
    keys (allEvents clock adapter bytes) = bytesKeys bytes := by
  rw [keys_eq, marks_allEvents, filterMap_marks]
  rfl

theorem poll_readReturning (clock : Nat → ClockReply) (adapter : InputAdapter) {bytes : List UInt8}
    (hlen : bytes.length ≤ 64) :
    ∃ events adapter', poll (readReturning bytes) clock adapter = some (events, adapter') ∧
      events.events = (allEvents clock adapter bytes).take MAX_EVENTS := by
  have hn : (Int64.ofNat bytes.length).toInt = bytes.length :=
    Int64.toInt_ofNat_of_lt (by omega)
  unfold poll readReturning
  by_cases hzero : Int64.ofNat bytes.length ≤ 0
  · have hle : (Int64.ofNat bytes.length).toInt ≤ 0 := Int64.le_iff_toInt_le.1 hzero
    have hnil : bytes = [] := List.eq_nil_of_length_eq_zero (by omega)
    subst hnil
    exact ⟨_, _, if_pos hzero, rfl⟩
  · have hstart : Firsts ⟨adapter.cursorX, adapter.cursorY, EventList.new, 0⟩
        ⟨adapter.cursorX, adapter.cursorY, [], 0⟩ := ⟨rfl, rfl, rfl, rfl⟩
    have hloop : pollLoop clock (bytes ++ adapter.scancodeBuf.drop bytes.length) bytes.length 0
        ⟨adapter.cursorX, adapter.cursorY, EventList.new, 0⟩ =
          some (bytes.foldl (Polling.byte EventList.push clock)
            ⟨adapter.cursorX, adapter.cursorY, EventList.new, 0⟩) := pollLoop_eq bytes [] _ _
    have hcount : (Int64.ofNat bytes.length).toInt.toNat = bytes.length := by
      rw [hn]
      rfl
    have hfirsts : Firsts (bytes.foldl (Polling.byte EventList.push clock)
        ⟨adapter.cursorX, adapter.cursorY, EventList.new, 0⟩)
        (made clock ⟨adapter.cursorX, adapter.cursorY, [], 0⟩ bytes) := hstart.bytes bytes
    generalize bytes.foldl (Polling.byte EventList.push clock)
      ⟨adapter.cursorX, adapter.cursorY, EventList.new, 0⟩ = last at hloop hfirsts
    refine ⟨last.events, ⟨last.cursorX, last.cursorY,
      bytes ++ adapter.scancodeBuf.drop bytes.length⟩, (if_neg hzero).trans ?_, hfirsts.events⟩
    rw [hcount]
    exact congrArg (Option.map _) hloop

/-- A poll returns the first `MAX_EVENTS` events of those that the bytes of one `read` make.  The
bytes make one key event each, apart from the prefixes, and none of them is missing if and only if
the last one is among the first `MAX_EVENTS` events. -/
theorem poll_keys (clock : Nat → ClockReply) (adapter : InputAdapter) {bytes : List UInt8}
    (hlen : bytes.length ≤ 64) :
    ∃ events adapter', poll (readReturning bytes) clock adapter = some (events, adapter') ∧
      events.events = (allEvents clock adapter bytes).take MAX_EVENTS ∧
      keys (allEvents clock adapter bytes) = bytesKeys bytes ∧
      (keys events.events = bytesKeys bytes ↔
        upToLastKey (bytes.filter fun sc => ¬ IsExtension sc) ≤ MAX_EVENTS) := by
  obtain ⟨events, adapter', hpoll, hevents⟩ := poll_readReturning clock adapter hlen
  refine ⟨events, adapter', hpoll, hevents, keys_allEvents clock adapter bytes, ?_⟩
  rw [hevents, keys_eq, List.map_take, marks_allEvents]
  exact keys_take_iff _ _

/-- The adapter as it starts. -/
def ADAPTER : InputAdapter := ⟨0.0, 0.0, List.replicate 64 0⟩

/-- The press of an arrow key behind its prefix. -/
theorem poll_keys_arrow :
    ∃ events adapter', poll (readReturning [0xE0, 0x4B]) (fun _ => ⟨0, 0, 0⟩) ADAPTER =
        some (events, adapter') ∧ keys events.events = [(.down, 0x4B)] := by
  obtain ⟨events, adapter', hpoll, -, -, hkeys⟩ :=
    poll_keys (fun _ => ⟨0, 0, 0⟩) ADAPTER (show [0xE0, 0x4B].length ≤ 64 by decide)
  exact ⟨events, adapter', hpoll, hkeys.2 (by decide)⟩

/-- Of 33 presses of a letter in one `read` one is lost. -/
theorem not_poll_keys :
    ¬ ∃ events adapter', poll (readReturning (List.replicate 33 0x1E)) (fun _ => ⟨0, 0, 0⟩)
        ADAPTER = some (events, adapter') ∧
      keys events.events = bytesKeys (List.replicate 33 0x1E) := by
  rintro ⟨events, adapter', -, hkeys⟩
  have hmany : (bytesKeys (List.replicate 33 0x1E)).length = 33 := by decide
  have hfew : (keys events.events).length ≤ events.events.length :=
    List.length_filterMap_le _ _
  have hcap : events.events.length ≤ 32 := events.len_le
  rw [hkeys, hmany] at hfew
  omega

end AeroOS.FlutterAdapter
