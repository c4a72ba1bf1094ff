import AeroOS.Fs.Devfs
import AeroOS.Lib.Fifo

/-!
# The scancode ring

`ScancodeBuffer` of `interrupts/mod.rs` with its two cursors as the code has them, numbers that
are brought below 256 by a remainder, and its array accesses checked.

* `Ring.Holds` is the invariant: the cursors are below 256, and `Fs.ScancodeBuffer`, whose
  cursors cannot be anything else, is the same ring.
* `implements_fifo`: the ring implements a queue of at most 255 bytes.
* `bounded_fifo`: the result for every run of `push` and `pop`.
-/

namespace AeroOS.Interrupts

open Fs Fifo

/-- The ring. -/
structure Ring where
  buf : Fin 256 → UInt8
  /-- Write cursor. -/
  head : Nat
  /-- Read cursor. -/
  tail : Nat

namespace Ring

/-- `new`. -/
def new : Ring := ⟨fun _ => 0, 0, 0⟩

/-- `push`; `none` is an access outside of the array. -/
def push (r : Ring) (byte : UInt8) : Option Ring :=
  let next := (r.head + 1) % 256
  if next ≠ r.tail then
    if h : r.head < 256 then
      some { r with buf := Function.update r.buf ⟨r.head, h⟩ byte, head := next }
    else none
  else some r

/-- `pop`; `none` is an access outside of the array. -/
def pop (r : Ring) : Option (Option UInt8 × Ring) :=
  if r.head = r.tail then some (none, r)
  else
    if h : r.tail < 256 then
      some (some (r.buf ⟨r.tail, h⟩), { r with tail := (r.tail + 1) % 256 })
    else none

/-! ## The invariant -/

/-- The ring with cursors below 256. -/
def ofBuffer (b : ScancodeBuffer) : Ring := ⟨b.buf, b.head.val, b.tail.val⟩

/-- The ring holds these bytes. -/
def Holds (r : Ring) (q : List UInt8) : Prop := ∃ b, r = ofBuffer b ∧ b.pending = q

theorem Holds.cursors {r : Ring} {q : List UInt8} (h : r.Holds q) :
    r.head < 256 ∧ r.tail < 256 := by
  obtain ⟨b, rfl, -⟩ := h
  exact ⟨b.head.isLt, b.tail.isLt⟩

theorem holds_new : new.Holds [] := ⟨ScancodeBuffer.new, rfl, ScancodeBuffer.pending_new⟩

theorem val_succ (i : Fin 256) : (i + 1).val = (i.val + 1) % 256 := by
  rw [Fin.val_add, Fin.val_one]

theorem push_ofBuffer (b : ScancodeBuffer) (byte : UInt8) :
    (ofBuffer b).push byte = some (ofBuffer (b.push byte)) := by
  have hnext : ((ofBuffer b).head + 1) % 256 = (ofBuffer b).tail ↔ b.head + 1 = b.tail := by
    rw [← Fin.val_inj, val_succ]
    rfl
  rw [push, ScancodeBuffer.push]
  by_cases hfull : b.head + 1 = b.tail
  · rw [if_neg (not_not_intro (hnext.2 hfull)), if_pos hfull]
  · rw [if_pos (mt hnext.1 hfull), if_neg hfull]
    refine (dif_pos b.head.isLt).trans ?_
    show some (Ring.mk _ _ _) = some (Ring.mk _ (b.head + 1).val _)
    rw [val_succ]
    rfl

theorem pop_ofBuffer (b : ScancodeBuffer) :
    (ofBuffer b).pop =
      some (b.pop.elim (none, ofBuffer b) fun r => (some r.1, ofBuffer r.2)) := by
  have hsame : (ofBuffer b).head = (ofBuffer b).tail ↔ b.head = b.tail := Fin.val_inj
  rw [pop, ScancodeBuffer.pop]
  by_cases hempty : b.head = b.tail
  · rw [if_pos (hsame.2 hempty), if_pos hempty]
    rfl
  · rw [if_neg (mt hsame.1 hempty), if_neg hempty]
    refine (dif_pos b.tail.isLt).trans ?_
    show some (some _, Ring.mk _ _ _) = some (some _, Ring.mk _ _ (b.tail + 1).val)
    rw [val_succ]
    rfl

theorem pending_length (b : ScancodeBuffer) : b.pending.length = (b.head - b.tail).val := by
  rw [ScancodeBuffer.pending, List.length_map, List.length_range]

/-- The cell behind the write cursor is kept empty, so a full ring has 255 bytes. -/
theorem full_iff (b : ScancodeBuffer) : b.head + 1 = b.tail ↔ b.pending.length = 255 := by
  have hhead := b.head.isLt
  have htail := b.tail.isLt
  rw [pending_length, ← Fin.val_inj, val_succ, Fin.val_sub]
  omega

/-- The ring is a queue of at most 255 bytes. -/
theorem implements_fifo : Implements 255 push pop Holds where
  push_ok r q byte := by
    rintro ⟨b, rfl, rfl⟩
    refine ⟨ofBuffer (b.push byte), push_ofBuffer b byte, b.push byte, rfl, ?_⟩
    rw [ScancodeBuffer.pending_push, Fifo.push]
    by_cases hfull : b.head + 1 = b.tail
    · rw [if_pos hfull, if_pos ((full_iff b).1 hfull)]
    · rw [if_neg hfull, if_neg (mt (full_iff b).2 hfull)]
  pop_ok r q := by
    rintro ⟨b, rfl, rfl⟩
    cases hpop : b.pop with
    | none =>
      have hempty := ScancodeBuffer.pending_of_pop_none hpop
      refine ⟨ofBuffer b, ?_, b, rfl, ?_⟩
      · rw [pop_ofBuffer, hpop, hempty]
        rfl
      · rw [hempty]
        rfl
    | some r =>
      have hpending := ScancodeBuffer.pop_eq_some hpop
      refine ⟨ofBuffer r.2, ?_, r.2, rfl, ?_⟩
      · rw [pop_ofBuffer, hpop, hpending]
        rfl
      · rw [hpending]
        rfl

/-- Every run of `push` and `pop` on the new ring answers as a queue of at most 255 bytes
does, in which a push is dropped exactly when 255 bytes are queued, and keeps the cursors
below 256. -/
theorem bounded_fifo (ops : List (Op UInt8)) :
    ∃ r, Fifo.exec push pop ops new = some ((run 255 ops []).1, r) ∧
      r.Holds (run 255 ops []).2 ∧ r.head < 256 ∧ r.tail < 256 ∧
      (run 255 ops []).1.reduceOption ++ (run 255 ops []).2 = accepted 255 ops [] := by
  obtain ⟨r, hexec, hr⟩ := implements_fifo.exec ops holds_new
  exact ⟨r, hexec, hr, hr.cursors.1, hr.cursors.2, popped_append_run 255 ops []⟩

end Ring

end AeroOS.Interrupts
