import AeroOS.Syscalls.Dispatch

/-!
# Where a text can be cut

`validUtf8` reads a text byte by byte.  A prefix of a valid text is valid if and only if the rest
does not start with a continuation byte.

* `step_bounds`: while a character is open, the next byte has to be a continuation byte.
* `validUtf8_append`: the rest of a text after a valid prefix stands for itself.
* `validUtf8_cut`: which prefixes of a valid text are valid.
-/

namespace AeroOS.Syscalls

/-- `10xxxxxx`: a byte inside a character. -/
def IsContinuation (b : UInt8) : Prop := 0x80 ≤ b ∧ b ≤ 0xBF

instance (b : UInt8) : Decidable (IsContinuation b) := inferInstanceAs (Decidable (_ ∧ _))

/-- No byte is invalid so far, and no character is open. -/
def Complete (s : Option (Nat × UInt8 × UInt8)) : Bool := s.elim false fun s => s.1 == 0

theorem validUtf8_eq (bytes : List UInt8) :
    validUtf8 bytes = Complete (bytes.foldl utf8Step (some (0, 0, 0))) := rfl

theorem foldl_utf8Step_none (bytes : List UInt8) : bytes.foldl utf8Step none = none := by
  induction bytes with
  | nil => rfl
  | cons b bytes ih => exact ih

/-- The bounds of the next byte, when one is due, are those of a continuation byte or
narrower. -/
def BoundsNext (s : Option (Nat × UInt8 × UInt8)) : Prop :=
  ∀ n lo hi, s = some (n + 1, lo, hi) → 0x80 ≤ lo ∧ hi ≤ 0xBF

theorem step_bounds (s : Option (Nat × UInt8 × UInt8)) (b : UInt8) :
    BoundsNext (utf8Step s b) := by
  intro n lo hi h
  match s, h with
  | some (0, _, _), h =>
    -- a first byte: the bounds are the ones of its row
    unfold utf8Step at h
    grind
  | some (k + 1, _, _), h =>
    rw [utf8Step] at h
    grind

theorem foldl_bounds {s : Option (Nat × UInt8 × UInt8)} (hs : BoundsNext s) (bytes : List UInt8) :
    BoundsNext (bytes.foldl utf8Step s) := by
  induction bytes generalizing s with
  | nil => exact hs
  | cons b bytes ih => exact ih (step_bounds s b)

/-- Between characters the bounds do not matter. -/
theorem complete_foldl (lo hi : UInt8) (bytes : List UInt8) :
    Complete (bytes.foldl utf8Step (some (0, lo, hi))) = validUtf8 bytes := by
  cases bytes with
  | nil => rfl
  | cons b bytes => rfl

/-- After a valid prefix a text is as valid as its rest. -/
theorem validUtf8_append {a : List UInt8} (ha : validUtf8 a = true) (b : List UInt8) :
    validUtf8 (a ++ b) = validUtf8 b := by
  rw [validUtf8_eq] at ha
  rw [validUtf8_eq, List.foldl_append]
  rcases hs : a.foldl utf8Step (some (0, 0, 0)) with _ | ⟨n, lo, hi⟩
  · rw [hs] at ha
    cases ha
  · rw [hs] at ha
    obtain rfl : n = 0 := by simpa [Complete] using ha
    exact complete_foldl lo hi b

/-- No character starts with a continuation byte. -/
theorem validUtf8_cons_of_continuation {c : UInt8} (hc : IsContinuation c) (rest : List UInt8) :
    validUtf8 (c :: rest) = false := by
  have hnone : utf8Step (some (0, 0, 0)) c = none := by
    obtain ⟨hlo, hhi⟩ := hc
    unfold utf8Step
    grind
  rw [validUtf8_eq, List.foldl_cons, hnone, foldl_utf8Step_none]
  rfl

/-- While a character is open the text goes on with a continuation byte. -/
theorem continuation_of_not_validUtf8 {a rest : List UInt8} {c : UInt8}
    (h : validUtf8 (a ++ c :: rest) = true) (ha : validUtf8 a = false) : IsContinuation c := by
  rw [validUtf8_eq] at h ha
  rw [List.foldl_append, List.foldl_cons] at h
  have hbounds : BoundsNext (a.foldl utf8Step (some (0, 0, 0))) :=
    foldl_bounds (fun n lo hi h => by cases h) a
  rcases hs : a.foldl utf8Step (some (0, 0, 0)) with _ | ⟨_ | n, lo, hi⟩
  · rw [hs] at h
    rw [show utf8Step none c = none from rfl, foldl_utf8Step_none] at h
    cases h
  · rw [hs] at ha
    cases ha
  · obtain ⟨hlo, hhi⟩ := hbounds n lo hi hs
    rw [hs, utf8Step] at h
    by_cases hin : lo ≤ c ∧ c ≤ hi
    · exact ⟨UInt8.le_trans hlo hin.1, UInt8.le_trans hin.2 hhi⟩
    · rw [if_neg hin, foldl_utf8Step_none] at h
      cases h

/-- A prefix of a valid text is valid if and only if it ends between two characters. -/
theorem validUtf8_cut {a rest : List UInt8} {c : UInt8} (h : validUtf8 (a ++ c :: rest) = true) :
    validUtf8 a = true ↔ ¬ IsContinuation c := by
  constructor
  · intro ha hc
    rw [validUtf8_append ha, validUtf8_cons_of_continuation hc] at h
    cases h
  · intro hc
    by_contra ha
    exact hc (continuation_of_not_validUtf8 h (Bool.not_eq_true _ ▸ ha))

end AeroOS.Syscalls
