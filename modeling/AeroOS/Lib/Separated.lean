import Mathlib.Data.List.DropRight

/-!
# Lists with a separator

A list over an alphabet with one separator, read as the sequence of its non-empty
parts: separators at the ends and repeated ones count for nothing.

* `parts_append_cons` cuts at any separator; from it come the rules for
  separators at the ends, which count for nothing.
* `parts_append` is a list from its first part on, and `exists_first` finds the
  first part of a list that does not start with the separator.  Between them they
  go through a list part by part, as in `length_parts_le`.
* `exists_last` cuts at the last separator.
-/

namespace AeroOS.Separated

variable {α : Type*} [DecidableEq α] (sep : α)

/-- The non-empty parts between separators. -/
def parts (l : List α) : List (List α) := (l.splitOn sep).filter (· ≠ [])

@[simp] theorem parts_nil : parts sep ([] : List α) = [] := rfl

/-- Cutting at a separator. -/
theorem parts_append_cons (a b : List α) : parts sep (a ++ sep :: b) = parts sep a ++ parts sep b := by
  rw [parts, List.splitOn_append_cons_self, List.filter_append]
  rfl

@[simp] theorem parts_cons_self (l : List α) : parts sep (sep :: l) = parts sep l :=
  parts_append_cons sep [] l

@[simp] theorem parts_concat_self (l : List α) : parts sep (l ++ [sep]) = parts sep l := by
  rw [parts_append_cons, parts_nil, List.append_nil]

/-- A list without separators is one part. -/
theorem parts_of_not_mem {a : List α} (hne : a ≠ []) (ha : sep ∉ a) : parts sep a = [a] := by
  rw [parts, List.splitOn_eq_singleton ha, List.filter_cons_of_pos (by simpa using hne)]
  rfl

/-- A list whose first part ends where the list does, or at a separator. -/
theorem parts_append {a rest : List α} (hne : a ≠ []) (ha : sep ∉ a)
    (hrest : rest = [] ∨ rest.head? = some sep) : parts sep (a ++ rest) = a :: parts sep rest := by
  have hpart := parts_of_not_mem sep hne ha
  rcases hrest with rfl | hrest
  · rw [List.append_nil, hpart, parts_nil]
  · obtain ⟨rest, rfl⟩ := List.head?_eq_some_iff.1 hrest
    rw [parts_append_cons, hpart, parts_cons_self]
    rfl

/-- Separators in front count for nothing. -/
theorem parts_dropWhile (l : List α) : parts sep (l.dropWhile (· == sep)) = parts sep l := by
  induction l with
  | nil => rfl
  | cons a l ih =>
    by_cases ha : a = sep
    · subst ha
      rw [List.dropWhile_cons_of_pos (by simp), ih, parts_cons_self]
    · rw [List.dropWhile_cons_of_neg (by simpa using ha)]

/-- Neither do separators at the end. -/
theorem parts_rdropWhile (l : List α) : parts sep (l.rdropWhile (· == sep)) = parts sep l := by
  induction l using List.reverseRecOn with
  | nil => rfl
  | append_singleton l a ih =>
    by_cases ha : a = sep
    · subst ha
      rw [List.rdropWhile_concat_pos _ _ _ (by simp), ih, parts_concat_self]
    · rw [List.rdropWhile_concat_neg _ _ _ (by simpa using ha)]

/-- The first part of a list that starts with another symbol. -/
theorem exists_first {l : List α} (hne : l ≠ []) (h : l.head? ≠ some sep) :
    ∃ a rest, l = a ++ rest ∧ a ≠ [] ∧ sep ∉ a ∧ (rest = [] ∨ rest.head? = some sep) := by
  induction l with
  | nil => exact absurd rfl hne
  | cons x l ih =>
    have hx : sep ∉ [x] := fun hmem => h (congrArg some (List.mem_singleton.1 hmem).symm)
    by_cases hl : l = []
    · exact ⟨[x], [], by rw [hl, List.append_nil], List.cons_ne_nil x [], hx, Or.inl rfl⟩
    by_cases hsep : l.head? = some sep
    · exact ⟨[x], l, rfl, List.cons_ne_nil x [], hx, Or.inr hsep⟩
    · obtain ⟨a, rest, rfl, -, ha, hrest⟩ := ih hl hsep
      refine ⟨x :: a, rest, rfl, List.cons_ne_nil x a, fun hmem => ?_, hrest⟩
      rcases List.mem_cons.1 hmem with rfl | hmem
      · exact hx (List.mem_singleton_self _)
      · exact ha hmem

omit [DecidableEq α] in
/-- A list with a separator, cut at the last one. -/
theorem exists_last {l : List α} (h : sep ∈ l) : ∃ a b, l = a ++ sep :: b ∧ sep ∉ b := by
  obtain ⟨b, a, heq, hb⟩ := List.eq_append_cons_of_mem (List.mem_reverse.2 h)
  refine ⟨a.reverse, b.reverse, ?_, fun hmem => hb (List.mem_reverse.1 hmem)⟩
  rw [← List.reverse_reverse l, heq, List.reverse_append, List.reverse_cons, List.append_assoc]
  rfl

/-- There are no more parts than symbols. -/
theorem length_parts_le (l : List α) : (parts sep l).length ≤ l.length := by
  induction hn : l.length using Nat.strongRecOn generalizing l with
  | ind n ih =>
    by_cases hne : l = []
    · subst hne
      rw [parts_nil]
      exact Nat.zero_le n
    by_cases hsep : l.head? = some sep
    · obtain ⟨rest, rfl⟩ := List.head?_eq_some_iff.1 hsep
      rw [List.length_cons] at hn
      rw [parts_cons_self]
      exact (ih rest.length (by omega) rest rfl).trans (by omega)
    · obtain ⟨a, rest, rfl, ha, hmem, hrest⟩ := exists_first sep hne hsep
      have hpos : 0 < a.length := List.length_pos_iff.2 ha
      rw [List.length_append] at hn
      have hle := ih rest.length (by omega) rest rfl
      rw [parts_append sep ha hmem hrest, List.length_cons]
      omega

end AeroOS.Separated
