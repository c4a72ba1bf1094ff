import Mathlib.Data.List.TakeWhile

/-!
# Words

The words of a text are the maximal runs without a separator.

* `words_cons_of_sep` and `words_append`: the words of a text that starts with a separator,
  and of one that starts with a word.
* `words_scan`: the step of a scan that skips separators and takes a word.
-/

namespace AeroOS.Words

variable {α : Type*} {sep : α → Bool}

/-- The parts between separators that are not empty. -/
def words (sep : α → Bool) (s : List α) : List (List α) := (s.splitOnP sep).filter (!·.isEmpty)

/-- The text is empty or starts with a separator. -/
def Stops (sep : α → Bool) (s : List α) : Prop := ∀ c ∈ s.head?, sep c = true

@[simp] theorem words_nil : words sep [] = [] := by
  rw [words, List.splitOnP_nil]
  rfl

theorem words_cons_of_sep {c : α} (hc : sep c = true) (s : List α) :
    words sep (c :: s) = words sep s := by
  rw [words, List.splitOnP_cons_eq_if_modifyHead, if_pos hc]
  rfl

theorem words_dropWhile (s : List α) : words sep (s.dropWhile sep) = words sep s := by
  induction s with
  | nil => rfl
  | cons c s ih =>
    rw [List.dropWhile_cons]
    by_cases hc : sep c = true
    · rw [if_pos hc, ih, words_cons_of_sep hc]
    · rw [if_neg hc]

/-- A word, and what follows it. -/
theorem words_append {w s : List α} (hne : w ≠ []) (hw : ∀ c ∈ w, sep c = false)
    (hs : Stops sep s) : words sep (w ++ s) = w :: words sep s := by
  have hempty : (!w.isEmpty) = true := by simpa using hne
  cases s with
  | nil =>
    rw [List.append_nil, words_nil, words, List.splitOnP_eq_singleton hw, List.filter_cons,
      if_pos hempty]
    rfl
  | cons c s =>
    have hc := hs c rfl
    rw [words, List.splitOnP_append_cons_of_forall_mem hw c hc, List.filter_cons, if_pos hempty,
      words_cons_of_sep hc]
    rfl

/-- A scan stops at the first value that it is not for. -/
theorem head?_dropWhile {p : α → Bool} {s : List α} {c : α} (h : c ∈ (s.dropWhile p).head?) :
    p c = false := by
  have hnot := List.head?_dropWhile_not p s
  rw [Option.mem_def.1 h] at hnot
  exact hnot

/-- A scan skips separators and takes the run behind them. -/
theorem words_scan (s : List α) :
    words sep s =
      if s.dropWhile sep = [] then []
      else (s.dropWhile sep).takeWhile (!sep ·) ::
        words sep ((s.dropWhile sep).dropWhile (!sep ·)) := by
  rw [← words_dropWhile]
  split
  · rename_i hnil
    rw [hnil, words_nil]
  · rename_i hne
    have hall : ∀ c ∈ (s.dropWhile sep).takeWhile (!sep ·), sep c = false := by
      intro c hc
      simpa using List.mem_takeWhile_imp hc
    have hstop : Stops sep ((s.dropWhile sep).dropWhile (!sep ·)) := by
      intro c hc
      simpa using head?_dropWhile hc
    have htake : (s.dropWhile sep).takeWhile (!sep ·) ≠ [] := by
      obtain ⟨c, r, hcr⟩ := List.exists_cons_of_ne_nil hne
      have hc : sep c = false := head?_dropWhile (s := s) (by rw [hcr]; rfl)
      rw [hcr, List.takeWhile_cons_of_pos (by simpa using hc)]
      exact List.cons_ne_nil _ _
    rw [← words_append htake hall hstop, List.takeWhile_append_dropWhile]

end AeroOS.Words
