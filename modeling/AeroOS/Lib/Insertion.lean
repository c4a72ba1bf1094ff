import Mathlib.Data.List.Sort

/-!
# Sorting again after an insertion

A list that is kept in order by sorting it after every insertion at its end.  The
order is a transitive relation, which need not tell two members apart.

* `insertLast_split`: the new member goes behind those that come before it or tie
  with it, and the others keep their order.
* `getElem?_of_rel` and `getElem?_of_not_rel`: what the insertion does to the
  position of another member.
-/

namespace AeroOS.Insertion

variable {α : Type*} {r : α → α → Prop} [DecidableRel r] {l : List α} {m : α}

/-- The list with a new member. -/
def insertLast (r : α → α → Prop) [DecidableRel r] (l : List α) (m : α) : List α :=
  (l ++ [m]).insertionSort r

theorem perm_insertLast (l : List α) (m : α) : (insertLast r l m).Perm (l ++ [m]) :=
  List.perm_insertionSort r _

theorem pairwise_insertLast [IsTrans α r] [Std.Total r] (l : List α) (m : α) :
    (insertLast r l m).Pairwise r :=
  List.pairwise_insertionSort r _

theorem orderedInsert_of_forall {a : α} (h : ∀ b ∈ l, r a b) : l.orderedInsert r a = a :: l := by
  cases l with
  | nil => rfl
  | cons b l => exact List.orderedInsert_cons_of_le _ _ (h b List.mem_cons_self)

variable [IsTrans α r]

/-- The new member splits a list that is in order. -/
theorem insertLast_split (h : l.Pairwise r) (m : α) :
    ∃ l₁ l₂, l = l₁ ++ l₂ ∧ insertLast r l m = l₁ ++ m :: l₂ ∧ (∀ a ∈ l₁, r a m) ∧
      ∀ a ∈ l₂, ¬ r a m := by
  induction l with
  | nil => exact ⟨[], [], rfl, rfl, fun a ha => absurd ha List.not_mem_nil,
      fun a ha => absurd ha List.not_mem_nil⟩
  | cons a l ih =>
    obtain ⟨ha, hl⟩ := List.pairwise_cons.1 h
    obtain ⟨l₁, l₂, rfl, heq, h₁, h₂⟩ := ih hl
    rw [insertLast, List.cons_append, List.insertionSort_cons, ← insertLast, heq]
    by_cases ham : r a m
    · refine ⟨a :: l₁, l₂, rfl, orderedInsert_of_forall fun b hb => ?_, ?_, h₂⟩
      · rcases List.mem_append.1 hb with hb | hb
        · exact ha b (List.mem_append_left l₂ hb)
        · rcases List.mem_cons.1 hb with rfl | hb
          · exact ham
          · exact ha b (List.mem_append_right l₁ hb)
      · exact List.forall_mem_cons.2 ⟨ham, h₁⟩
    · -- what comes before `m` would be behind `a`, which does not
      have hnil : l₁ = [] := List.eq_nil_iff_forall_not_mem.2 fun b hb =>
        ham (IsTrans.trans _ _ _ (ha b (List.mem_append_left l₂ hb)) (h₁ b hb))
      subst hnil
      refine ⟨[], a :: l₂, rfl, ?_, fun b hb => absurd hb List.not_mem_nil,
        List.forall_mem_cons.2 ⟨ham, h₂⟩⟩
      rw [List.nil_append, List.nil_append, List.orderedInsert_of_not_le _ _ ham]
      exact congrArg (m :: ·) (orderedInsert_of_forall ha)

/-- A member that comes before the new one keeps its position. -/
theorem getElem?_of_rel (h : l.Pairwise r) {i : Nat} {a : α} (ha : l[i]? = some a)
    (ham : r a m) : (insertLast r l m)[i]? = some a := by
  obtain ⟨l₁, l₂, rfl, heq, -, h₂⟩ := insertLast_split h m
  rw [heq]
  rcases Nat.lt_or_ge i l₁.length with hi | hi
  · rwa [List.getElem?_append_left hi] at ha ⊢
  · rw [List.getElem?_append_right hi] at ha
    exact absurd ham (h₂ a (List.mem_of_getElem? ha))

/-- A member that does not moves back by one. -/
theorem getElem?_of_not_rel (h : l.Pairwise r) {i : Nat} {a : α} (ha : l[i]? = some a)
    (ham : ¬ r a m) : (insertLast r l m)[i + 1]? = some a := by
  obtain ⟨l₁, l₂, rfl, heq, h₁, -⟩ := insertLast_split h m
  rw [heq]
  rcases Nat.lt_or_ge i l₁.length with hi | hi
  · rw [List.getElem?_append_left hi] at ha
    exact absurd (h₁ a (List.mem_of_getElem? ha)) ham
  · rw [List.getElem?_append_right hi] at ha
    rw [List.getElem?_append_right (by omega), show i + 1 - l₁.length = i - l₁.length + 1 by omega,
      List.getElem?_cons_succ, ha]

end AeroOS.Insertion
