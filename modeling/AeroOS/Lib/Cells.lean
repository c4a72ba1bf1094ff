import Mathlib.Algebra.Group.Fin.Basic
import Mathlib.Algebra.GroupWithZero.Nat
import Mathlib.Data.List.FinRange
import Mathlib.Logic.Function.Basic
import Mathlib.Tactic.Abel

/-!
# Fixed arrays searched from the front

An array of `n` cells is a function on `Fin n`.  Code that keeps its records in
such an array finds a record by a linear search and edits the first match.

* `position p a` is the first index whose cell satisfies `p`.
* `modifyFirst p f a` applies `f` at that index.
* `scanAfter p i a` searches the indices after `i`, with wraparound, and `i`
  itself last, and finds the match that is nearest by `cyclicDist`.
-/

namespace AeroOS.Cells

variable {n : Nat} {α : Type*}

/-- The first index whose cell satisfies `p`. -/
def position (p : α → Bool) (a : Fin n → α) : Option (Fin n) :=
  (List.finRange n).find? fun i => p (a i)

theorem position_sat {p : α → Bool} {a : Fin n → α} {i : Fin n} (h : position p a = some i) :
    p (a i) = true :=
  List.find?_some (p := fun i => p (a i)) h

theorem position_eq_none {p : α → Bool} {a : Fin n → α} :
    position p a = none ↔ ∀ i, p (a i) = false := by
  simp [position]

theorem position_isSome {p : α → Bool} {a : Fin n → α} {i : Fin n} (h : p (a i) = true) :
    ∃ j, position p a = some j := by
  cases hp : position p a with
  | some j => exact ⟨j, rfl⟩
  | none => exact absurd (position_eq_none.1 hp i) (by simp [h])

/-- A search with one match finds it. -/
theorem position_eq_some_of_unique {p : α → Bool} {a : Fin n → α} {i : Fin n}
    (h : p (a i) = true) (huniq : ∀ j, p (a j) = true → j = i) : position p a = some i := by
  obtain ⟨j, hj⟩ := position_isSome h
  rw [hj, huniq j (position_sat hj)]

/-- The cells before the first match do not match. -/
theorem position_lt {p : α → Bool} {a : Fin n → α} {i j : Fin n} (h : position p a = some i)
    (hj : j < i) : p (a j) = false := by
  obtain ⟨-, k, hk, hget, hbefore⟩ := List.find?_eq_some_iff_getElem.1 h
  have hki : k = i.val := by
    rw [← hget, List.getElem_finRange]
    rfl
  have hjk := hbefore j.val (by rw [hki]; exact hj)
  simpa using hjk

/-- A search finds a cell that matches and has no match before it. -/
theorem position_eq_some_iff {p : α → Bool} {a : Fin n → α} {i : Fin n} :
    position p a = some i ↔ p (a i) = true ∧ ∀ j < i, p (a j) = false := by
  refine ⟨fun h => ⟨position_sat h, fun j => position_lt h⟩, fun ⟨hi, hlt⟩ => ?_⟩
  obtain ⟨j, hj⟩ := position_isSome hi
  rcases lt_trichotomy j i with h | h | h
  · exact absurd (position_sat hj) (by simp [hlt j h])
  · rw [hj, h]
  · exact absurd hi (by simp [position_lt hj h])

/-- Two searches that agree on every cell agree. -/
theorem position_congr {p : α → Bool} {a b : Fin n → α} (h : ∀ i, p (a i) = p (b i)) :
    position p a = position p b := by
  simp only [position, h]

/-- Cell 0 is looked at first. -/
theorem position_zero [NeZero n] {p : α → Bool} {a : Fin n → α} (h : p (a 0) = true) :
    position p a = some 0 := by
  obtain ⟨m, rfl⟩ := Nat.exists_eq_succ_of_ne_zero (NeZero.ne n)
  simp [position, List.finRange_succ, h]

/-- Apply `f` to the first cell that satisfies `p`. -/
def modifyFirst (p : α → Bool) (f : α → α) (a : Fin n → α) : Fin n → α :=
  match position p a with
  | some i => Function.update a i (f (a i))
  | none => a

/-- A cell after `modifyFirst`: the first match is edited, every other cell is
kept. -/
theorem modifyFirst_apply (p : α → Bool) (f : α → α) (a : Fin n → α) (j : Fin n) :
    modifyFirst p f a j = if position p a = some j then f (a j) else a j := by
  unfold modifyFirst
  cases hp : position p a with
  | none => simp
  | some i =>
    by_cases hij : j = i
    · subst hij
      simp
    · have hne : ¬ i = j := fun h => hij h.symm
      simp [Function.update_of_ne hij, hne]

/-- What `f` keeps on the cells it is applied to, `modifyFirst` keeps
everywhere. -/
theorem modifyFirst_keeps {β : Type*} {p : α → Bool} {f : α → α} {g : α → β}
    (hf : ∀ x, g (f x) = g x) (a : Fin n → α) (j : Fin n) :
    g (modifyFirst p f a j) = g (a j) := by
  rw [modifyFirst_apply]
  split
  · exact hf _
  · rfl

/-- No two cells with `p` are related by `r`, and one with `p` that is written is related to no
other. -/
theorem eq_of_update {a : Fin n → α} {i : Fin n} {x : α} {p : α → Prop} {r : α → α → Prop}
    (hsymm : ∀ x y, r x y → r y x)
    (hold : ∀ j k, p (a j) → p (a k) → r (a j) (a k) → j = k)
    (hnew : p x → ∀ j, j ≠ i → p (a j) → ¬ r (a j) x) (j k : Fin n)
    (hj : p (Function.update a i x j)) (hk : p (Function.update a i x k))
    (hjk : r (Function.update a i x j) (Function.update a i x k)) : j = k := by
  by_cases hji : j = i
  · by_cases hki : k = i
    · rw [hji, hki]
    · rw [hji, Function.update_self] at hj hjk
      rw [Function.update_of_ne hki] at hk hjk
      exact absurd (hsymm _ _ hjk) (hnew hj k hki hk)
  · rw [Function.update_of_ne hji] at hj hjk
    by_cases hki : k = i
    · rw [hki, Function.update_self] at hk hjk
      exact absurd hjk (hnew hk j hji hj)
    · rw [Function.update_of_ne hki] at hk hjk
      exact hold j k hj hk hjk

/-- The indices after `i`, with wraparound, `i` itself last. -/
def scanAfter [NeZero n] (p : α → Bool) (i : Fin n) (a : Fin n → α) : Option (Fin n) :=
  ((List.finRange n).map fun k => i + 1 + k).find? fun j => p (a j)

theorem scanAfter_sat [NeZero n] {p : α → Bool} {i j : Fin n} {a : Fin n → α}
    (h : scanAfter p i a = some j) : p (a j) = true :=
  List.find?_some (p := fun j => p (a j)) h

/-- The second cell after `i`, when the first one does not match. -/
theorem scanAfter_second [NeZero n] (hn : 1 < n) {p : α → Bool} {i : Fin n} {a : Fin n → α}
    (h1 : p (a (i + 1)) = false) (h2 : p (a (i + 1 + 1)) = true) :
    scanAfter p i a = some (i + 1 + 1) := by
  obtain ⟨m, rfl⟩ : ∃ m, n = m + 1 + 1 := ⟨n - 2, by omega⟩
  simp [scanAfter, List.finRange_succ, h1, h2]

/-- How far cell `j` lies after `i`, going round: from 1 for the next cell to
`n` for `i` itself. -/
def cyclicDist [NeZero n] (i j : Fin n) : Nat := (j - i - 1).val + 1

theorem cyclicDist_pos [NeZero n] (i j : Fin n) : 0 < cyclicDist i j := Nat.succ_pos _

theorem cyclicDist_le [NeZero n] (i j : Fin n) : cyclicDist i j ≤ n := (j - i - 1).isLt

theorem cyclicDist_inj [NeZero n] {i j q : Fin n} (h : cyclicDist i j = cyclicDist i q) : j = q := by
  have hval : j - i - 1 = q - i - 1 := Fin.ext (Nat.succ.inj h)
  simpa using hval

/-- Distances on the way round add up. -/
theorem cyclicDist_add [NeZero n] {i j q : Fin n} (h : cyclicDist i j < cyclicDist i q) :
    cyclicDist i j + cyclicDist j q = cyclicDist i q := by
  unfold cyclicDist at *
  have hsub : q - j - 1 = (q - i - 1) - (j - i - 1) - 1 := by abel
  generalize q - i - 1 = y at *
  generalize j - i - 1 = x at *
  have hxy : x < y := Fin.lt_def.2 (by omega)
  have h1 : (y - x).val = y.val - x.val := Fin.sub_val_of_le hxy.le
  have hn : 1 < n := by have := y.isLt; have := Fin.lt_def.1 hxy; omega
  have hone : (1 : Fin n).val = 1 := by
    rw [Fin.val_one', Nat.mod_eq_of_lt hn]
  have h2 : (y - x - 1).val = y.val - x.val - 1 := by
    rw [Fin.sub_val_of_le (Fin.le_def.2 (by rw [hone, h1]; have := Fin.lt_def.1 hxy; omega)), h1, hone]
  rw [hsub, h2]
  have := Fin.lt_def.1 hxy
  omega

/-- A scan finds the nearest match. -/
theorem scanAfter_first [NeZero n] {p : α → Bool} {i j q : Fin n} {a : Fin n → α}
    (h : scanAfter p i a = some j) (hq : p (a q) = true) : cyclicDist i j ≤ cyclicDist i q := by
  obtain ⟨-, k, hk, hget, hbefore⟩ := List.find?_eq_some_iff_getElem.1 h
  have hkn : k < n := by simpa using hk
  have hcell : ∀ m (hm : m < n) (hm' : m < ((List.finRange n).map fun k => i + 1 + k).length),
      ((List.finRange n).map fun k => i + 1 + k)[m] = i + 1 + ⟨m, hm⟩ := by
    intro m hm hm'
    simp
  rw [hcell k hkn] at hget
  have hjk : (j - i - 1).val = k := by
    rw [← hget, show i + 1 + ⟨k, hkn⟩ - i - 1 = (⟨k, hkn⟩ : Fin n) by abel]
  by_contra hlt
  have hqk : (q - i - 1).val < k := by
    unfold cyclicDist at hlt
    omega
  have hno := hbefore (q - i - 1).val hqk
  rw [hcell _ (Fin.is_lt _), show i + 1 + ⟨(q - i - 1).val, by omega⟩ = q by
    rw [Fin.eta]; abel] at hno
  rw [hq] at hno
  cases hno

end AeroOS.Cells
