import Mathlib.Algebra.GroupWithZero.Nat
import Mathlib.Logic.Function.Basic

/-!
# Critical sections

Contexts that run straight-line code with locks.  A context takes a lock and
releases it before it takes the next one.

* `inside` is the lock that the rest of a context's code releases first: the one
  it holds.
* `Disciplined` ties the holders of the locks to the code that is left, and
  `Disciplined.advance` is its step lemma.
* `BlocksOn`: the next operation of a context takes a lock that is held.
-/

namespace AeroOS.Sections

/-- An operation on a lock, or other work. -/
inductive Op (L W : Type*) where
  | lock (l : L)
  | unlock (l : L)
  | work (w : W)
  deriving DecidableEq

variable {C L W : Type*}

/-- The lock that code is inside of. -/
def inside : List (Op L W) → Option L
  | .unlock l :: _ => some l
  | .work _ :: ops => inside ops
  | _ => none

/-- Code whose sections do not nest. -/
def InSections : List (Op L W) → Prop
  | [] => True
  | .lock l :: ops => inside ops = some l ∧ InSections ops
  | .unlock _ :: ops => inside ops = none ∧ InSections ops
  | .work _ :: ops => InSections ops

/-- The code that each context has left, and the holder of each lock. -/
structure Contexts (C L W : Type*) where
  code : C → List (Op L W)
  holder : L → Option C

namespace Contexts

/-- The context would wait for a lock. -/
def BlocksOn (s : Contexts C L W) (c : C) (l : L) : Prop :=
  (s.code c).head? = some (.lock l) ∧ (s.holder l).isSome

/-- The next operation of a context.  A context that waits stays where it is. -/
def advance [DecidableEq C] [DecidableEq L] (s : Contexts C L W) (c : C) : Contexts C L W :=
  match s.code c with
  | [] => s
  | .lock l :: ops =>
    if (s.holder l).isSome then s
    else ⟨Function.update s.code c ops, Function.update s.holder l (some c)⟩
  | .unlock l :: ops => ⟨Function.update s.code c ops, Function.update s.holder l none⟩
  | .work _ :: ops => { s with code := Function.update s.code c ops }

/-- A context runs its own code only, from the front. -/
theorem advance_code [DecidableEq C] [DecidableEq L] (s : Contexts C L W) (c d : C) :
    (s.advance c).code d <:+ s.code d ∧ (d ≠ c → (s.advance c).code d = s.code d) := by
  unfold advance
  cases hcode : s.code c with
  | nil => exact ⟨List.suffix_rfl, fun _ => rfl⟩
  | cons op ops =>
    have hupdate : Function.update s.code c ops d <:+ s.code d ∧
        (d ≠ c → Function.update s.code c ops d = s.code d) := by
      by_cases hd : d = c
      · subst hd
        rw [Function.update_self, hcode]
        exact ⟨List.suffix_cons op ops, fun h => absurd rfl h⟩
      · rw [Function.update_of_ne hd]
        exact ⟨List.suffix_rfl, fun _ => rfl⟩
    cases op with
    | lock l =>
      simp only
      split
      · exact ⟨List.suffix_rfl, fun _ => rfl⟩
      · exact hupdate
    | unlock l => exact hupdate
    | work w => exact hupdate

/-- All code is in sections, and a lock is held by the context inside of it. -/
structure Disciplined (s : Contexts C L W) : Prop where
  sections : ∀ c, InSections (s.code c)
  holder : ∀ l c, s.holder l = some c ↔ inside (s.code c) = some l

namespace Disciplined

variable {s : Contexts C L W}

theorem isSome_iff (h : Disciplined s) {l : L} :
    (s.holder l).isSome ↔ ∃ c, inside (s.code c) = some l := by
  simp only [Option.isSome_iff_exists, h.holder]

/-- No context waits for a lock that it holds. -/
theorem not_self (h : Disciplined s) {c : C} {l : L} (hb : s.BlocksOn c l) :
    ∃ c', c' ≠ c ∧ inside (s.code c') = some l := by
  obtain ⟨c', hc'⟩ := h.isSome_iff.1 hb.2
  refine ⟨c', ?_, hc'⟩
  rintro rfl
  have hhead := hb.1
  cases hcode : s.code c' with
  | nil => simp [hcode] at hhead
  | cons op ops =>
    rw [hcode, List.head?_cons, Option.some.injEq] at hhead
    subst hhead
    simp [hcode, inside] at hc'

variable [DecidableEq C] [DecidableEq L]

omit [DecidableEq L] in
theorem sections_update (h : Disciplined s) {c : C} {ops : List (Op L W)} (hops : InSections ops) :
    ∀ d, InSections (Function.update s.code c ops d) := by
  intro d
  by_cases hd : d = c
  · subst hd
    rwa [Function.update_self]
  · rw [Function.update_of_ne hd]
    exact h.sections d

omit [DecidableEq L] in
theorem inside_update (c d : C) (ops : List (Op L W)) :
    inside (Function.update s.code c ops d) = if d = c then inside ops else inside (s.code d) := by
  by_cases hd : d = c
  · subst hd
    rw [Function.update_self, if_pos rfl]
  · rw [Function.update_of_ne hd, if_neg hd]

/-- One operation keeps the discipline. -/
theorem advance (h : Disciplined s) (c : C) : Disciplined (s.advance c) := by
  have hc := h.sections c
  unfold Contexts.advance
  cases hcode : s.code c with
  | nil => exact h
  | cons op ops =>
    rw [hcode] at hc
    cases op with
    | lock l =>
      simp only
      split
      · exact h
      · rename_i hfree
        refine ⟨h.sections_update hc.2, fun l' d => ?_⟩
        simp only [inside_update]
        by_cases hl : l' = l
        · -- the context is inside the lock, and no other one is
          subst hl
          have hnone (d : C) : inside (s.code d) ≠ some l' := fun hd =>
            hfree (h.isSome_iff.2 ⟨d, hd⟩)
          by_cases hd : d = c
          · simp [hd, hc.1]
          · simp [hd, hnone d, Ne.symm hd]
        · simp only [Function.update_of_ne hl, h.holder]
          by_cases hd : d = c
          · subst hd
            simp [hcode, inside, hc.1, Ne.symm hl]
          · simp [hd]
    | unlock l =>
      simp only
      refine ⟨h.sections_update hc.2, fun l' d => ?_⟩
      have hin : inside (s.code c) = some l := by rw [hcode]; rfl
      simp only [inside_update]
      by_cases hl : l' = l
      · subst hl
        by_cases hd : d = c
        · simp [hd, hc.1]
        · -- the context was the only holder
          have hne : inside (s.code d) ≠ some l' := fun h' => by
            have hd' := ((h.holder l' d).2 h').symm.trans ((h.holder l' c).2 hin)
            exact hd (Option.some.inj hd')
          simp [hd, hne]
      · simp only [Function.update_of_ne hl, h.holder]
        by_cases hd : d = c
        · subst hd
          simp [hin, hc.1, Ne.symm hl]
        · simp [hd]
    | work w =>
      refine ⟨h.sections_update hc, fun l' d => ?_⟩
      simp only [inside_update, h.holder]
      by_cases hd : d = c
      · subst hd
        simp [hcode, inside]
      · simp [hd]

end Disciplined

end Contexts

end AeroOS.Sections
