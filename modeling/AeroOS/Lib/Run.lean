import Mathlib.Logic.Relation

/-!
# Runs under a condition

A transition system with labelled steps, run from a state by steps that meet a
condition in the state before them.

* `Reaches step ok s s'`: some run from `s` to `s'` takes only steps that `ok`
  allows.
* `Reaches.invariant` is the rule for what holds in every state reached.
* `AllOk` and `Reaches.foldl` turn a list of labels into a run, where the next
  state is a function of the label.
* `answers` is a run that answers each label, and `answers_refines` carries a
  refinement from one step to a run; `answers_refines_of` does so under an
  invariant.
-/

namespace AeroOS.Run

variable {σ ε : Type*} {step : σ → ε → σ → Prop} {ok : σ → ε → Prop}

/-- One step that is allowed. -/
def Guarded (step : σ → ε → σ → Prop) (ok : σ → ε → Prop) (s s' : σ) : Prop :=
  ∃ e, ok s e ∧ step s e s'

/-- A run of steps that are allowed. -/
def Reaches (step : σ → ε → σ → Prop) (ok : σ → ε → Prop) : σ → σ → Prop :=
  Relation.ReflTransGen (Guarded step ok)

namespace Reaches

theorem refl (s : σ) : Reaches step ok s s := Relation.ReflTransGen.refl

theorem snoc {s s' s'' : σ} (h : Reaches step ok s s') {e : ε} (hok : ok s' e)
    (hstep : step s' e s'') : Reaches step ok s s'' :=
  Relation.ReflTransGen.tail h ⟨e, hok, hstep⟩

theorem trans {s s' s'' : σ} (h : Reaches step ok s s') (h' : Reaches step ok s' s'') :
    Reaches step ok s s'' := Relation.ReflTransGen.trans h h'

/-- What every allowed step preserves holds in every state reached. -/
theorem invariant {I : σ → Prop} (hstep : ∀ s e s', I s → ok s e → step s e s' → I s')
    {s s' : σ} (h : Reaches step ok s s') (h0 : I s) : I s' := by
  induction h with
  | refl => exact h0
  | tail _ hlast ih =>
    obtain ⟨e, hok, he⟩ := hlast
    exact hstep _ e _ ih hok he

end Reaches

/-- Each label of a list meets the condition in the state where it is taken. -/
def AllOk (next : σ → ε → σ) (ok : σ → ε → Prop) : σ → List ε → Prop
  | _, [] => True
  | s, e :: l => ok s e ∧ AllOk next ok (next s e) l

theorem AllOk.mono {next : σ → ε → σ} {ok' : σ → ε → Prop} {s : σ} {l : List ε}
    (h : AllOk next ok s l) (himp : ∀ s e, ok s e → ok' s e) : AllOk next ok' s l := by
  induction l generalizing s with
  | nil => exact trivial
  | cons e l ih => exact ⟨himp s e h.1, ih h.2⟩

theorem allOk_append {next : σ → ε → σ} {s : σ} {l l' : List ε} :
    AllOk next ok s (l ++ l') ↔ AllOk next ok s l ∧ AllOk next ok (l.foldl next s) l' := by
  induction l generalizing s with
  | nil => simp [AllOk]
  | cons e l ih => rw [List.cons_append, AllOk, AllOk, ih, List.foldl_cons, and_assoc]

/-- A list of labels is a run. -/
theorem Reaches.foldl {next : σ → ε → σ} {s : σ} {l : List ε} (h : AllOk next ok s l) :
    Reaches (fun s e s' => s' = next s e) ok s (l.foldl next s) := by
  induction l generalizing s with
  | nil => exact Reaches.refl s
  | cons e l ih => exact Relation.ReflTransGen.head ⟨e, h.1, rfl⟩ (ih h.2)

/-! ## Runs with answers -/

section answers

variable {α β : Type*}

/-- The answers to a list of labels, and the state after them. -/
def answers (next : σ → ε → β × σ) : σ → List ε → List β × σ
  | s, [] => ([], s)
  | s, e :: l =>
    ((next s e).1 :: (answers next (next s e).2 l).1, (answers next (next s e).2 l).2)

variable {next : σ → ε → β × σ} {ref : α → ε → β × α} {view : σ → α}

/-- Steps that answer as a reference does, on its view of the state, make runs that do. -/
theorem answers_refines (h : ∀ s e, ref (view s) e = ((next s e).1, view (next s e).2)) (s : σ)
    (l : List ε) : answers ref (view s) l = ((answers next s l).1, view (answers next s l).2) := by
  induction l generalizing s with
  | nil => rfl
  | cons e l ih => rw [answers, answers, h, ih]

/-- The same for steps that do so in states with an invariant, which may speak of the
number of steps that are left. -/
theorem answers_refines_of {I : σ → Nat → Prop}
    (h : ∀ s e n, I s (n + 1) → ref (view s) e = ((next s e).1, view (next s e).2) ∧
      I (next s e).2 n) {s : σ} {l : List ε} (hI : I s l.length) :
    answers ref (view s) l = ((answers next s l).1, view (answers next s l).2) := by
  induction l generalizing s with
  | nil => rfl
  | cons e l ih =>
    obtain ⟨heq, hI'⟩ := h s e l.length hI
    rw [answers, answers, heq, ih hI']

/-- What a step keeps, a run keeps. -/
theorem answers_keeps {R : σ → σ → Prop} (hrefl : ∀ s, R s s)
    (htrans : ∀ {s s' s''}, R s s' → R s' s'' → R s s'') {l : List ε}
    (h : ∀ s, ∀ e ∈ l, R s (next s e).2) (s : σ) : R s (answers next s l).2 := by
  induction l generalizing s with
  | nil => exact hrefl s
  | cons e l ih =>
    exact htrans (h s e List.mem_cons_self) (ih (fun s e' he' => h s e' (List.mem_cons_of_mem e he')) _)

end answers

end AeroOS.Run
