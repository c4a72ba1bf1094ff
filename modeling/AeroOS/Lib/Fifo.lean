import Mathlib.Data.List.ReduceOption

/-!
# Bounded queues

A queue of at most `cap` values: a push on a full queue is dropped, a pop on an empty one
answers `none`.

* `run` is a run of calls on the list of the queued values, with the answers of the pops.
* `popped_append_run`: what is popped and what stays are the pushes that were not dropped, in
  order.
* `Implements` is a structure whose calls simulate those of the queue, and `Implements.exec`
  the result for runs.
-/

namespace AeroOS.Fifo

variable {α σ : Type*}

/-- A call. -/
inductive Op (α : Type*) where
  | push (x : α)
  | pop

/-- Put a value behind the others, unless the queue is full. -/
def push (cap : Nat) (q : List α) (x : α) : List α := if q.length = cap then q else q ++ [x]

/-- The answers of the pops, and the queue after the run. -/
def run (cap : Nat) : List (Op α) → List α → List (Option α) × List α
  | [], q => ([], q)
  | .push x :: ops, q => run cap ops (push cap q x)
  | .pop :: ops, q => (q.head? :: (run cap ops q.tail).1, (run cap ops q.tail).2)

/-- The pushes of a run that are not dropped. -/
def accepted (cap : Nat) : List (Op α) → List α → List α
  | [], _ => []
  | .push x :: ops, q =>
    if q.length = cap then accepted cap ops q else x :: accepted cap ops (push cap q x)
  | .pop :: ops, q => accepted cap ops q.tail

/-- First in, first out. -/
theorem popped_append_run (cap : Nat) (ops : List (Op α)) (q : List α) :
    (run cap ops q).1.reduceOption ++ (run cap ops q).2 = q ++ accepted cap ops q := by
  induction ops generalizing q with
  | nil => exact (List.append_nil q).symm
  | cons op ops ih =>
    cases op with
    | push x =>
      rw [run, ih, accepted]
      by_cases hfull : q.length = cap
      · rw [push, if_pos hfull, if_pos hfull]
      · rw [push, if_neg hfull, if_neg hfull, List.append_assoc]
        rfl
    | pop =>
      rw [run, accepted]
      cases q with
      | nil => exact ih []
      | cons x q =>
        rw [List.head?_cons, List.reduceOption_cons_of_some, List.cons_append, List.tail_cons, ih,
          List.cons_append]

/-! ## Implementations -/

/-- A run of calls of a structure; `none` is a call that fails. -/
def exec (push : σ → α → Option σ) (pop : σ → Option (Option α × σ)) :
    List (Op α) → σ → Option (List (Option α) × σ)
  | [], s => some ([], s)
  | .push x :: ops, s => (push s x).bind (exec push pop ops)
  | .pop :: ops, s =>
    (pop s).bind fun r => (exec push pop ops r.2).map fun rest => (r.1 :: rest.1, rest.2)

/-- The calls do on the structure what they do on the queue that it stands for. -/
structure Implements (cap : Nat) (push : σ → α → Option σ) (pop : σ → Option (Option α × σ))
    (stands : σ → List α → Prop) : Prop where
  push_ok : ∀ s q x, stands s q → ∃ s', push s x = some s' ∧ stands s' (Fifo.push cap q x)
  pop_ok : ∀ s q, stands s q → ∃ s', pop s = some (q.head?, s') ∧ stands s' q.tail

theorem Implements.exec {cap : Nat} {push : σ → α → Option σ} {pop : σ → Option (Option α × σ)}
    {stands : σ → List α → Prop} (h : Implements cap push pop stands) (ops : List (Op α)) {s : σ}
    {q : List α} (hs : stands s q) :
    ∃ s', Fifo.exec push pop ops s = some ((run cap ops q).1, s') ∧
      stands s' (run cap ops q).2 := by
  induction ops generalizing s q with
  | nil => exact ⟨s, rfl, hs⟩
  | cons op ops ih =>
    cases op with
    | push x =>
      obtain ⟨s₁, hpush, hs₁⟩ := h.push_ok s q x hs
      obtain ⟨s', hexec, hs'⟩ := ih hs₁
      refine ⟨s', ?_, hs'⟩
      rw [Fifo.exec, hpush, Option.bind_some, hexec]
      rfl
    | pop =>
      obtain ⟨s₁, hpop, hs₁⟩ := h.pop_ok s q hs
      obtain ⟨s', hexec, hs'⟩ := ih hs₁
      refine ⟨s', ?_, hs'⟩
      rw [Fifo.exec, hpop, Option.bind_some, hexec]
      rfl

end AeroOS.Fifo
