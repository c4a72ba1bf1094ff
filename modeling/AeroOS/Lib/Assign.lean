import Mathlib.Logic.Function.Basic

/-!
# Assignments in a row

An assignment puts a value, computed from what is there, at one place.

* `run dst val l`: for the indices of `l`, in this order, `val i` goes to `dst i`.
* `run_of_not_target`: a place that is no target stays as it is.
* `run_last`: what the last assignment to a place puts there.
* `run_target`: a row in which no assignment depends on an earlier target, or repeats it, makes
  all assignments at once.
-/

namespace AeroOS.Assign

variable {ι α β : Type*} [DecidableEq α] {dst : ι → α} {val : ι → (α → β) → β} {l l' : List ι}

/-- The values `val i` go to `dst i`, one after the other. -/
def run (dst : ι → α) (val : ι → (α → β) → β) (l : List ι) (m : α → β) : α → β :=
  l.foldl (fun m i => Function.update m (dst i) (val i m)) m

theorem run_cons (i : ι) (m : α → β) :
    run dst val (i :: l) m = run dst val l (Function.update m (dst i) (val i m)) := rfl

theorem run_append (m : α → β) : run dst val (l ++ l') m = run dst val l' (run dst val l m) :=
  List.foldl_append

theorem run_congr {dst' : ι → α} {val' : ι → (α → β) → β}
    (h : ∀ i ∈ l, dst i = dst' i ∧ val i = val' i) (m : α → β) :
    run dst val l m = run dst' val' l m := by
  induction l generalizing m with
  | nil => rfl
  | cons i l ih =>
    obtain ⟨hdst, hval⟩ := h i List.mem_cons_self
    rw [run_cons, run_cons, hdst, hval]
    exact ih (fun j hj => h j (List.mem_cons_of_mem i hj)) _

theorem run_of_not_target {x : α} (h : ∀ i ∈ l, dst i ≠ x) (m : α → β) :
    run dst val l m x = m x := by
  induction l generalizing m with
  | nil => rfl
  | cons i l ih =>
    rw [run_cons, ih fun j hj => h j (List.mem_cons_of_mem i hj)]
    exact Function.update_of_ne (h i List.mem_cons_self).symm _ _

/-- A target has what the last assignment to it has put there. -/
theorem run_last {i : ι} (h : ∀ j ∈ l', dst j ≠ dst i) (m : α → β) :
    run dst val (l ++ i :: l') m (dst i) = val i (run dst val l m) := by
  rw [run_append, run_cons, run_of_not_target h]
  exact Function.update_self _ _ _

/-- A value that depends on none of the targets. -/
theorem val_run {v : (α → β) → β} (h : ∀ i ∈ l, ∀ m b, v (Function.update m (dst i) b) = v m)
    (m : α → β) : v (run dst val l m) = v m := by
  induction l generalizing m with
  | nil => rfl
  | cons i l ih =>
    rw [run_cons, ih fun j hj => h j (List.mem_cons_of_mem i hj)]
    exact h i List.mem_cons_self m _

/-- If no assignment depends on an earlier target or repeats it, each puts what its value was
at first. -/
theorem run_target {i : ι} (h : l.Pairwise fun i j => dst i ≠ dst j ∧
      ∀ m b, val j (Function.update m (dst i) b) = val j m)
    (hi : i ∈ l) (m : α → β) : run dst val l m (dst i) = val i m := by
  obtain ⟨before, after, rfl⟩ := List.append_of_mem hi
  obtain ⟨-, hafter, hbefore⟩ := List.pairwise_append.1 h
  rw [run_last fun j hj => ((List.pairwise_cons.1 hafter).1 j hj).1.symm]
  exact val_run (fun j hj => (hbefore j hj i List.mem_cons_self).2) m

end AeroOS.Assign
