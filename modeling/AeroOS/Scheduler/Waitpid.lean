import AeroOS.Proc.Lifecycle
import AeroOS.Scheduler.Calls

/-!
# Waiting for any child

`sys_waitpid` looks at one child in a round: the first in slot order that its
argument admits.  With `-1` this is the first child, in whatever state it is.

* `waitChild_eq_some`: the child of a round.
* `reapsZombie_iff`: when a call with a dead child reaps one at once.
-/

namespace AeroOS.Scheduler

open AeroOS.Cells
open AeroOS.Proc

/-- The slot holds a child of the current process. -/
def IsChild (t : ProcessTable) (i : Fin MAX_PROCESSES) : Prop :=
  (t.processes i).pid ≠ 0 ∧ (t.processes i).parentPid = t.currentPid

instance (t : ProcessTable) (i : Fin MAX_PROCESSES) : Decidable (IsChild t i) :=
  inferInstanceAs (Decidable (_ ∧ _))

namespace Kernel

variable {k : Kernel} {i : Fin MAX_PROCESSES}

theorem waitChild_eq_some (t : ProcessTable) :
    waitChild t ANY_CHILD = some i ↔ IsChild t i ∧ ∀ j < i, ¬ IsChild t j := by
  rw [waitChild, position_eq_some_iff]
  simp [IsChild]

/-- `sys_waitpid(-1)` returns at once with a dead child: it gives the pid and
the exit code of a child that is a zombie, and empties the slot of that child
and no other. -/
def ReapsZombie (k : Kernel) (rsp : Nat) : Prop :=
  ∃ i, IsChild k.table i ∧ (k.table.processes i).state = .zombie ∧
    k.sysWaitpid ANY_CHILD rsp =
      (.reaped (k.table.processes i).pid (k.table.processes i).exitCode,
        { k with table := k.table.setSlot i .empty })

/-- A call with a dead child reaps one at once exactly when the first child in
slot order is dead, and no slot before it has the same pid. -/
theorem reapsZombie_iff (k : Kernel) (rsp : Nat) :
    ReapsZombie k rsp ↔ ∃ i, IsChild k.table i ∧ (k.table.processes i).state = .zombie ∧
      (∀ j < i, ¬ IsChild k.table j) ∧
      ∀ j < i, (k.table.processes j).pid ≠ (k.table.processes i).pid := by
  have hslot : ∀ i, k.table.slotOf (k.table.processes i).pid = some i ↔
      ∀ j < i, (k.table.processes j).pid ≠ (k.table.processes i).pid := fun i => by
    simp [ProcessTable.slotOf, position_eq_some_iff]
  constructor
  · rintro ⟨i, hi, hz, he⟩
    refine ⟨i, hi, hz, ?_⟩
    cases hw : waitChild k.table ANY_CHILD with
    | none => simp [sysWaitpid, hw] at he
    | some i' =>
      obtain ⟨hi', hfirst⟩ := (waitChild_eq_some k.table).1 hw
      simp only [sysWaitpid, hw] at he
      split at he
      · obtain ⟨j, hj⟩ : ∃ j, k.table.slotOf (k.table.processes i').pid = some j :=
          position_isSome (i := i') (by simp)
        simp only [ProcessTable.free, hj, Option.map_some, Prod.mk.injEq, WaitResult.reaped.injEq,
          Kernel.mk.injEq, and_true] at he
        obtain ⟨⟨hpid, -⟩, htable⟩ := he
        -- the slot that is emptied is the one that was found
        have hji : j = i := by
          by_contra hne
          have hcell := congrArg (fun t => (t.processes i).pid) htable
          simp only [ProcessTable.setSlot, Function.update_of_ne (Ne.symm hne),
            Function.update_self] at hcell
          exact hi.1 hcell
        subst hji
        rw [hpid] at hj
        have hle : j ≤ i' := not_lt.1 fun hlt => (hslot j).1 hj i' hlt hpid
        have hge : i' ≤ j := not_lt.1 fun hlt => hfirst j hlt hi
        obtain rfl := le_antisymm hle hge
        exact ⟨hfirst, (hslot _).1 hj⟩
      · cases he
  · rintro ⟨i, hi, hz, hfirst, hpid⟩
    refine ⟨i, hi, hz, ?_⟩
    have hw := (waitChild_eq_some k.table).2 ⟨hi, hfirst⟩
    simp only [sysWaitpid, hw, hz, if_true, ProcessTable.free, (hslot i).2 hpid, Option.map_some]

/-- The kernel at a call of process 1 that has a running child in slot 1 and a
dead one in slot 2. -/
def runningFirst : Kernel where
  table := {
    processes := fun i =>
      if i = 0 then { ProcessTable.fresh 1 0 [] with state := .running }
      else if i = 1 then { ProcessTable.fresh 2 1 [] with state := .ready }
      else if i = 2 then { ProcessTable.fresh 3 1 [] with state := .zombie }
      else .empty
    nextPid := 4
    currentPid := 1 }
  kernelStacks _ := ⟨0, true⟩
  sched := ⟨5, 5, true⟩
  rsp0 := none

/-- The child in slot 1 is waited for, and the dead one is left. -/
theorem not_reapsZombie_running_first : IsChild runningFirst.table 2 ∧
    (runningFirst.table.processes 2).state = .zombie ∧ ¬ ReapsZombie runningFirst 0 := by
  have hres : (runningFirst.sysWaitpid ANY_CHILD 0).1 = .waiting := rfl
  refine ⟨by decide, by decide, fun ⟨i, _, _, he⟩ => ?_⟩
  rw [he] at hres
  cases hres

end Kernel

end AeroOS.Scheduler
