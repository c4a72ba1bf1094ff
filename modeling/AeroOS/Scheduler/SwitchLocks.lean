import AeroOS.Scheduler.Effects

/-!
# A context switch and its locks

`do_context_switch` takes three locks, one of them up to three times, by
`try_lock`, and returns when one is busy.  `switchWith` is the function for
every outcome of each `try_lock`; `doContextSwitch` is the case in which the
outcomes are those of locks that are held or free all the time.

* `markSwitch_processes`, `markSwitch_state`: the update of the table.
* `allOrNothing_iff`: when a call is all or nothing.
-/

namespace AeroOS.Scheduler

open AeroOS.Cells
open AeroOS.Proc

/-- Which `try_lock` of `do_context_switch` succeeds. -/
structure Outcomes where
  /-- `KERNEL_STACKS`. -/
  kernelStacks : Bool
  /-- `PROCESS_TABLE`, to demote a process without a context. -/
  demote : Bool
  /-- `PROCESS_TABLE`, to update the states. -/
  update : Bool
  /-- `SCHEDULER`, to reset the slice. -/
  sched : Bool
  /-- `PROCESS_TABLE`, to read the address space. -/
  cr3 : Bool

/-- The outcomes when the locks `held` are held by the interrupted code. -/
def Locks.outcomes (held : Locks) : Outcomes where
  kernelStacks := !held.kernelStacks
  demote := !held.table
  update := !held.table
  sched := !held.sched
  cr3 := !held.table

namespace Kernel

/-- `do_context_switch`, with an outcome for each `try_lock`. -/
def switchWith (o : Outcomes) (rsp old new : Nat) (k : Kernel) : Option Switch × Kernel :=
  match k.table.slotOf new with
  | none => (none, k)
  | some newSlot =>
    if !o.kernelStacks then (none, k)
    else if !(k.kernelStacks newSlot).initialised then
      if !o.demote then (none, k)
      else (none, { k with table := k.table.modify new demote })
    else if !o.update then (none, k)
    else
      let table := markSwitch k.table old new
      if !o.sched then (none, { k with table := table })
      else if !o.cr3 then
        (none, { k with table := table, sched := resetSlice k.sched, rsp0 := some newSlot })
      else
        let newCr3 := ((table.get new).map (·.cr3)).getD 0
        (some ⟨(k.kernelStacks newSlot).savedRsp, newCr3⟩,
          { table := table, kernelStacks := k.saveContext old rsp, sched := resetSlice k.sched,
            rsp0 := some newSlot })

variable {k : Kernel} {o : Outcomes} {rsp old new : Nat}

/-- With locks that are held or free all the time this is `do_context_switch`. -/
theorem doContextSwitch_eq (held : Locks) :
    k.doContextSwitch held rsp old new = k.switchWith held.outcomes rsp old new := by
  unfold doContextSwitch switchWith
  cases k.table.slotOf new with
  | none => rfl
  | some i =>
    obtain ⟨table, kernelStacks, sched⟩ := held
    simp only [Locks.outcomes]
    cases kernelStacks <;> cases table <;> cases sched <;>
      cases (k.kernelStacks i).initialised <;> rfl

/-! ## The update of the table -/

/-- The slots after the update. -/
theorem markSwitch_processes (t : ProcessTable) (old new : Nat) (j : Fin MAX_PROCESSES) :
    (markSwitch t old new).processes j =
      let p := if old ≠ 0 ∧ t.slotOf old = some j then leave (t.processes j) else t.processes j
      if t.slotOf new = some j then run p else p := by
  have hold : (if old = 0 then t else t.modify old leave).processes j =
      if old ≠ 0 ∧ t.slotOf old = some j then leave (t.processes j) else t.processes j := by
    by_cases h0 : old = 0
    · simp [h0]
    · simp [h0, ProcessTable.modify_processes]
  have hslot : (if old = 0 then t else t.modify old leave).slotOf new = t.slotOf new := by
    split
    · rfl
    · exact ProcessTable.slotOf_modify leave_pid new
  show ((if old = 0 then t else t.modify old leave).modify new run).processes j = _
  rw [ProcessTable.modify_processes, hslot, hold]

/-- A slot keeps its state over the update when the new process was running and
the old one was not. -/
theorem markSwitch_state {i : Fin MAX_PROCESSES} (hi : k.table.slotOf new = some i) :
    (∀ j, ((markSwitch k.table old new).processes j).state = (k.table.processes j).state) ↔
      (k.table.processes i).state = .running ∧
        ∀ j, old ≠ 0 → k.table.slotOf old = some j → j ≠ i →
          (k.table.processes j).state ≠ .running := by
  constructor
  · intro h
    refine ⟨?_, fun j h0 hj hne hrun => ?_⟩
    · rw [← h i, markSwitch_processes]
      simp [hi, run]
    · have hj' := h j
      rw [markSwitch_processes, hi] at hj'
      simp [h0, hj, Ne.symm hne, leave, hrun] at hj'
  · rintro ⟨hrun, hold⟩ j
    rw [markSwitch_processes, hi]
    by_cases hji : j = i
    · subst hji
      simp [run, hrun]
    · simp only [Option.some.injEq, Ne.symm hji, if_false]
      split
      · rename_i hj
        rw [leave, if_neg (hold j hj.1 hj.2 hji)]
      · rfl

/-! ## All or nothing -/

/-- The processes after a switch. -/
structure Switched (old new : Nat) (t : ProcessTable) : Prop where
  current : t.currentPid = new
  running : ∃ p, t.get new = some p ∧ p.state = .running
  left : ∀ p, old ≠ 0 → old ≠ new → t.get old = some p → p.state ≠ .running

/-- A ready process without a context is demoted. -/
def Demoted (k k' : Kernel) (new : Nat) (i : Fin MAX_PROCESSES) : Prop :=
  k.table.slotOf new = some i ∧ (k.kernelStacks i).initialised = false ∧
    (k.table.processes i).state = .ready ∧ (k'.table.processes i).state = .blocked

/-- A call that does not switch leaves everything as it was, but for a process
without a context. -/
structure Untouched (k k' : Kernel) (new : Nat) : Prop where
  current : k'.table.currentPid = k.table.currentPid
  slice : k'.sched.currentSlice = k.sched.currentSlice
  contexts : k'.kernelStacks = k.kernelStacks
  states : ∀ i, (k'.table.processes i).state = (k.table.processes i).state ∨ Demoted k k' new i

/-- The call switches, or it does nothing. -/
def AllOrNothing (o : Outcomes) (rsp old new : Nat) (k : Kernel) : Prop :=
  (∃ sw, (k.switchWith o rsp old new).1 = some sw ∧
    Switched old new (k.switchWith o rsp old new).2.table) ∨
  (k.switchWith o rsp old new).1 = none ∧ Untouched k (k.switchWith o rsp old new).2 new

/-- The call gets past the update of the states, and a later `try_lock` fails. -/
structure FailsLate (o : Outcomes) (k : Kernel) (new : Nat) (i : Fin MAX_PROCESSES) : Prop where
  slot : k.table.slotOf new = some i
  locked : o.kernelStacks = true
  context : (k.kernelStacks i).initialised = true
  update : o.update = true
  late : o.sched = false ∨ o.cr3 = false

/-- The update has nothing to do. -/
structure Settled (o : Outcomes) (k : Kernel) (old new : Nat) (i : Fin MAX_PROCESSES) : Prop where
  current : k.table.currentPid = new
  running : (k.table.processes i).state = .running
  left : ∀ j, old ≠ 0 → k.table.slotOf old = some j → j ≠ i →
    (k.table.processes j).state ≠ .running
  slice : o.sched = true → k.sched.currentSlice = k.sched.defaultSlice

theorem Untouched.refl (k : Kernel) (new : Nat) : Untouched k k new :=
  ⟨rfl, rfl, rfl, fun _ => Or.inl rfl⟩

theorem Untouched.demote {i : Fin MAX_PROCESSES} (hi : k.table.slotOf new = some i)
    (hctx : (k.kernelStacks i).initialised = false) :
    Untouched k { k with table := k.table.modify new Kernel.demote } new where
  current := rfl
  slice := rfl
  contexts := rfl
  states := fun j => by
    by_cases hj : k.table.slotOf new = some j
    · obtain rfl := Option.some.inj (hi.symm.trans hj)
      by_cases hr : (k.table.processes i).state = .ready
      · refine Or.inr ⟨hi, hctx, hr, ?_⟩
        simp [ProcessTable.modify_processes, hi, Kernel.demote, hr]
      · left
        simp [ProcessTable.modify_processes, hi, Kernel.demote, hr]
    · left
      simp [ProcessTable.modify_processes, hj]

theorem switched_markSwitch {i : Fin MAX_PROCESSES} (hi : k.table.slotOf new = some i) :
    Switched old new (markSwitch k.table old new) := by
  have hslot : ∀ pid, (markSwitch k.table old new).slotOf pid = k.table.slotOf pid := fun pid =>
    position_congr fun j => by
      rw [markSwitch_processes]
      simp only
      split <;> split <;> simp [run, leave_pid]
  refine ⟨rfl, ⟨_, by rw [ProcessTable.get, hslot, hi]; rfl, ?_⟩, fun p h0 hne hp => ?_⟩
  · rw [markSwitch_processes]
    simp [hi, run]
  · obtain ⟨j, hj, rfl⟩ := ProcessTable.get_eq_some hp
    rw [hslot] at hj
    have hji : i ≠ j := by
      rintro rfl
      exact hne ((ProcessTable.slotOf_pid hj).symm.trans (ProcessTable.slotOf_pid hi))
    rw [markSwitch_processes]
    simp only [h0, hj, hi, Option.some.injEq, hji, ne_eq, not_false_eq_true, and_self, if_true,
      if_false, leave]
    split
    · simp
    · assumption

/-- A call that fails late is all or nothing when the update had nothing to
do. -/
theorem untouched_late_iff {i : Fin MAX_PROCESSES} (hi : k.table.slotOf new = some i)
    (hctx : (k.kernelStacks i).initialised = true) (k' : Kernel)
    (htable : k'.table = markSwitch k.table old new) (hstacks : k'.kernelStacks = k.kernelStacks)
    (hslice : k'.sched.currentSlice =
      if o.sched = true then k.sched.defaultSlice else k.sched.currentSlice) :
    Untouched k k' new ↔ Settled o k old new i := by
  constructor
  · intro h
    have hstates : ∀ j, ((markSwitch k.table old new).processes j).state =
        (k.table.processes j).state := fun j => by
      rcases h.states j with he | ⟨hj, hinit, -⟩
      · rwa [htable] at he
      · obtain rfl := Option.some.inj (hi.symm.trans hj)
        rw [hctx] at hinit
        cases hinit
    obtain ⟨hrun, hleft⟩ := (markSwitch_state hi).1 hstates
    refine ⟨?_, hrun, hleft, fun hs => ?_⟩
    · rw [← h.current, htable]
      rfl
    · rw [← h.slice, hslice, if_pos hs]
  · intro h
    refine ⟨?_, ?_, hstacks, fun j => Or.inl ?_⟩
    · rw [htable, h.current]
      rfl
    · rw [hslice]
      split
      · rename_i hs
        exact (h.slice hs).symm
      · rfl
    · rw [htable]
      exact (markSwitch_state hi).2 ⟨h.running, h.left⟩ j

/-- How a call ends: it returns before the update; it demotes the new process;
it fails late; or it switches. -/
theorem switchWith_cases (o : Outcomes) (k : Kernel) (rsp old new : Nat) :
    ((∀ i, ¬ FailsLate o k new i) ∧ k.switchWith o rsp old new = (none, k)) ∨
    (∃ i, k.table.slotOf new = some i ∧ (k.kernelStacks i).initialised = false ∧
      k.switchWith o rsp old new = (none, { k with table := k.table.modify new demote })) ∨
    (∃ i k', FailsLate o k new i ∧ k.switchWith o rsp old new = (none, k') ∧
      k'.table = markSwitch k.table old new ∧ k'.kernelStacks = k.kernelStacks ∧
      k'.sched.currentSlice =
        if o.sched = true then k.sched.defaultSlice else k.sched.currentSlice) ∨
    ∃ i sw k', k.table.slotOf new = some i ∧ (∀ j, ¬ FailsLate o k new j) ∧
      k.switchWith o rsp old new = (some sw, k') ∧ k'.table = markSwitch k.table old new := by
  cases hslot : k.table.slotOf new with
  | none =>
    exact Or.inl ⟨fun i hf => (nomatch hslot.symm.trans hf.slot),
      by simp [switchWith, hslot]⟩
  | some i =>
    have hctx : ∀ {j}, FailsLate o k new j → (k.kernelStacks i).initialised = true := fun hf => by
      rw [Option.some.inj (hslot.symm.trans hf.slot)]
      exact hf.context
    cases h1 : o.kernelStacks with
    | false =>
      exact Or.inl ⟨fun j hf => Bool.noConfusion (h1.symm.trans hf.locked),
        by simp [switchWith, hslot, h1]⟩
    | true =>
    cases h2 : (k.kernelStacks i).initialised with
    | false =>
      cases h3 : o.demote with
      | false =>
        exact Or.inl ⟨fun j hf => Bool.noConfusion (h2.symm.trans (hctx hf)),
          by simp [switchWith, hslot, h1, h2, h3]⟩
      | true => exact Or.inr (Or.inl ⟨i, rfl, h2, by simp [switchWith, hslot, h1, h2, h3]⟩)
    | true =>
    cases h4 : o.update with
    | false =>
      exact Or.inl ⟨fun j hf => Bool.noConfusion (h4.symm.trans hf.update),
        by simp [switchWith, hslot, h1, h2, h4]⟩
    | true =>
    cases h5 : o.sched with
    | false =>
      refine Or.inr (Or.inr (Or.inl ⟨i, { k with table := markSwitch k.table old new },
        ⟨hslot, h1, h2, h4, Or.inl h5⟩, ?_, rfl, rfl, rfl⟩))
      simp [switchWith, hslot, h1, h2, h4, h5]
    | true =>
    cases h6 : o.cr3 with
    | false =>
      refine Or.inr (Or.inr (Or.inl ⟨i, { k with
        table := markSwitch k.table old new, sched := resetSlice k.sched, rsp0 := some i },
        ⟨hslot, h1, h2, h4, Or.inr h6⟩, ?_, rfl, rfl, rfl⟩))
      simp [switchWith, hslot, h1, h2, h4, h5, h6]
    | true =>
      obtain ⟨sw, k', he, ht⟩ : ∃ sw k', k.switchWith o rsp old new = (some sw, k') ∧
          k'.table = markSwitch k.table old new := by
        simp [switchWith, hslot, h1, h2, h4, h5, h6]
      refine Or.inr (Or.inr (Or.inr ⟨i, sw, k', rfl, fun j hf => ?_, he, ht⟩))
      simpa [h5, h6] using hf.late

/-- A context switch is all or nothing exactly when no `try_lock` fails after
the update of the states, or the update had nothing to do. -/
theorem allOrNothing_iff (o : Outcomes) (k : Kernel) (rsp old new : Nat) :
    AllOrNothing o rsp old new k ↔ ∀ i, FailsLate o k new i → Settled o k old new i := by
  unfold AllOrNothing
  rcases switchWith_cases o k rsp old new with ⟨hf, he⟩ | ⟨i, hi, hctx, he⟩ |
    ⟨i, k', hf, he, ht, hs, hsl⟩ | ⟨i, sw, k', hi, hf, he, ht⟩
  · rw [he]
    exact iff_of_true (Or.inr ⟨rfl, .refl k new⟩) fun i h => absurd h (hf i)
  · rw [he]
    refine iff_of_true (Or.inr ⟨rfl, .demote hi hctx⟩) fun j h => ?_
    obtain rfl := Option.some.inj (hi.symm.trans h.slot)
    exact absurd h.context (by simp [hctx])
  · rw [he]
    have hiff := untouched_late_iff (o := o) hf.slot hf.context k' ht hs hsl
    constructor
    · rintro (⟨sw, hsw, -⟩ | ⟨-, hu⟩) j hj
      · cases hsw
      · obtain rfl := Option.some.inj (hf.slot.symm.trans hj.slot)
        exact hiff.1 hu
    · exact fun h => Or.inr ⟨rfl, hiff.2 (h i hf)⟩
  · rw [he]
    exact iff_of_true (Or.inl ⟨sw, rfl, ht ▸ switched_markSwitch hi⟩) fun j h => absurd h (hf j)

/-- Process 1 is running and process 2 is ready. -/
def twoProcesses : Kernel where
  table := {
    processes := fun i =>
      if i = 0 then { ProcessTable.fresh 1 0 [] with state := .running }
      else if i = 1 then { ProcessTable.fresh 2 0 [] with state := .ready }
      else .empty
    nextPid := 3
    currentPid := 1 }
  kernelStacks _ := ⟨0, true⟩
  sched := ⟨5, 5, true⟩
  rsp0 := none

/-- The scheduler lock is busy when the slice is to be reset. -/
theorem not_allOrNothing_sched : ¬ AllOrNothing ⟨true, true, true, false, true⟩ 0 1 2 twoProcesses := by
  rintro (⟨sw, hsw, -⟩ | ⟨-, h⟩)
  · cases hsw
  · exact absurd h.current (by decide)

end Kernel

end AeroOS.Scheduler
