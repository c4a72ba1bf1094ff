import AeroOS.Proc.Lifecycle
import AeroOS.Scheduler.System

/-!
# What the scheduler and the calls do to the table

* `Resched t old new t'`: the outcomes of `do_context_switch`.
* `Picked t t'`: the outcomes of `schedule` and `switch_to_next`; the process
  that is picked was ready.
* `exec_survives` and `exec_life`: what one action does to the slots.  Only
  `alloc`, `spawn` and `fork` fill a slot.
-/

namespace AeroOS.Scheduler

open AeroOS.Cells
open AeroOS.Proc

/-- The outcomes of `do_context_switch` for the table. -/
inductive Resched (t : ProcessTable) (old new : Nat) : ProcessTable → Prop where
  /-- A lock is held, or the new process does not exist. -/
  | idle : Resched t old new t
  /-- The new process has no context yet. -/
  | demoted : Resched t old new (t.modify new Kernel.demote)
  /-- The new process is marked as running. -/
  | switched (i : Fin MAX_PROCESSES) (slot : t.slotOf new = some i) :
      Resched t old new (Kernel.markSwitch t old new)

/-- The outcomes of a scheduling decision for the table. -/
inductive Picked (t : ProcessTable) : ProcessTable → Prop where
  | idle : Picked t t
  | picked {t' : ProcessTable} (j : Fin MAX_PROCESSES) (pid : (t.processes j).pid ≠ 0)
      (ready : (t.processes j).state = .ready)
      (resched : Resched t t.currentPid (t.processes j).pid t') : Picked t t'

namespace Kernel

variable {k : Kernel} {held : Locks} {rsp old new : Nat}

/-- The outcomes of `do_context_switch`: nothing; a new process without a
context is demoted; or the new process is marked, and the switch is completed
unless the scheduler lock is held. -/
theorem doContextSwitch_cases (k : Kernel) (held : Locks) (rsp old new : Nat) :
    k.doContextSwitch held rsp old new = (none, k) ∨
      ∃ i, k.table.slotOf new = some i ∧ held.kernelStacks = false ∧
        ((k.kernelStacks i).initialised = false ∧
            k.doContextSwitch held rsp old new =
              (none, { k with table := k.table.modify new demote }) ∨
          (k.kernelStacks i).initialised = true ∧
            (held.sched = true ∧ k.doContextSwitch held rsp old new =
                (none, { k with table := markSwitch k.table old new }) ∨
              ∃ newCr3, k.doContextSwitch held rsp old new =
                (some ⟨(k.kernelStacks i).savedRsp, newCr3⟩,
                  { table := markSwitch k.table old new, kernelStacks := k.saveContext old rsp,
                    sched := resetSlice k.sched, rsp0 := some i }))) := by
  unfold doContextSwitch
  cases hi : k.table.slotOf new with
  | none => exact Or.inl rfl
  | some i =>
    simp only
    split_ifs with h1 h2 h3 h4 h5
    · exact Or.inl rfl
    · exact Or.inl rfl
    · exact Or.inr ⟨i, rfl, by simpa using h1, Or.inl ⟨by simpa using h2, rfl⟩⟩
    · exact Or.inl rfl
    · exact Or.inr ⟨i, rfl, by simpa using h1, Or.inr ⟨by simpa using h2, Or.inl ⟨h5, rfl⟩⟩⟩
    · exact Or.inr ⟨i, rfl, by simpa using h1, Or.inr ⟨by simpa using h2, Or.inr ⟨_, rfl⟩⟩⟩

theorem doContextSwitch_table :
    Resched k.table old new (k.doContextSwitch held rsp old new).2.table := by
  rcases k.doContextSwitch_cases held rsp old new with h |
    ⟨i, hi, -, ⟨-, h⟩ | ⟨-, ⟨-, h⟩ | ⟨newCr3, h⟩⟩⟩
  · rw [h]
    exact .idle
  · rw [h]
    exact .demoted
  · rw [h]
    exact .switched i hi
  · rw [h]
    exact .switched i hi

/-- A context switch that is completed marks the new process. -/
theorem doContextSwitch_switched {sw : Switch} {k' : Kernel}
    (h : k.doContextSwitch held rsp old new = (some sw, k')) :
    ∃ i, k.table.slotOf new = some i ∧ (k.kernelStacks i).initialised = true ∧
      sw.newRsp = (k.kernelStacks i).savedRsp ∧ k'.table = markSwitch k.table old new := by
  rcases k.doContextSwitch_cases held rsp old new with he |
    ⟨i, hi, -, ⟨-, he⟩ | ⟨hinit, ⟨-, he⟩ | ⟨newCr3, he⟩⟩⟩
  · simp [he] at h
  · simp [he] at h
  · simp [he] at h
  · rw [he, Prod.mk.injEq, Option.some.injEq] at h
    obtain ⟨rfl, rfl⟩ := h
    exact ⟨i, hi, hinit, rfl, rfl⟩

/-- The context that is left is saved in the old process's slot only. -/
theorem saveContext_of_ne {i : Fin MAX_PROCESSES} (h : k.table.slotOf old ≠ some i) :
    k.saveContext old rsp i = k.kernelStacks i := by
  unfold saveContext
  generalize hs : (if old = 0 then none else k.table.slotOf old) = o
  cases o with
  | none => rfl
  | some s =>
    have hne : i ≠ s := by
      rintro rfl
      split_ifs at hs
      exact h hs
    exact Function.update_of_ne hne _ _

theorem saveContext_initialised (i : Fin MAX_PROCESSES) :
    (k.saveContext old rsp i).initialised = (k.kernelStacks i).initialised := by
  unfold saveContext
  cases (if old = 0 then none else k.table.slotOf old) with
  | none => rfl
  | some s =>
    by_cases hi : i = s
    · subst hi
      simp
    · simp [Function.update_of_ne hi]

/-- `find_next_ready` answers with the pid of a ready process. -/
theorem findNextReady_some {after next : Nat} (h : k.findNextReady after = some next) :
    ∃ j, (k.table.processes j).pid = next ∧ (k.table.processes j).pid ≠ 0 ∧
      (k.table.processes j).state = .ready := by
  simp only [findNextReady, Option.map_eq_some_iff] at h
  obtain ⟨j, hj, hpid⟩ := h
  have hsat := scanAfter_sat hj
  simp only [ne_eq, decide_eq_true_eq] at hsat
  exact ⟨j, hpid, hsat.1, hsat.2⟩

/-- The outcomes of `schedule`: no process is picked, or another ready process
is switched to. -/
theorem schedule_cases (k : Kernel) (held : Locks) (rsp : Nat) :
    (∃ sched, k.schedule held rsp = (none, { k with sched := sched })) ∨
      ∃ j, (k.table.processes j).pid ≠ 0 ∧ (k.table.processes j).state = .ready ∧
        (k.table.processes j).pid ≠ k.table.currentPid ∧
        k.schedule held rsp =
          k.doContextSwitch held rsp k.table.currentPid (k.table.processes j).pid := by
  unfold schedule
  split
  · exact Or.inl ⟨k.sched, rfl⟩
  · cases h : k.findNextReady k.table.currentPid with
    | none => exact Or.inl ⟨k.sched, rfl⟩
    | some next =>
      obtain ⟨j, rfl, hpid, hready⟩ := findNextReady_some h
      by_cases hcur : (k.table.processes j).pid = k.table.currentPid
      · exact Or.inl ⟨_, if_pos hcur⟩
      · exact Or.inr ⟨j, hpid, hready, hcur, if_neg hcur⟩

theorem schedule_table : Picked k.table (k.schedule held rsp).2.table := by
  rcases k.schedule_cases held rsp with ⟨sched, h⟩ | ⟨j, hpid, hready, -, h⟩
  · rw [h]
    exact .idle
  · rw [h]
    exact .picked j hpid hready doContextSwitch_table

theorem switchToNext_table : Picked k.table (k.switchToNext held rsp).2.table := by
  unfold switchToNext
  split
  · exact .idle
  · cases h : k.findNextReady k.table.currentPid with
    | none => exact .idle
    | some next =>
      simp only
      split
      · exact .idle
      · obtain ⟨j, rfl, hpid, hready⟩ := findNextReady_some h
        exact .picked j hpid hready doContextSwitch_table

theorem yieldNow_table : Picked k.table (k.yieldNow rsp).2.table := by
  unfold yieldNow
  split
  · exact .idle
  · exact schedule_table

/-- A tick counts down, delivers the pending signals or not, and then may
schedule. -/
theorem onTimerTick_cases (k : Kernel) (held : Locks) (rsp : Nat) :
    ∃ t sched, (t = k.table ∨ k.delivers held ∧ t = k.table.deliverPendingInto) ∧
      (k.onTimerTick held rsp = (none, { k with table := t, sched := sched }) ∨
        k.schedules held ∧
          k.onTimerTick held rsp = schedule held rsp { k with table := t, sched := sched }) := by
  unfold onTimerTick
  by_cases hsched : held.sched = true
  · rw [if_pos hsched]
    exact ⟨_, _, Or.inl rfl, Or.inl rfl⟩
  · rw [if_neg hsched]
    have hsched' : held.sched = false := by simpa using hsched
    by_cases hact : k.sched.active = true
    · simp only [hact, Bool.not_true, Bool.false_eq_true, if_false]
      by_cases hslice : (tickSlice k.sched).currentSlice = 0
      · rw [if_pos hslice]
        exact ⟨_, _, Or.inl rfl, Or.inr ⟨⟨hsched', hact, Or.inl hslice⟩, rfl⟩⟩
      · rw [if_neg hslice]
        by_cases htable : held.table = true
        · rw [if_pos htable]
          exact ⟨_, _, Or.inl rfl, Or.inl rfl⟩
        · rw [if_neg htable]
          have htable' : held.table = false := by simpa using htable
          by_cases hcur : k.table.currentPid = 0
          · rw [if_pos hcur]
            exact ⟨_, _, Or.inl rfl, Or.inl rfl⟩
          · rw [if_neg hcur]
            refine ⟨k.table.deliverPendingInto, tickSlice k.sched,
              Or.inr ⟨⟨hsched', hact, hslice, htable'⟩, rfl⟩, ?_⟩
            have hcur' := k.table.deliverPendingInto_currentPid
            cases hg : k.table.deliverPendingInto.get k.table.currentPid with
            | none =>
              simp only [hcur', hg]
              exact Or.inl trivial
            | some p =>
              simp only [hcur', hg]
              by_cases hz : p.state = .zombie
              · rw [if_pos hz]
                exact Or.inr ⟨⟨hsched', hact, Or.inr ⟨htable', hcur, p, hg, hz⟩⟩, rfl⟩
              · rw [if_neg hz]
                exact Or.inl rfl
    · simp only [hact, Bool.not_false, if_true]
      exact ⟨_, _, Or.inl rfl, Or.inl rfl⟩

theorem onTimerTick_table (k : Kernel) (held : Locks) (rsp : Nat) :
    ∃ t, (t = k.table ∨ k.delivers held ∧ t = k.table.deliverPendingInto) ∧
      Picked t (k.onTimerTick held rsp).2.table := by
  obtain ⟨t, sched, ht, h | ⟨-, h⟩⟩ := k.onTimerTick_cases held rsp
  · rw [h]
    exact ⟨t, ht, .idle⟩
  · rw [h]
    exact ⟨t, ht, schedule_table (k := { k with table := t, sched := sched })⟩

theorem restartCurrent_table (k : Kernel) (rsp : Nat) :
    (k.restartCurrent rsp).2.table = k.table ∨ k.table.currentPid ≠ 0 ∧
      Resched k.table k.table.currentPid k.table.currentPid (k.restartCurrent rsp).2.table := by
  unfold restartCurrent
  split
  · exact Or.inl rfl
  · rename_i h
    exact Or.inr ⟨h, doContextSwitch_table⟩

/-! ## The slots are kept -/

theorem demote_keptAll {t : ProcessTable} {pid : Nat} (hpid : pid ≠ 0) :
    KeptAll t (t.modify pid demote) := by
  refine ProcessTable.modify_keptAll hpid ?_ ?_ ?_
  · intro p
    unfold demote
    split <;> rfl
  · intro p
    unfold demote
    split <;> rfl
  · intro p
    unfold demote
    split
    · exact Or.inr (by simp)
    · exact Or.inl rfl

theorem leave_pid (p : Process) : (leave p).pid = p.pid := by
  unfold leave
  split <;> rfl

theorem leave_keptAll {t : ProcessTable} {pid : Nat} (hpid : pid ≠ 0) :
    KeptAll t (t.modify pid leave) := by
  refine ProcessTable.modify_keptAll hpid leave_pid ?_ ?_
  · intro p
    unfold leave
    split <;> rfl
  · intro p
    unfold leave
    split
    · exact Or.inr (by simp)
    · exact Or.inl rfl

theorem run_keptAll {t : ProcessTable} {pid : Nat} (hpid : pid ≠ 0) :
    KeptAll t (t.modify pid run) :=
  ProcessTable.modify_keptAll hpid (fun _ => rfl) (fun _ => rfl) (fun _ => Or.inr (by simp [run]))

theorem markSwitch_keptAll {t : ProcessTable} (hnew : new ≠ 0) :
    KeptAll t (markSwitch t old new) := by
  unfold markSwitch
  split
  · exact (run_keptAll hnew).trans (ProcessTable.setCurrent_keptAll _ _)
  · rename_i hold
    exact ((leave_keptAll hold).trans (run_keptAll hnew)).trans
      (ProcessTable.setCurrent_keptAll _ _)

end Kernel

open Kernel

theorem Resched.keptAll {t t' : ProcessTable} {old new : Nat} (h : Resched t old new t')
    (hnew : new ≠ 0) : KeptAll t t' := by
  cases h with
  | idle => exact KeptAll.refl t
  | demoted => exact demote_keptAll hnew
  | switched i _ => exact markSwitch_keptAll hnew

theorem Picked.keptAll {t t' : ProcessTable} (h : Picked t t') : KeptAll t t' := by
  cases h with
  | idle => exact KeptAll.refl t
  | picked j pid _ resched => exact resched.keptAll pid

/-! ## One action -/

/-- The actions that fill a slot. -/
def Action.allocates : Action → Bool
  | .alloc .. | .spawn .. | .fork .. => true
  | _ => false

/-- The pid that an action frees or marks as exited is not 0. -/
def Action.nonzero (k : Kernel) : Action → Prop
  | .free pid | .markExit pid _ | .sendSignal pid _ => pid ≠ 0
  | .execReplace .. | .exit .. | .pageFault .. => k.table.currentPid ≠ 0
  | _ => True

/-- The parent that an action gives to a new process. -/
def Action.parent (k : Kernel) : Action → Nat
  | .alloc parentPid _ => parentPid
  | .spawn .. => 0
  | _ => k.table.currentPid

namespace Kernel

variable {k : Kernel} {T : Fin MAX_PROCESSES → Nat}

theorem sysExit_keptAll {status : Int} {rsp : Nat} (hcur : k.table.currentPid ≠ 0) :
    KeptAll k.table (k.sysExit status rsp).2.table :=
  (ProcessTable.markExit_keptAll hcur status).trans switchToNext_table.keptAll

theorem execReplace_keptAll {entry userRsp cr3 : Nat} {name : List UInt8}
    (hcur : k.table.currentPid ≠ 0) :
    KeptAll k.table (k.execReplace T entry userRsp cr3 name).table :=
  ProcessTable.modify_keptAll hcur (fun _ => rfl) (fun _ => rfl)
    (fun _ => Or.inr (by simp [execRecord]))

theorem onTimerTick_keptAll {held : Locks} {rsp : Nat} :
    KeptAll k.table (k.onTimerTick held rsp).2.table := by
  obtain ⟨t, ht, hp⟩ := onTimerTick_table k held rsp
  rcases ht with rfl | ⟨-, rfl⟩
  · exact hp.keptAll
  · exact (ProcessTable.deliverPendingInto_keptAll _).trans hp.keptAll

theorem restartCurrent_keptAll {rsp : Nat} :
    KeptAll k.table (k.restartCurrent rsp).2.table := by
  rcases restartCurrent_table k rsp with h | ⟨hcur, h⟩
  · rw [h]
    exact KeptAll.refl _
  · exact h.keptAll hcur

/-- A round of `waitpid` frees the child it returns, or only schedules. -/
theorem sysWaitpid_table (k : Kernel) (pid rsp : Nat) :
    (∃ i c t, waitChild k.table pid = some i ∧ (k.table.processes i).state = .zombie ∧
        k.table.free (k.table.processes i).pid = some (c, t) ∧
        (k.sysWaitpid pid rsp).1 =
          .reaped (k.table.processes i).pid (k.table.processes i).exitCode ∧
        (k.sysWaitpid pid rsp).2.table = t) ∨
      (∀ child code, (k.sysWaitpid pid rsp).1 ≠ .reaped child code) ∧
        Picked k.table (k.sysWaitpid pid rsp).2.table := by
  unfold sysWaitpid
  cases hi : waitChild k.table pid with
  | none =>
    refine Or.inr ⟨fun _ _ h => ?_, .idle⟩
    simp at h
  | some i =>
    simp only
    by_cases hz : (k.table.processes i).state = .zombie
    · left
      obtain ⟨j, hj⟩ := position_isSome (a := k.table.processes) (i := i)
        (p := fun p => p.pid == (k.table.processes i).pid) (by simp)
      refine ⟨i, (k.table.processes j).cr3, k.table.setSlot j .empty, rfl, hz, ?_, ?_, ?_⟩
      · simp [ProcessTable.free, ProcessTable.slotOf, hj]
      · rw [if_pos hz]
      · rw [if_pos hz]
        simp [ProcessTable.free, ProcessTable.slotOf, hj]
    · rw [if_neg hz]
      refine Or.inr ⟨fun _ _ h => ?_, yieldNow_table⟩
      simp at h

theorem sysWaitpid_survives {pid rsp : Nat} :
    Survives k.table (k.sysWaitpid pid rsp).2.table := by
  rcases k.sysWaitpid_table pid rsp with ⟨i, c, t, -, -, hfree, -, ht⟩ | ⟨-, h⟩
  · rw [ht]
    exact ProcessTable.free_survives hfree
  · exact h.keptAll.survives

/-- An action that fills no slot. -/
theorem exec_survives {a : Action} (ha : a.allocates = false) (hnz : a.nonzero k) :
    Survives k.table (k.exec T a).table := by
  cases a with
  | alloc | spawn | fork => simp [Action.allocates] at ha
  | free pid =>
    simp only [exec]
    cases h : k.table.free pid with
    | none => exact (KeptAll.refl _).survives
    | some r => exact ProcessTable.free_survives h
  | markExit pid code => exact (ProcessTable.markExit_keptAll hnz code).survives
  | sendSignal pid signum => exact (ProcessTable.sendSignal_keptAll signum).survives
  | reapZombies => exact k.table.reapZombies_survives
  | handleOom => exact k.table.handleOom_survives
  | deliverPending => exact k.table.deliverPendingInto_keptAll.survives
  | buildChildStack slot => exact (KeptAll.refl _).survives
  | execReplace entry userRsp cr3 name => exact (execReplace_keptAll hnz).survives
  | restartCurrent rsp => exact restartCurrent_keptAll.survives
  | exit status rsp => exact (sysExit_keptAll hnz).survives
  | pageFault rsp => exact (sysExit_keptAll hnz).survives
  | kill pid signum => exact (ProcessTable.sysKill_keptAll signum).survives
  | waitpid pid rsp => exact sysWaitpid_survives
  | yieldNow rsp => exact yieldNow_table.keptAll.survives
  | schedule held rsp => exact schedule_table.keptAll.survives
  | switchToNext held rsp => exact switchToNext_table.keptAll.survives
  | tick held rsp => exact onTimerTick_keptAll.survives
  | startScheduler => exact (KeptAll.refl _).survives

theorem spawnUserProcess_life {name : List UInt8} {entry stackTop cr3 : Nat} :
    Life k.table (k.spawnUserProcess T name entry stackTop cr3).2.table 0 := by
  have hl := k.table.alloc_life 0 name
  unfold spawnUserProcess
  rcases hr : k.table.alloc 0 name with ⟨pid, t⟩
  rw [hr] at hl
  simp only
  split
  · exact hl
  · rename_i hpid
    exact hl.trans_kept (ProcessTable.modify_keptAll hpid (fun _ => rfl) (fun _ => rfl)
      (fun _ => Or.inr (by simp)))

theorem forkProcess_life {childCr3 : Option Nat} {userRsp : Nat} :
    Life k.table (k.forkProcess childCr3 userRsp).2.table k.table.currentPid := by
  have hl := k.table.alloc_life k.table.currentPid forkName
  unfold forkProcess
  simp only
  split
  · exact .survives (KeptAll.refl _).survives
  · cases k.table.get k.table.currentPid with
    | none => exact .survives (KeptAll.refl _).survives
    | some parent =>
      simp only
      split
      · exact .survives (KeptAll.refl _).survives
      · cases childCr3 with
        | none => exact .survives (KeptAll.refl _).survives
        | some c =>
          rcases hr : k.table.alloc k.table.currentPid forkName with ⟨pid, t⟩
          rw [hr] at hl
          simp only
          split
          · exact hl
          · rename_i hpid
            exact hl.trans_kept (ProcessTable.modify_keptAll hpid (fun _ => rfl) (fun _ => rfl)
              (fun _ => Or.inr (by simp [forkRecord])))

/-- Any action. -/
theorem exec_life {a : Action} (hnz : a.nonzero k) :
    Life k.table (k.exec T a).table (a.parent k) := by
  cases ha : a.allocates with
  | false => exact .survives (exec_survives ha hnz)
  | true =>
    cases a with
    | alloc parentPid name => exact k.table.alloc_life parentPid name
    | spawn => exact spawnUserProcess_life
    | fork => exact forkProcess_life
    | _ => simp [Action.allocates] at ha

/-- An action that fills no slot gives no slot a new pid, whatever pid it
names. -/
theorem exec_pidsKept {a : Action} (ha : a.allocates = false) :
    PidsKept k.table (k.exec T a).table := by
  by_cases hnz : a.nonzero k
  · exact (exec_survives ha hnz).pidsKept
  · cases a with
    | free pid =>
      simp only [exec]
      cases h : k.table.free pid with
      | none => exact (KeptAll.refl _).survives.pidsKept
      | some r => exact (ProcessTable.free_survives h).pidsKept
    | sendSignal pid signum => exact (ProcessTable.sendSignal_keptAll signum).survives.pidsKept
    | markExit pid code => exact markExit_pidsKept k.table pid code
    | execReplace => exact modify_pidsKept _ _ fun _ => rfl
    | exit status rsp =>
      exact (markExit_pidsKept k.table _ status).trans
        switchToNext_table.keptAll.survives.pidsKept
    | pageFault rsp =>
      exact (markExit_pidsKept k.table _ 139).trans switchToNext_table.keptAll.survives.pidsKept
    | _ => simp [Action.nonzero] at hnz

/-- The pids in use stay distinct as long as no new pid is in use. -/
theorem exec_distinct {a : Action} (h : Distinct k.table)
    (hnew : a.allocates = true → NextNew k.table) : Distinct (k.exec T a).table := by
  cases ha : a.allocates with
  | false => exact h.pidsKept (exec_pidsKept ha)
  | true =>
    have hnz : a.nonzero k := by
      cases a <;> simp [Action.allocates, Action.nonzero] at ha ⊢
    exact h.life (exec_life hnz) (hnew ha)

end Kernel

end AeroOS.Scheduler
