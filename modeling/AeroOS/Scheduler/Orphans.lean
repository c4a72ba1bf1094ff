import AeroOS.Scheduler.SingleRunning

/-!
# Processes without a parent

`ParentsPresent` says that every process whose parent is not the kernel has its
parent in the table.  Only the removal of a slot can break it: nothing gives the
children of a process that is freed to another parent.
-/

namespace AeroOS.Scheduler

open AeroOS.Cells
open AeroOS.Proc
open AeroOS.Run

/-- Every parent other than the kernel is in the table. -/
def ParentsPresent (t : ProcessTable) : Prop :=
  ∀ i, (t.processes i).pid ≠ 0 → (t.processes i).parentPid ≠ 0 →
    ∃ j, (t.processes j).pid = (t.processes i).parentPid

/-- Every slot keeps its pid and its parent. -/
def SameFamily (t t' : ProcessTable) : Prop :=
  ∀ i, (t'.processes i).pid = (t.processes i).pid ∧
    (t'.processes i).parentPid = (t.processes i).parentPid

namespace SameFamily

variable {t t' t'' : ProcessTable}

theorem trans (h : SameFamily t t') (h' : SameFamily t' t'') : SameFamily t t'' := fun i =>
  ⟨(h' i).1.trans (h i).1, (h' i).2.trans (h i).2⟩

theorem of_keptAll (h : KeptAll t t') : SameFamily t t' := fun i => ⟨(h.2 i).pid, (h.2 i).parentPid⟩

theorem modify {f : Process → Process} (t : ProcessTable) (pid : Nat)
    (hp : ∀ p, (f p).pid = p.pid) (hpp : ∀ p, (f p).parentPid = p.parentPid) :
    SameFamily t (t.modify pid f) := by
  intro i
  rw [ProcessTable.modify_processes]
  split
  · exact ⟨hp _, hpp _⟩
  · exact ⟨rfl, rfl⟩

theorem markExit (t : ProcessTable) (pid : Nat) (code : Int) :
    SameFamily t (t.markExit pid code).2 := by
  rcases t.markExit_cases pid code with h | h <;> rw [h]
  · exact of_keptAll (KeptAll.refl t)
  · exact modify t pid (fun _ => rfl) (fun _ => rfl)

theorem parentsPresent (h : SameFamily t t') (hp : ParentsPresent t) : ParentsPresent t' := by
  intro i hi hpi
  rw [(h i).1] at hi
  rw [(h i).2] at hpi ⊢
  obtain ⟨j, hj⟩ := hp i hi hpi
  exact ⟨j, (h j).1.trans hj⟩

end SameFamily

/-- A slot that is filled with a child of a process in the table. -/
theorem ParentsPresent.fill {t : ProcessTable} (h : ParentsPresent t) {i : Fin MAX_PROCESSES}
    (hi : (t.processes i).pid = 0) (parent : Nat) (name : List UInt8)
    (hparent : parent ≠ 0 → ∃ j, (t.processes j).pid = parent) :
    ParentsPresent (t.fill i parent name) := by
  -- a parent other than 0 is not in slot `i`, which was empty
  have hkeep : ∀ q, q ≠ 0 → (∃ j, (t.processes j).pid = q) →
      ∃ j, ((t.fill i parent name).processes j).pid = q := by
    rintro q hq ⟨j, hj⟩
    have hji : j ≠ i := by
      rintro rfl
      exact hq (hj.symm.trans hi)
    exact ⟨j, by rw [t.fill_ne hji, hj]⟩
  intro a ha hpa
  by_cases hai : a = i
  · subst hai
    rw [ProcessTable.fill_self, ProcessTable.fresh_parentPid] at hpa ⊢
    exact hkeep parent hpa (hparent hpa)
  · rw [t.fill_ne hai] at ha hpa ⊢
    exact hkeep _ hpa (h a ha hpa)

/-- A slot that is freed, when no process names its pid as parent. -/
theorem ParentsPresent.free {t t' : ProcessTable} (h : ParentsPresent t) {pid c : Nat}
    (hfree : t.free pid = some (c, t'))
    (hno : ∀ j, (t.processes j).pid ≠ 0 → (t.processes j).parentPid ≠ pid) :
    ParentsPresent t' := by
  simp only [ProcessTable.free, Option.map_eq_some_iff, Prod.mk.injEq] at hfree
  obtain ⟨i, hi, -, rfl⟩ := hfree
  have hpid := ProcessTable.slotOf_pid hi
  intro a ha hpa
  by_cases hai : a = i
  · subst hai
    simp [ProcessTable.setSlot, Process.empty] at ha
  · simp only [ProcessTable.setSlot, Function.update_of_ne hai] at ha hpa ⊢
    obtain ⟨j, hj⟩ := h a ha hpa
    have hji : j ≠ i := by
      rintro rfl
      exact hno a ha (hj.symm.trans hpid)
    exact ⟨j, by rw [Function.update_of_ne hji, hj]⟩

namespace Kernel

variable {k : Kernel} {T : Fin MAX_PROCESSES → Nat}

/-- What user processes and the timer do to the table: every action but the
bare table operations and the out-of-memory handler. -/
def familyAction : Action → Bool
  | .alloc .. | .free .. | .markExit .. | .reapZombies | .handleOom => false
  | _ => true

/-- A child that `waitpid` frees has no children in the table. -/
def ReapsLeaf (k : Kernel) : Action → Prop
  | .waitpid pid _ => ∀ i, waitChild k.table pid = some i → (k.table.processes i).state = .zombie →
      ∀ j, (k.table.processes j).pid ≠ 0 →
        (k.table.processes j).parentPid ≠ (k.table.processes i).pid
  | _ => True

theorem spawnUserProcess_parentsPresent (h : ParentsPresent k.table) {name : List UInt8}
    {entry stackTop cr3 : Nat} :
    ParentsPresent (k.spawnUserProcess T name entry stackTop cr3).2.table := by
  unfold spawnUserProcess
  rcases k.table.alloc_cases 0 name with ⟨-, he⟩ | ⟨i, hi, he⟩
  · simp only [he]
    exact h
  · have hfill := h.fill (ProcessTable.slotOf_pid hi) 0 name (fun h0 => absurd rfl h0)
    simp only [he]
    split
    · exact hfill
    · exact SameFamily.parentsPresent (SameFamily.modify _ k.table.nextPid (fun _ => by rfl)
        (fun _ => by rfl)) hfill

theorem forkProcess_parentsPresent (h : ParentsPresent k.table) {childCr3 : Option Nat}
    {userRsp : Nat} : ParentsPresent (k.forkProcess childCr3 userRsp).2.table := by
  rcases k.forkProcess_cases childCr3 userRsp with ⟨e, he⟩ |
    ⟨parent, c, i, -, hp, -, -, hi, hcase⟩
  · rw [he]
    exact h
  · obtain ⟨j, hj, -⟩ := ProcessTable.get_eq_some hp
    have hfill := h.fill (ProcessTable.slotOf_pid hi) _ forkName
      (fun _ => ⟨j, ProcessTable.slotOf_pid hj⟩)
    rcases hcase with ⟨-, he⟩ | ⟨-, he⟩
    · rw [he]
      exact hfill
    · rw [he]
      exact SameFamily.parentsPresent (SameFamily.modify _ _ (fun _ => by rfl)
        (fun _ => by rfl)) hfill

/-- The step lemma. -/
theorem exec_parentsPresent {a : Action} (h : ParentsPresent k.table)
    (ha : familyAction a = true) (hleaf : k.ReapsLeaf a) :
    ParentsPresent (k.exec T a).table := by
  have hexit : ∀ status rsp, SameFamily k.table (k.sysExit status rsp).2.table := fun status rsp =>
    (SameFamily.markExit k.table _ status).trans (SameFamily.of_keptAll switchToNext_table.keptAll)
  cases a with
  | alloc | free | markExit | reapZombies | handleOom => simp [familyAction] at ha
  | sendSignal pid signum =>
    exact (SameFamily.of_keptAll (ProcessTable.sendSignal_keptAll signum)).parentsPresent h
  | deliverPending =>
    exact (SameFamily.of_keptAll k.table.deliverPendingInto_keptAll).parentsPresent h
  | spawn => exact spawnUserProcess_parentsPresent h
  | fork => exact forkProcess_parentsPresent h
  | buildChildStack slot => exact h
  | execReplace entry userRsp cr3 name =>
    exact SameFamily.parentsPresent (SameFamily.modify k.table k.table.currentPid
      (fun _ => by rfl) (fun _ => by rfl)) h
  | restartCurrent rsp => exact (SameFamily.of_keptAll restartCurrent_keptAll).parentsPresent h
  | exit status rsp => exact (hexit status rsp).parentsPresent h
  | pageFault rsp => exact (hexit 139 rsp).parentsPresent h
  | kill pid signum =>
    exact (SameFamily.of_keptAll (ProcessTable.sysKill_keptAll signum)).parentsPresent h
  | waitpid pid rsp =>
    rcases k.sysWaitpid_table pid rsp with ⟨i, c, t, hi, hz, hfree, -, ht⟩ | ⟨-, hp⟩
    · simp only [exec, ht]
      exact h.free hfree (hleaf i hi hz)
    · exact (SameFamily.of_keptAll hp.keptAll).parentsPresent h
  | yieldNow rsp => exact (SameFamily.of_keptAll yieldNow_table.keptAll).parentsPresent h
  | schedule held rsp => exact (SameFamily.of_keptAll schedule_table.keptAll).parentsPresent h
  | switchToNext held rsp =>
    exact (SameFamily.of_keptAll switchToNext_table.keptAll).parentsPresent h
  | tick held rsp => exact (SameFamily.of_keptAll onTimerTick_keptAll).parentsPresent h
  | startScheduler => exact h

/-- In every run in which `waitpid` frees no process that still has children,
every process has its parent in the table. -/
theorem parentsPresent_of_run
    (hrun : Reaches (Step T) (fun k a => familyAction a = true ∧ k.ReapsLeaf a) boot k) :
    ∀ i, (k.table.processes i).pid ≠ 0 → (k.table.processes i).parentPid ≠ 0 →
      ∃ j, (k.table.processes j).pid = (k.table.processes i).parentPid := by
  refine Reaches.invariant (I := fun k => ParentsPresent k.table) ?_ hrun ?_
  · rintro k a k' h ⟨ha, hleaf⟩ rfl
    exact exec_parentsPresent h ha hleaf
  · exact fun i hi => absurd rfl hi

/-- A fork: the child's parent is in the table. -/
theorem parentsPresent_of_run_fork :
    let k := ((boot.exec exampleTops (.spawn [] 0x400000 USER_STACK_TOP 0x1000)).exec exampleTops
      (.switchToNext .none 0)).exec exampleTops (.fork (some 0x2000) USER_STACK_TOP)
    (k.table.processes 1).pid = 2 ∧ (k.table.processes 1).parentPid = 1 ∧
      ∃ j, (k.table.processes j).pid = (k.table.processes 1).parentPid := by
  refine ⟨by decide, by decide, parentsPresent_of_run (T := exampleTops) ?_ 1 (by decide)
    (by decide)⟩
  exact Reaches.foldl (l := [Action.spawn [] 0x400000 USER_STACK_TOP 0x1000, .switchToNext .none 0,
    .fork (some 0x2000) USER_STACK_TOP]) ⟨⟨rfl, trivial⟩, ⟨rfl, trivial⟩, ⟨rfl, trivial⟩, trivial⟩

/-- Process 1 forks process 2, which forks process 3 and exits; process 1 waits
for process 2. -/
def orphanRun : List Action :=
  [.spawn [] 0x400000 USER_STACK_TOP 0x1000, .switchToNext .none 0,
    .fork (some 0x2000) USER_STACK_TOP, .buildChildStack 1, .schedule .none 0,
    .fork (some 0x3000) USER_STACK_TOP, .buildChildStack 2, .exit 0 0, .schedule .none 0,
    .waitpid 2 0]

/-- Process 3 is left with a parent that is not in the table. -/
theorem not_parentsPresent_orphan :
    ∃ k, Reaches (Step exampleTops) (fun _ a => familyAction a = true) boot k ∧
      (k.table.processes 2).pid = 3 ∧ (k.table.processes 2).state = .ready ∧
      (k.table.processes 2).parentPid = 2 ∧ ∀ j, (k.table.processes j).pid ≠ 2 := by
  refine ⟨orphanRun.foldl (exec exampleTops) boot, Reaches.foldl ?_, by decide, by decide,
    by decide, by decide⟩
  exact ⟨rfl, rfl, rfl, rfl, rfl, rfl, rfl, rfl, rfl, rfl, trivial⟩

end Kernel

end AeroOS.Scheduler
