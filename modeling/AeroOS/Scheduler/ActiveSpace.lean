import AeroOS.Scheduler.PidHistory

/-!
# Which address space is active

The address spaces in the table, and the one that a switch loads.

* `SameSpaces t t'`: no slot has another process or another space; `Edited t t'`
  when the current process is the same as well.
* `Switched k r`: the outcome of a scheduling decision.  Either the current
  process stays, or the space of the new current process is loaded.
* `Filled t t' i parent cr3`: one empty slot has a new process.
-/

namespace AeroOS.Scheduler

open AeroOS.Cells
open AeroOS.Proc

variable {t t' t'' : ProcessTable}

/-- No slot has another process or another space. -/
structure SameSpaces (t t' : ProcessTable) : Prop where
  next : t'.nextPid = t.nextPid
  pid : ∀ i, (t'.processes i).pid = (t.processes i).pid
  parentPid : ∀ i, (t'.processes i).parentPid = (t.processes i).parentPid
  cr3 : ∀ i, (t'.processes i).cr3 = (t.processes i).cr3

/-- Nor is another process the current one. -/
structure Edited (t t' : ProcessTable) : Prop extends SameSpaces t t' where
  current : t'.currentPid = t.currentPid

namespace SameSpaces

theorem refl (t : ProcessTable) : SameSpaces t t := ⟨rfl, fun _ => rfl, fun _ => rfl, fun _ => rfl⟩

theorem trans (h : SameSpaces t t') (h' : SameSpaces t' t'') : SameSpaces t t'' where
  next := h'.next.trans h.next
  pid := fun i => (h'.pid i).trans (h.pid i)
  parentPid := fun i => (h'.parentPid i).trans (h.parentPid i)
  cr3 := fun i => (h'.cr3 i).trans (h.cr3 i)

theorem slotOf (h : SameSpaces t t') (q : Nat) : t'.slotOf q = t.slotOf q :=
  position_congr fun i => by rw [h.pid i]

end SameSpaces

namespace Edited

theorem refl (t : ProcessTable) : Edited t t := ⟨.refl t, rfl⟩

/-- An edit of a record that keeps who the process is, and its space. -/
theorem modify {f : Process → Process} (t : ProcessTable) (pid : Nat)
    (hf : ∀ p, (f p).pid = p.pid ∧ (f p).parentPid = p.parentPid ∧ (f p).cr3 = p.cr3) :
    Edited t (t.modify pid f) where
  next := rfl
  pid := fun i => modifyFirst_keeps (g := Process.pid) (fun p => (hf p).1) _ i
  parentPid := fun i => modifyFirst_keeps (g := Process.parentPid) (fun p => (hf p).2.1) _ i
  cr3 := fun i => modifyFirst_keeps (g := Process.cr3) (fun p => (hf p).2.2) _ i
  current := rfl

theorem markExit (t : ProcessTable) (pid : Nat) (code : Int) : Edited t (t.markExit pid code).2 := by
  rcases t.markExit_cases pid code with h | h <;> rw [h]
  · exact refl t
  · exact modify t pid fun _ => ⟨rfl, rfl, rfl⟩

theorem sendSignal (t : ProcessTable) (pid signum : Nat) : Edited t (t.sendSignal pid signum).2 := by
  rcases t.sendSignal_cases pid signum with h | h <;> rw [h]
  · exact refl t
  · exact modify t pid fun _ => ⟨rfl, rfl, rfl⟩

theorem signal (t : ProcessTable) (pid signum : Nat) : Edited t (t.signal pid signum).2 := by
  rcases t.signal_cases pid signum with h | ⟨-, -, -, h⟩ | h <;> rw [h]
  · exact refl t
  · exact modify t pid fun _ => ⟨rfl, rfl, rfl⟩
  · exact sendSignal t pid signum

theorem sysKill (t : ProcessTable) (pid signum : Nat) : Edited t (t.sysKill pid signum).2 := by
  rcases t.sysKill_cases pid signum with h | ⟨-, h⟩ <;> rw [h]
  · exact refl t
  · exact signal t pid signum

theorem deliverPendingInto (t : ProcessTable) : Edited t t.deliverPendingInto := by
  rcases t.deliverPendingInto_cases with h | ⟨-, h⟩ <;> rw [h]
  · exact refl t
  · refine modify t _ fun p => ?_
    unfold ProcessTable.deliverTo
    split_ifs <;> exact ⟨rfl, rfl, rfl⟩

theorem demote (t : ProcessTable) (pid : Nat) : Edited t (t.modify pid Kernel.demote) :=
  modify t pid fun p => by
    unfold Kernel.demote
    split <;> exact ⟨rfl, rfl, rfl⟩

end Edited

theorem SameSpaces.markSwitch (t : ProcessTable) (old new : Nat) :
    SameSpaces t (Kernel.markSwitch t old new) := by
  have hleave : ∀ p, (Kernel.leave p).pid = p.pid ∧ (Kernel.leave p).parentPid = p.parentPid ∧
      (Kernel.leave p).cr3 = p.cr3 := fun p => by
    unfold Kernel.leave
    split <;> exact ⟨rfl, rfl, rfl⟩
  have hrun : ∀ t : ProcessTable, SameSpaces t (t.modify new Kernel.run) := fun t =>
    (Edited.modify (f := Kernel.run) t new fun _ => ⟨rfl, rfl, rfl⟩).toSameSpaces
  have hmark : SameSpaces t ((if old = 0 then t else t.modify old Kernel.leave).modify new
      Kernel.run) := by
    split
    · exact hrun t
    · exact (Edited.modify t old hleave).toSameSpaces.trans (hrun _)
  exact ⟨hmark.next, hmark.pid, hmark.parentPid, hmark.cr3⟩

/-! ## Switches -/

/-- A scheduling decision: the current process stays, or the space of the new
current process is loaded. -/
structure Switched (k : Kernel) (r : Option Switch × Kernel) : Prop where
  same : SameSpaces k.table r.2.table
  stays : r.1 = none → r.2.table.currentPid = k.table.currentPid
  loads : ∀ s, r.1 = some s → r.2.table.currentPid ≠ 0 ∧
    ∃ i, k.table.slotOf r.2.table.currentPid = some i ∧ s.newCr3 = (k.table.processes i).cr3

theorem Switched.refl (k : Kernel) : Switched k (none, k) :=
  ⟨.refl _, fun _ => rfl, fun _ h => nomatch h⟩

/-- A decision after an edit of the table. -/
theorem Switched.of_edited {k : Kernel} {r : Option Switch × Kernel} (sched : Sched)
    (he : Edited k.table t) (h : Switched { k with table := t, sched := sched } r) :
    Switched k r where
  same := he.toSameSpaces.trans h.same
  stays := fun hr => (h.stays hr).trans he.current
  loads := fun s hs => by
    obtain ⟨hne, i, hi, hc⟩ := h.loads s hs
    exact ⟨hne, i, (he.slotOf _).symm.trans hi, hc.trans (he.cr3 i)⟩

/-- One empty slot has a new process. -/
structure Filled (t t' : ProcessTable) (i : Fin MAX_PROCESSES) (parent cr3 : Nat) : Prop where
  empty : (t.processes i).pid = 0
  pid : (t'.processes i).pid = t.nextPid
  parentPid : (t'.processes i).parentPid = parent
  cr3 : (t'.processes i).cr3 = cr3
  others : ∀ j, j ≠ i → t'.processes j = t.processes j
  next : t'.nextPid = (t.nextPid + 1) % 2 ^ 32
  current : t'.currentPid = t.currentPid

namespace Kernel

variable {k : Kernel} {held : Locks} {rsp old new : Nat}

theorem doContextSwitch_loads (hsched : held.sched = false) (hnew : new ≠ 0) :
    Switched k (k.doContextSwitch held rsp old new) := by
  have hmark := SameSpaces.markSwitch k.table old new
  unfold doContextSwitch
  cases hi : k.table.slotOf new with
  | none => exact .refl k
  | some i =>
    simp only
    split_ifs with h1 h2 h3 h4 h5
    · exact .refl k
    · exact .refl k
    · exact ⟨(Edited.demote k.table new).toSameSpaces, fun _ => rfl, fun _ h => nomatch h⟩
    · exact .refl k
    · rw [hsched] at h5
      cases h5
    · refine ⟨hmark, fun h => (nomatch h), fun s hs => ?_⟩
      cases hs
      refine ⟨hnew, i, hi, ?_⟩
      have hget : (markSwitch k.table old new).get new =
          some ((markSwitch k.table old new).processes i) := by
        rw [ProcessTable.get, hmark.slotOf, hi]
        rfl
      simp only [hget, Option.map_some, Option.getD_some, hmark.cr3 i]

theorem schedule_loads (hsched : held.sched = false) : Switched k (k.schedule held rsp) := by
  rcases k.schedule_cases held rsp with ⟨sched, h⟩ | ⟨j, hpid, -, -, h⟩
  · rw [h]
    exact ⟨.refl _, fun _ => rfl, fun _ hs => nomatch hs⟩
  · rw [h]
    exact doContextSwitch_loads hsched hpid

theorem yieldNow_loads : Switched k (k.yieldNow rsp) := by
  unfold yieldNow
  split
  · exact .refl k
  · exact schedule_loads rfl

theorem switchToNext_loads (hsched : held.sched = false) :
    Switched k (k.switchToNext held rsp) := by
  unfold switchToNext
  split
  · exact .refl k
  · cases h : k.findNextReady k.table.currentPid with
    | none => exact .refl k
    | some next =>
      simp only
      split
      · exact .refl k
      · obtain ⟨j, rfl, hpid, -⟩ := findNextReady_some h
        exact doContextSwitch_loads hsched hpid

theorem sysExit_loads {status : Int} : Switched k (k.sysExit status rsp) :=
  .of_edited k.sched (.markExit k.table k.table.currentPid status)
    (switchToNext_loads rfl)

/-- A tick that schedules runs without the lock of the scheduler. -/
theorem onTimerTick_loads : Switched k (k.onTimerTick held rsp) := by
  obtain ⟨t, sched, ht, hr⟩ := k.onTimerTick_cases held rsp
  have he : Edited k.table t := by
    rcases ht with rfl | ⟨-, rfl⟩
    · exact .refl _
    · exact .deliverPendingInto _
  rcases hr with hr | ⟨hs, hr⟩
  · rw [hr]
    exact ⟨he.toSameSpaces, fun _ => he.current, fun _ h => nomatch h⟩
  · rw [hr]
    exact .of_edited sched he (schedule_loads hs.1)

/-! ## New processes and new spaces -/

/-- The record of a new process is written to its own slot. -/
theorem fill_modify {t : ProcessTable} {i : Fin MAX_PROCESSES} {parent : Nat} {name : List UInt8}
    {f : Process → Process} (hi : t.slotOf 0 = some i) (hnew : NextNew t) (hn : t.nextPid ≠ 0)
    (hf : ∀ p, (f p).pid = p.pid ∧ (f p).parentPid = p.parentPid) :
    Filled t ((t.fill i parent name).modify t.nextPid f) i parent
      (f (ProcessTable.fresh t.nextPid parent name)).cr3 := by
  have hslot : (t.fill i parent name).slotOf t.nextPid = some i := by
    refine position_eq_some_of_unique (by simp) fun j hj => ?_
    by_contra hne
    rw [t.fill_ne hne, beq_iff_eq] at hj
    exact hnew j (hj ▸ hn) hj
  have hself : ((t.fill i parent name).modify t.nextPid f).processes i =
      f (ProcessTable.fresh t.nextPid parent name) := by
    rw [ProcessTable.modify_processes, if_pos hslot, ProcessTable.fill_self]
  exact
    { empty := ProcessTable.slotOf_pid hi
      pid := by rw [hself, (hf _).1, ProcessTable.fresh_pid]
      parentPid := by rw [hself, (hf _).2, ProcessTable.fresh_parentPid]
      cr3 := by rw [hself]
      others := fun j hj => by
        have hno : ¬ (t.fill i parent name).slotOf t.nextPid = some j := fun h =>
          hj (Option.some.inj (hslot.symm.trans h)).symm
        rw [ProcessTable.modify_processes, if_neg hno, t.fill_ne hj]
      next := rfl
      current := rfl }

/-- `spawn_user_process` fills a slot, or finds none. -/
theorem spawnUserProcess_fills (top : Fin MAX_PROCESSES → Nat) (hnew : NextNew k.table)
    (hn : k.table.nextPid ≠ 0) (name : List UInt8) (entry stackTop cr3 : Nat) :
    (∃ k', k.spawnUserProcess top name entry stackTop cr3 = (none, k') ∧ k'.table = k.table) ∨
      ∃ i k', k.spawnUserProcess top name entry stackTop cr3 = (some k.table.nextPid, k') ∧
        Filled k.table k'.table i 0 cr3 := by
  unfold spawnUserProcess
  rcases k.table.alloc_cases 0 name with ⟨-, he⟩ | ⟨i, hi, he⟩
  · simp only [he]
    exact Or.inl ⟨_, rfl, rfl⟩
  · simp only [he, if_neg hn]
    exact Or.inr ⟨i, _, rfl, fill_modify hi hnew hn fun _ => ⟨rfl, rfl⟩⟩

/-- `sys_fork` fills a slot for a child of the current process, or fails and
changes nothing. -/
theorem forkProcess_fills (hnew : NextNew k.table) (hn : k.table.nextPid ≠ 0) (child userRsp : Nat) :
    (k.forkProcess (some child) userRsp).2.table = k.table ∨
      ∃ i, Filled k.table (k.forkProcess (some child) userRsp).2.table i k.table.currentPid child := by
  rcases k.forkProcess_cases (some child) userRsp with ⟨e, he⟩ |
    ⟨parent, c, i, -, -, -, hc, hi, ⟨h0, -⟩ | ⟨-, he⟩⟩
  · rw [he]
    exact Or.inl rfl
  · exact absurd h0 hn
  · cases hc
    rw [he]
    exact Or.inr ⟨i, fill_modify hi hnew hn fun _ => ⟨rfl, rfl⟩⟩

/-- `sys_exec` changes the space of the current process only, and switches to
it. -/
theorem execReplace_loads {top : Fin MAX_PROCESSES → Nat} {i : Fin MAX_PROCESSES}
    (hcur : k.table.currentPid ≠ 0) (hi : k.table.slotOf k.table.currentPid = some i)
    (entry userRsp cr3 : Nat) (name : List UInt8) (rsp : Nat) :
    ∃ s k', (k.execReplace top entry userRsp cr3 name).restartCurrent rsp = (some s, k') ∧
      s.newCr3 = cr3 ∧ k'.table.currentPid = k.table.currentPid ∧
      k'.table.nextPid = k.table.nextPid ∧
      ∀ j, (k'.table.processes j).pid = (k.table.processes j).pid ∧
        (k'.table.processes j).parentPid = (k.table.processes j).parentPid ∧
        (k'.table.processes j).cr3 = if j = i then cr3 else (k.table.processes j).cr3 := by
  have hslot : (k.execReplace top entry userRsp cr3 name).table.slotOf k.table.currentPid =
      some i :=
    (ProcessTable.slotOf_modify (f := execRecord entry userRsp cr3 name) (fun _ => rfl) _).trans hi
  have hproc : ∀ j, (k.execReplace top entry userRsp cr3 name).table.processes j =
      if j = i then execRecord entry userRsp cr3 name (k.table.processes j)
      else k.table.processes j := fun j => by
    refine (ProcessTable.modify_processes ..).trans ?_
    rw [hi]
    by_cases hj : j = i
    · rw [if_pos (congrArg some hj.symm), if_pos hj]
    · rw [if_neg fun h => hj (Option.some.inj h).symm, if_neg hj]
  have hinit : ((k.execReplace top entry userRsp cr3 name).kernelStacks i).initialised = true := by
    have hget : ((k.table.modify k.table.currentPid
        (execRecord entry userRsp cr3 name)).slotOf k.table.currentPid).getD 0 = i := by
      rw [show (k.table.modify k.table.currentPid
        (execRecord entry userRsp cr3 name)).slotOf k.table.currentPid = some i from hslot]
      rfl
    simp only [execReplace, initProcessStack, hget, Function.update_self]
  have hcur' : (k.execReplace top entry userRsp cr3 name).table.currentPid = k.table.currentPid :=
    rfl
  have hnext : (k.execReplace top entry userRsp cr3 name).table.nextPid = k.table.nextPid := rfl
  generalize k.execReplace top entry userRsp cr3 name = q at hslot hproc hinit hcur' hnext
  have hrun : q.restartCurrent rsp =
      q.doContextSwitch .none rsp k.table.currentPid k.table.currentPid := by
    unfold restartCurrent
    rw [hcur', if_neg hcur]
  have hsome : ∃ s k', q.doContextSwitch .none rsp k.table.currentPid k.table.currentPid =
      (some s, k') := by
    simp [doContextSwitch, hslot, hinit, Locks.none]
  obtain ⟨s, k', hs⟩ := hsome
  have hload : Switched q (some s, k') := hs ▸ doContextSwitch_loads rfl hcur
  obtain ⟨-, -, -, -, htable⟩ := doContextSwitch_switched hs
  have hcurrent : k'.table.currentPid = k.table.currentPid := by
    rw [htable]
    rfl
  obtain ⟨-, i', hi', hc⟩ := hload.loads s rfl
  rw [show (some s, k').2 = k' from rfl, hcurrent, hslot] at hi'
  obtain rfl := Option.some.inj hi'
  refine ⟨s, k', hrun.trans hs, ?_, hcurrent, hload.same.next.trans hnext, fun j => ?_⟩
  · rw [hc, hproc, if_pos rfl]
    rfl
  · have hj := hproc j
    refine ⟨(hload.same.pid j).trans ?_, (hload.same.parentPid j).trans ?_,
      (hload.same.cr3 j).trans ?_⟩
    · rw [hj]
      split <;> rfl
    · rw [hj]
      split <;> rfl
    · rw [hj]
      split <;> rfl

end Kernel

end AeroOS.Scheduler
