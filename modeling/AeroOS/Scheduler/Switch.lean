import AeroOS.Proc.Signal

/-!
# The scheduler

`scheduler.rs`.  The kernel state holds the process table, one kernel stack for
each slot, and the slice counter.  The scheduler runs in two places: in the
timer interrupt, where the interrupted code may hold locks, and in a syscall,
where no lock is held.  `Locks` says which of them are held; `try_lock` fails
on a held lock.

A context switch is the last thing `do_context_switch` does.  Its result says
which stack pointer and address space are loaded; the context that is left is
saved at `rsp`.
-/

namespace AeroOS.Scheduler

open AeroOS.Cells
open AeroOS.Proc

/-- The saved context of a slot's kernel stack. -/
structure ProcessKernelStack where
  savedRsp : Nat
  initialised : Bool

/-- Scheduler state. -/
structure Sched where
  currentSlice : Nat
  defaultSlice : Nat
  active : Bool

/-- The locks that the interrupted code holds. -/
structure Locks where
  table : Bool
  kernelStacks : Bool
  sched : Bool

/-- No lock is held. -/
def Locks.none : Locks := ⟨false, false, false⟩

/-- Process table, kernel stacks and scheduler, with the slot whose stack
`TSS.RSP0` names. -/
structure Kernel where
  table : ProcessTable
  kernelStacks : Fin MAX_PROCESSES → ProcessKernelStack
  sched : Sched
  rsp0 : Option (Fin MAX_PROCESSES)

/-- What `switch_context` loads. -/
structure Switch where
  newRsp : Nat
  newCr3 : Nat

namespace Kernel

/-- The state before the first process is made. -/
def boot : Kernel where
  table := .new
  kernelStacks _ := ⟨0, false⟩
  sched := ⟨5, 5, false⟩
  rsp0 := none

/-- The first ready process after the slot of `after_pid` (slot 0 when it has
none), with wraparound. -/
def findNextReady (k : Kernel) (after : Nat) : Option Nat :=
  let i := (k.table.slotOf after).getD 0
  (scanAfter (fun p => p.pid ≠ 0 ∧ p.state = .ready) i k.table.processes).map
    fun j => (k.table.processes j).pid

/-- A placeholder that cannot run yet is blocked. -/
def demote (p : Process) : Process :=
  if p.state = .ready then { p with state := .blocked } else p

/-- The process that is left goes back to ready if it was running. -/
def leave (p : Process) : Process :=
  if p.state = .running then { p with state := .ready } else p

def run (p : Process) : Process := { p with state := .running }

/-- The state update of `do_context_switch`. -/
def markSwitch (t : ProcessTable) (old new : Nat) : ProcessTable :=
  ((if old = 0 then t else t.modify old leave).modify new run).setCurrent new

def resetSlice (s : Sched) : Sched := { s with currentSlice := s.defaultSlice }

/-- The stacks after `switch_context` saves the context that is left.  Without
an old process it goes to a throwaway slot. -/
def saveContext (k : Kernel) (old rsp : Nat) : Fin MAX_PROCESSES → ProcessKernelStack :=
  match if old = 0 then none else k.table.slotOf old with
  | some s => Function.update k.kernelStacks s { k.kernelStacks s with savedRsp := rsp }
  | none => k.kernelStacks

/-- `do_context_switch`. -/
def doContextSwitch (held : Locks) (rsp : Nat) (old new : Nat) (k : Kernel) :
    Option Switch × Kernel :=
  match k.table.slotOf new with
  | none => (none, k)
  | some newSlot =>
    if held.kernelStacks then (none, k)
    else if !(k.kernelStacks newSlot).initialised then
      if held.table then (none, k)
      else (none, { k with table := k.table.modify new demote })
    else if held.table then (none, k)
    else
      let table := markSwitch k.table old new
      if held.sched then (none, { k with table := table })
      else
        let newCr3 := ((table.get new).map (·.cr3)).getD 0
        (some ⟨(k.kernelStacks newSlot).savedRsp, newCr3⟩,
          { table := table, kernelStacks := k.saveContext old rsp, sched := resetSlice k.sched,
            rsp0 := some newSlot })

/-- `schedule`. -/
def schedule (held : Locks) (rsp : Nat) (k : Kernel) : Option Switch × Kernel :=
  if held.table then (none, k)
  else
    match k.findNextReady k.table.currentPid with
    | none => (none, k)
    | some next =>
      if next = k.table.currentPid then (none, { k with sched := resetSlice k.sched })
      else doContextSwitch held rsp k.table.currentPid next k

/-- The slice after one tick. -/
def tickSlice (s : Sched) : Sched := { s with currentSlice := s.currentSlice - 1 }

/-- A tick gets as far as the delivery of pending signals. -/
def delivers (held : Locks) (k : Kernel) : Prop :=
  held.sched = false ∧ k.sched.active = true ∧ (tickSlice k.sched).currentSlice ≠ 0 ∧
    held.table = false

/-- A tick calls `schedule`: the slice is used up, or the current process is
dead. -/
def schedules (held : Locks) (k : Kernel) : Prop :=
  held.sched = false ∧ k.sched.active = true ∧
    ((tickSlice k.sched).currentSlice = 0 ∨
      held.table = false ∧ k.table.currentPid ≠ 0 ∧
        ∃ p, k.table.deliverPendingInto.get k.table.currentPid = some p ∧ p.state = .zombie)

/-- `on_timer_tick`. -/
def onTimerTick (held : Locks) (rsp : Nat) (k : Kernel) : Option Switch × Kernel :=
  if held.sched then (none, k)
  else if !k.sched.active then (none, k)
  else
    let k := { k with sched := tickSlice k.sched }
    if k.sched.currentSlice = 0 then k.schedule held rsp
    else if held.table then (none, k)
    else if k.table.currentPid = 0 then (none, k)
    else
      let k := { k with table := k.table.deliverPendingInto }
      match k.table.get k.table.currentPid with
      | some p => if p.state = .zombie then k.schedule held rsp else (none, k)
      | none => (none, k)

/-- `switch_to_next`. -/
def switchToNext (held : Locks) (rsp : Nat) (k : Kernel) : Option Switch × Kernel :=
  if held.table then (none, k)
  else
    match k.findNextReady k.table.currentPid with
    | none => (none, k)
    | some next =>
      if next = k.table.currentPid then (none, k)
      else doContextSwitch held rsp k.table.currentPid next k

/-- `yield_now`. -/
def yieldNow (rsp : Nat) (k : Kernel) : Option Switch × Kernel :=
  if k.table.currentPid = 0 then (none, k) else k.schedule .none rsp

/-- `restart_current`. -/
def restartCurrent (rsp : Nat) (k : Kernel) : Option Switch × Kernel :=
  if k.table.currentPid = 0 then (none, k)
  else doContextSwitch .none rsp k.table.currentPid k.table.currentPid k

/-- `init_process_stack`: the context is set up 56 bytes below the stack's
top. -/
def initProcessStack (top : Fin MAX_PROCESSES → Nat) (slot : Fin MAX_PROCESSES) (k : Kernel) :
    Kernel :=
  { k with kernelStacks := Function.update k.kernelStacks slot ⟨top slot - 56, true⟩ }

/-- `start_scheduler`. -/
def startScheduler (k : Kernel) : Kernel :=
  { k with sched := { k.sched with active := true } }

end Kernel

end AeroOS.Scheduler
