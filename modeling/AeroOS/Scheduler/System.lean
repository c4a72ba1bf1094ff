import AeroOS.Lib.Run
import AeroOS.Scheduler.Calls

/-!
# Runs of the process system

One `Action` is one indivisible piece of kernel code.  System calls run with
interrupts disabled, so a call is one action, except for `sys_fork` and
`sys_exec`, which are two actions each: interrupts are enabled in the middle of
the first, and the halves of the second are kept apart.
-/

namespace AeroOS.Scheduler

open AeroOS.Proc

/-- The indivisible steps. -/
inductive Action where
  | alloc (parentPid : Nat) (name : List UInt8)
  | free (pid : Nat)
  | markExit (pid : Nat) (code : Int)
  | sendSignal (pid signum : Nat)
  | reapZombies
  | handleOom
  | deliverPending
  | spawn (name : List UInt8) (entry stackTop cr3 : Nat)
  | fork (childCr3 : Option Nat) (userRsp : Nat)
  | buildChildStack (slot : Fin MAX_PROCESSES)
  | execReplace (entry userRsp cr3 : Nat) (name : List UInt8)
  | restartCurrent (rsp : Nat)
  | exit (status : Int) (rsp : Nat)
  | pageFault (rsp : Nat)
  | kill (pid signum : Nat)
  | waitpid (pid rsp : Nat)
  | yieldNow (rsp : Nat)
  | schedule (held : Locks) (rsp : Nat)
  | switchToNext (held : Locks) (rsp : Nat)
  | tick (held : Locks) (rsp : Nat)
  | startScheduler

namespace Kernel

/-- The kernel state after an action. -/
def exec (top : Fin MAX_PROCESSES → Nat) (k : Kernel) : Action → Kernel
  | .alloc parentPid name => { k with table := (k.table.alloc parentPid name).2 }
  | .free pid =>
    match k.table.free pid with
    | some (_, t) => { k with table := t }
    | none => k
  | .markExit pid code => { k with table := (k.table.markExit pid code).2 }
  | .sendSignal pid signum => { k with table := (k.table.sendSignal pid signum).2 }
  | .reapZombies => { k with table := k.table.reapZombies.2 }
  | .handleOom => { k with table := k.table.handleOom.2.2 }
  | .deliverPending => { k with table := k.table.deliverPendingInto }
  | .spawn name entry stackTop cr3 => (k.spawnUserProcess top name entry stackTop cr3).2
  | .fork childCr3 userRsp => (k.forkProcess childCr3 userRsp).2
  | .buildChildStack slot => k.buildChildStack top slot
  | .execReplace entry userRsp cr3 name => k.execReplace top entry userRsp cr3 name
  | .restartCurrent rsp => (k.restartCurrent rsp).2
  | .exit status rsp => (k.sysExit status rsp).2
  | .pageFault rsp => (k.userPageFault rsp).2
  | .kill pid signum => { k with table := (k.table.sysKill pid signum).2 }
  | .waitpid pid rsp => (k.sysWaitpid pid rsp).2
  | .yieldNow rsp => (k.yieldNow rsp).2
  | .schedule held rsp => (k.schedule held rsp).2
  | .switchToNext held rsp => (k.switchToNext held rsp).2
  | .tick held rsp => (k.onTimerTick held rsp).2
  | .startScheduler => k.startScheduler

/-- One step of a run. -/
def Step (top : Fin MAX_PROCESSES → Nat) (k : Kernel) (a : Action) (k' : Kernel) : Prop :=
  k' = k.exec top a

/-- The pid that an action gives to a new process. -/
def given (top : Fin MAX_PROCESSES → Nat) (k : Kernel) : Action → Option Nat
  | .alloc parentPid name =>
    let pid := (k.table.alloc parentPid name).1
    if pid = 0 then none else some pid
  | .spawn name entry stackTop cr3 => (k.spawnUserProcess top name entry stackTop cr3).1
  | .fork childCr3 userRsp =>
    match (k.forkProcess childCr3 userRsp).1 with
    | .ok (pid, _) => some pid
    | .error _ => none
  | _ => none

/-- The child pid that an action returns from `waitpid`. -/
def waited (k : Kernel) : Action → Option Nat
  | .waitpid pid rsp =>
    match (k.sysWaitpid pid rsp).1 with
    | .reaped child _ => some child
    | _ => none
  | _ => none

end Kernel

end AeroOS.Scheduler
