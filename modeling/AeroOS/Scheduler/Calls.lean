import AeroOS.Scheduler.Switch

/-!
# Process system calls

The process calls of `syscalls/mod.rs`, the user page fault of
`interrupts/idt.rs` and the record part of `userproc.rs`, on the kernel state.
A call that loads or copies an address space takes the result as an argument:
these functions are the part that runs after it.

`top` gives the top address of each slot's kernel stack, and `rsp` the stack
pointer at which a call that switches away is saved.
-/

namespace AeroOS.Scheduler

open AeroOS.Cells
open AeroOS.Proc

/-- `u64::MAX`, the `waitpid` argument for any child. -/
def ANY_CHILD : Nat := 2 ^ 64 - 1

/-- Top of the user stack (`userproc.rs`). -/
def USER_STACK_TOP : Nat := 0x7FFF00000000

namespace Kernel

/-- The record part of `spawn_user_process`: a process whose parent is the
kernel.  The result is the pid, or none when the table is full. -/
def spawnUserProcess (top : Fin MAX_PROCESSES → Nat) (name : List UInt8)
    (entry stackTop cr3 : Nat) (k : Kernel) : Option Nat × Kernel :=
  match k.table.alloc 0 name with
  | (pid, t) =>
    if pid = 0 then (none, { k with table := t })
    else
      let t := t.modify pid fun p =>
        { p with entryPoint := entry, userRsp := stackTop, cr3 := cr3, state := .ready }
      (some pid, initProcessStack top ((t.slotOf pid).getD 0) { k with table := t })

/-- The bytes of `b"fork"`. -/
def forkName : List UInt8 := [0x66, 0x6f, 0x72, 0x6b]

/-- What `sys_fork` copies into the child's record. -/
def forkRecord (parent : Process) (userRsp childCr3 : Nat) (p : Process) : Process :=
  { { p with
      entryPoint := parent.entryPoint
      userRsp := userRsp
      cr3 := childCr3
      fdTable := parent.fdTable }.setName parent.name with
    state := .ready }

/-- `sys_fork` up to the point where interrupts are enabled.  `childCr3` is the
result of `clone_user_space`.  The result is the child's pid and slot, or the
error that the call returns. -/
def forkProcess (childCr3 : Option Nat) (userRsp : Nat) (k : Kernel) :
    Except Int (Nat × Fin MAX_PROCESSES) × Kernel :=
  let parentPid := k.table.currentPid
  if parentPid = 0 then (.error ENOSYS, k)
  else
    match k.table.get parentPid with
    | none => (.error ENOSYS, k)
    | some parent =>
      if parent.cr3 = 0 then (.error ENOSYS, k)
      else
        match childCr3 with
        | none => (.error ENOMEM, k)
        | some childCr3 =>
          match k.table.alloc parentPid forkName with
          | (pid, t) =>
            if pid = 0 then (.error ENOMEM, { k with table := t })
            else
              let slot := (t.slotOf pid).getD 0
              (.ok (pid, slot),
                { k with table := t.modify pid (forkRecord parent userRsp childCr3) })

/-- The stack pointer that `sys_fork` leaves in the child's slot: 27 words below
the top. -/
def forkRsp (top : Nat) : Nat := top - 27 * 8

/-- The last part of `sys_fork`: the child's kernel stack. -/
def buildChildStack (top : Fin MAX_PROCESSES → Nat) (slot : Fin MAX_PROCESSES) (k : Kernel) :
    Kernel :=
  { k with kernelStacks := Function.update k.kernelStacks slot ⟨forkRsp (top slot), true⟩ }

/-- What `sys_exec` writes into the record of the calling process. -/
def execRecord (entry userRsp cr3 : Nat) (name : List UInt8) (p : Process) : Process :=
  { p with
    entryPoint := entry
    userRsp := userRsp
    cr3 := cr3
    name := name.take 15 ++ List.replicate (16 - min name.length 15) 0
    state := .ready }

/-- The record part of `sys_exec`, which `restart_current` follows. -/
def execReplace (top : Fin MAX_PROCESSES → Nat) (entry userRsp cr3 : Nat) (name : List UInt8)
    (k : Kernel) : Kernel :=
  let t := k.table.modify k.table.currentPid (execRecord entry userRsp cr3 name)
  initProcessStack top ((t.slotOf k.table.currentPid).getD 0) { k with table := t }

/-- `sys_exit`, without the final halt. -/
def sysExit (status : Int) (rsp : Nat) (k : Kernel) : Option Switch × Kernel :=
  switchToNext .none rsp { k with table := (k.table.markExit k.table.currentPid status).2 }

/-- A page fault in user mode ends the process with code 139. -/
def userPageFault (rsp : Nat) (k : Kernel) : Option Switch × Kernel :=
  sysExit 139 rsp k

/-- What one round of the `sys_waitpid` loop finds. -/
inductive WaitResult where
  | reaped (pid : Nat) (code : Int)
  | waiting
  | noChild

/-- The child that a round of `sys_waitpid` looks at. -/
def waitChild (t : ProcessTable) (pid : Nat) : Option (Fin MAX_PROCESSES) :=
  position (fun p =>
    p.pid ≠ 0 ∧ p.parentPid = t.currentPid ∧ (pid = ANY_CHILD ∨ p.pid = pid)) t.processes

/-- One round of the `sys_waitpid` loop. -/
def sysWaitpid (pid : Nat) (rsp : Nat) (k : Kernel) : WaitResult × Kernel :=
  match waitChild k.table pid with
  | none => (.noChild, k)
  | some i =>
    let p := k.table.processes i
    if p.state = .zombie then
      (.reaped p.pid p.exitCode,
        match k.table.free p.pid with
        | some (_, t) => { k with table := t }
        | none => k)
    else (.waiting, (k.yieldNow rsp).2)

end Kernel

end AeroOS.Scheduler
