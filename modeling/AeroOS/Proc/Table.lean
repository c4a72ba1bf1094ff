import AeroOS.Lib.Cells
import AeroOS.Syscalls.Fd

/-!
# The process table

`process.rs`.  The table has `MAX_PROCESSES` slots; a slot with pid 0 is empty.
Every lookup takes the first slot with the pid, so a lookup of pid 0 finds the
first empty slot.

`free` and `reap_zombies` hand the address spaces of the slots they empty to
`dealloc_proc_space`; here they return those `cr3` values beside the new table.
The saved register context of a slot is left out: no code reads it.
-/

namespace AeroOS.Proc

open AeroOS.Cells
open AeroOS.Syscalls (FdTable)

/-- Maximum number of concurrent processes. -/
def MAX_PROCESSES : Nat := 32

instance : NeZero MAX_PROCESSES := ⟨by decide⟩

/-- Process states. -/
inductive ProcessState where
  /-- Slot is free. -/
  | free
  /-- Process is runnable. -/
  | ready
  /-- Currently running. -/
  | running
  /-- Waiting for I/O or sleep. -/
  | blocked
  /-- Process has exited, pending cleanup. -/
  | zombie
  deriving DecidableEq, Repr

/-- A process descriptor.  The integers are the `u32` and `u64` fields of the
source; `cr3 = 0` means the kernel address space. -/
structure Process where
  pid : Nat
  parentPid : Nat
  state : ProcessState
  entryPoint : Nat
  userRsp : Nat
  cr3 : Nat
  fdTable : FdTable
  pendingSignals : BitVec 32
  signalMask : BitVec 32
  exitCode : Int
  name : List UInt8

namespace Process

/-- An empty slot. -/
def empty : Process where
  pid := 0
  parentPid := 0
  state := .free
  entryPoint := 0
  userRsp := 0
  cr3 := 0
  fdTable := FdTable.new
  pendingSignals := 0
  signalMask := 0
  exitCode := 0
  name := List.replicate 16 0

/-- Copy at most 15 bytes of the name and end it with a zero. -/
def setName (p : Process) (name : List UInt8) : Process :=
  let len := min name.length 15
  { p with name := name.take len ++ 0 :: p.name.drop (len + 1) }

@[simp] theorem setName_pid (p : Process) (name : List UInt8) :
    (p.setName name).pid = p.pid := rfl

@[simp] theorem setName_parentPid (p : Process) (name : List UInt8) :
    (p.setName name).parentPid = p.parentPid := rfl

@[simp] theorem setName_state (p : Process) (name : List UInt8) :
    (p.setName name).state = p.state := rfl

@[simp] theorem setName_exitCode (p : Process) (name : List UInt8) :
    (p.setName name).exitCode = p.exitCode := rfl

end Process

/-- The process table. -/
structure ProcessTable where
  processes : Fin MAX_PROCESSES → Process
  nextPid : Nat
  /-- Currently running process (0 = kernel). -/
  currentPid : Nat

namespace ProcessTable

/-- The table at boot. -/
def new : ProcessTable where
  processes _ := .empty
  nextPid := 1
  currentPid := 0

/-- The slot that `position(|p| p.pid == pid)` finds. -/
def slotOf (t : ProcessTable) (pid : Nat) : Option (Fin MAX_PROCESSES) :=
  position (fun p => p.pid == pid) t.processes

/-- Get a process by pid. -/
def get (t : ProcessTable) (pid : Nat) : Option Process :=
  (t.slotOf pid).map t.processes

/-- Edit the process that `get_mut` finds. -/
def modify (t : ProcessTable) (pid : Nat) (f : Process → Process) : ProcessTable :=
  { t with processes := modifyFirst (fun p => p.pid == pid) f t.processes }

/-- Set the running process. -/
def setCurrent (t : ProcessTable) (pid : Nat) : ProcessTable := { t with currentPid := pid }

/-- Put a process in a slot. -/
def setSlot (t : ProcessTable) (i : Fin MAX_PROCESSES) (p : Process) : ProcessTable :=
  { t with processes := Function.update t.processes i p }

/-- The record that `alloc` writes into an empty slot. -/
def fresh (pid parentPid : Nat) (name : List UInt8) : Process :=
  { Process.empty with pid := pid, parentPid := parentPid, state := .blocked }.setName name

/-- Allocate a process in the first empty slot.  The pid is 0 on failure.  The
counter is a `u32`, and an increment past its end wraps. -/
def alloc (t : ProcessTable) (parentPid : Nat) (name : List UInt8) : Nat × ProcessTable :=
  match t.slotOf 0 with
  | some i =>
    (t.nextPid,
      { t.setSlot i (fresh t.nextPid parentPid name) with
        nextPid := (t.nextPid + 1) % 2 ^ 32 })
  | none => (0, t)

/-- Free the first slot with the pid; the result is the address space to
deallocate and the new table. -/
def free (t : ProcessTable) (pid : Nat) : Option (Nat × ProcessTable) :=
  (t.slotOf pid).map fun i => ((t.processes i).cr3, t.setSlot i .empty)

/-- Set the pending bit of a signal.  The shift is on a `u32`, whose amount is
taken modulo 32, and `signum - 1` on a `u8` wraps. -/
def sendSignal (t : ProcessTable) (pid signum : Nat) : Bool × ProcessTable :=
  match t.get pid with
  | some p =>
    if p.state = .free then (false, t)
    else
      (true, t.modify pid fun p =>
        { p with pendingSignals := p.pendingSignals ||| (1#32 <<< ((signum + 255) % 256 % 32)) })
  | none => (false, t)

/-- Mark a process as exited. -/
def markExit (t : ProcessTable) (pid : Nat) (exitCode : Int) : Bool × ProcessTable :=
  match t.get pid with
  | some _ => (true, t.modify pid fun p => { p with state := .zombie, exitCode := exitCode })
  | none => (false, t)

/-- Free the slots of all zombies; the result starts with the address spaces to
deallocate. -/
def reapZombies (t : ProcessTable) : List Nat × ProcessTable :=
  (((List.finRange MAX_PROCESSES).filter fun i => (t.processes i).state = .zombie).map
      fun i => (t.processes i).cr3,
    { t with processes := fun i =>
        if (t.processes i).state = .zombie then .empty else t.processes i })

end ProcessTable

end AeroOS.Proc
