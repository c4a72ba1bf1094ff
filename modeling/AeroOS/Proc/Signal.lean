import AeroOS.Proc.Table

/-!
# Signals and the out-of-memory handler

`signal.rs` and `oom.rs` on the process table.
-/

namespace AeroOS.Proc

open AeroOS.Cells

def SIGKILL : Nat := 9
def SIGTERM : Nat := 15

/-- Error numbers of `syscalls/mod.rs` that the process calls return. -/
def EINVAL : Int := -22
def ENOENT : Int := -2
def ENOSYS : Int := -38
def ENOMEM : Int := -12
def ECHILD : Int := -10

namespace Process

/-- A process killed by a signal: its descriptors are closed and its exit code
names the signal. -/
def killed (p : Process) (signum : Nat) : Process :=
  { p with
    fdTable := p.fdTable.clear
    pendingSignals := 0
    state := .zombie
    exitCode := 128 + signum }

/-- The pending bit of a signal. -/
def hasPending (p : Process) (signum : Nat) : Bool :=
  p.pendingSignals &&& (1#32 <<< (signum - 1)) != 0

end Process

namespace ProcessTable

/-- `signal::send_signal`.  The two termination signals make the process a
zombie at once; the others set a pending bit. -/
def signal (t : ProcessTable) (pid signum : Nat) : Bool × ProcessTable :=
  if signum = SIGKILL ∨ signum = SIGTERM then
    match t.get pid with
    | some p =>
      if p.state = .free ∨ p.state = .zombie then (false, t)
      else (true, t.modify pid fun p => { p.killed signum with signalMask := 0 })
    | none => (false, t)
  else t.sendSignal pid signum

/-- What `deliver_pending_into` does to the current process. -/
def deliverTo (p : Process) : Process :=
  if p.pendingSignals = 0 then p
  else if p.hasPending SIGKILL then p.killed SIGKILL
  else if p.hasPending SIGTERM then p.killed SIGTERM
  else
    { p with
      pendingSignals :=
        p.pendingSignals &&& ~~~((1#32 <<< (SIGKILL - 1)) ||| (1#32 <<< (SIGTERM - 1))) }

/-- `deliver_pending_into`. -/
def deliverPendingInto (t : ProcessTable) : ProcessTable :=
  if t.currentPid = 0 then t else t.modify t.currentPid deliverTo

/-- `sys_kill`. -/
def sysKill (t : ProcessTable) (pid signum : Nat) : Int × ProcessTable :=
  if pid = 0 then (EINVAL, t)
  else if signum = 0 then (if (t.get pid).isSome then 0 else ENOENT, t)
  else
    match t.signal pid signum with
    | (true, t') => (0, t')
    | (false, t') => (ENOENT, t')

/-- `handle_oom`: reap the zombies, or else kill the first ready process with a
pid above 2 and reap it.  The result is whether to retry, the address spaces to
deallocate, and the table. -/
def handleOom (t : ProcessTable) : Bool × List Nat × ProcessTable :=
  if (position (fun p => p.state = .zombie) t.processes).isSome then (true, t.reapZombies)
  else
    match position (fun p => 2 < p.pid ∧ p.state = .ready) t.processes with
    | some i =>
      let p := t.processes i
      let dead := { p with fdTable := p.fdTable.clear, state := .zombie, exitCode := -9 }
      (true, (t.setSlot i dead).reapZombies)
    | none => (false, [], t)

end ProcessTable

end AeroOS.Proc
