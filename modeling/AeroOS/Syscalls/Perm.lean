import AeroOS.Proc.Table

/-!
# Permissions

`perm.rs`: who may use which resource.  A process that the kernel spawned has
parent 0 and is a system process; its descendants are user processes.
-/

namespace AeroOS.Syscalls

open AeroOS.Proc

/-- Privilege level for a process. -/
inductive PrivilegeLevel where
  | kernel | system | user
  deriving DecidableEq, Repr

/-- Resource types for permission checks. -/
inductive Resource where
  | framebuffer | inputEvents | fileRead | fileWrite | processControl | exec
  deriving DecidableEq, Repr

/-- `get_privilege_level`. -/
def getPrivilegeLevel (t : ProcessTable) (pid : Nat) : PrivilegeLevel :=
  if pid = 0 then .kernel
  else
    match t.get pid with
    | none => .kernel
    | some p =>
      if p.state = .free then .kernel
      else if p.parentPid = 0 then .system
      else .user

/-- The table of `check_permission`. -/
def granted : PrivilegeLevel → Resource → Bool
  | .system, _ => true
  | .user, .framebuffer => false
  | .user, .inputEvents => false
  | .user, .fileRead => true
  | .user, .fileWrite => true
  | .user, .exec => true
  | .user, .processControl => false
  | .kernel, _ => false

/-- `check_permission`.  A level that the table does not name is denied, so only
pid 0 has the rights of the kernel. -/
def checkPermission (t : ProcessTable) (pid : Nat) (r : Resource) : Bool :=
  if pid = 0 then true else granted (getPrivilegeLevel t pid) r

/-- A user process has no right to the hardware. -/
theorem checkPermission_user {t : ProcessTable} {pid : Nat}
    (h : getPrivilegeLevel t pid = .user) :
    checkPermission t pid .framebuffer = false ∧ checkPermission t pid .inputEvents = false := by
  have hpid : pid ≠ 0 := by
    rintro rfl
    cases h
  rw [checkPermission, checkPermission, if_neg hpid, if_neg hpid, h]
  exact ⟨rfl, rfl⟩

end AeroOS.Syscalls
