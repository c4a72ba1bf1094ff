import AeroOS.Fs.Devfs
import AeroOS.Scheduler.System
import AeroOS.Syscalls.Perm

/-!
# System calls

`dispatch` and the calls of `syscalls/mod.rs` on the state of the machine: the
kernel with its process table, the descriptor tables, the mounted filesystems
and the devices.

A call takes its five arguments as numbers and reads paths and buffers from the
caller's memory.  What comes from outside the state is `Env`.  What it stores
through the caller's pointers is part of the reply; console output is left out.
A call that has to wait is one round of its loop.
-/

namespace AeroOS.Syscalls

open Bytes Fs
open AeroOS.Proc
open AeroOS.Scheduler (Kernel)

/-! ## Numbers -/

def EPERM : Int := -1
def EBADF : Int := -9
def EFAULT : Int := -14
def ENOTDIR : Int := -20

/-- `as i32`. -/
def asI32 (n : Nat) : Int := if n % 2 ^ 32 < 2 ^ 31 then n % 2 ^ 32 else n % 2 ^ 32 - 2 ^ 32

/-- `as i64`. -/
def asI64 (n : Nat) : Int := if n < 2 ^ 63 then n else n - 2 ^ 64

/-- `as usize` of a descriptor. -/
def asUsize (i : Int) : Nat := (i % 2 ^ 64).toNat

/-- Syscall numbers. -/
inductive SyscallNum where
  | open | read | write | mmap | nanosleep | clockGettime | getFramebufferInfo | fbCommit
  | pollInput | kill | exit | exec | getpid | close | mkdir | unlink | stat | chdir | getcwd
  | fork | waitpid | getppid | getdents | getprocs
  deriving DecidableEq, Repr

/-- The numbers from 1 up. -/
def SyscallNum.all : List SyscallNum :=
  [.open, .read, .write, .mmap, .nanosleep, .clockGettime, .getFramebufferInfo, .fbCommit,
    .pollInput, .kill, .exit, .exec, .getpid, .close, .mkdir, .unlink, .stat, .chdir, .getcwd,
    .fork, .waitpid, .getppid, .getdents, .getprocs]

/-- `from_u64`. -/
def SyscallNum.fromU64 (n : Nat) : Option SyscallNum := if n = 0 then none else all[n - 1]?

/-- The resource that `dispatch` checks before a call. -/
def SyscallNum.resource : SyscallNum → Option Resource
  | .getFramebufferInfo => some .framebuffer
  | .fbCommit => some .framebuffer
  | .pollInput => some .inputEvents
  | .kill => some .processControl
  | .exec => some .exec
  | _ => none

/-! ## The machine -/

/-- The state that system calls work on.  `τ` is what lies behind the filesystems
other than the device filesystem. -/
structure Machine (τ : Type) where
  kernel : Kernel
  /-- The table for calls of the kernel itself. -/
  fdTable : FdTable
  currentDir : Path
  devices : Devices
  files : τ

/-- What a call gets from outside. -/
structure Env where
  /-- The caller's memory. -/
  mem : Nat → UInt8
  /-- The bytes waiting at the serial line. -/
  serial : List UInt8
  /-- Seconds and nanoseconds since boot. -/
  clock : Nat × Nat
  /-- The address that the kernel heap gives to `mmap`. -/
  heap : Option Nat
  /-- The result of `clone_user_space`. -/
  childCr3 : Option Nat
  /-- Entry, stack pointer and address space of a loaded image, or the error. -/
  image : List UInt8 → Except Int (Nat × Nat × Nat)
  /-- The user stack pointer of the interrupted code. -/
  userRsp : Nat
  /-- The kernel stack pointer at which a switch saves the caller. -/
  rsp : Nat
  /-- Top of each slot's kernel stack. -/
  stackTop : Fin MAX_PROCESSES → Nat

/-- What a call leaves: its value, or none when it does not return yet, and what it
stores through the caller's pointers. -/
structure Reply where
  ret : Option Int
  stores : List (Nat × List UInt8)

/-- A value and no stores. -/
def Reply.value (ret : Int) : Reply := ⟨some ret, []⟩

namespace Machine

variable {τ : Type}

/-- The state behind the mounted filesystems. -/
def fsState (m : Machine τ) : Devices × τ := (m.devices, m.files)

def setFsState (m : Machine τ) (s : Devices × τ) : Machine τ :=
  { m with devices := s.1, files := s.2 }

/-- The descriptor table that the caller uses, with the process that owns it. -/
def callerTable (m : Machine τ) : FdTable :=
  if m.kernel.table.currentPid = 0 then m.fdTable
  else (m.kernel.table.get m.kernel.table.currentPid).elim m.fdTable (·.fdTable)

/-- `with_fd_table_mut` with a change of the table. -/
def setCallerTable (m : Machine τ) (t : FdTable) : Machine τ :=
  let pid := m.kernel.table.currentPid
  if pid ≠ 0 ∧ (m.kernel.table.get pid).isSome then
    { m with kernel := { m.kernel with
        table := m.kernel.table.modify pid fun p => { p with fdTable := t } } }
  else { m with fdTable := t }

/-- The privilege level of the caller. -/
def level (m : Machine τ) : PrivilegeLevel :=
  getPrivilegeLevel m.kernel.table m.kernel.table.currentPid

end Machine

/-! ## Paths -/

/-- One byte of the test whether a path is UTF-8: how many continuation bytes are
due, and the bounds of the next one. -/
def utf8Step : Option (Nat × UInt8 × UInt8) → UInt8 → Option (Nat × UInt8 × UInt8)
  | none, _ => none
  | some (0, _, _), b =>
    if b < 0x80 then some (0, 0, 0)
    else if 0xC2 ≤ b ∧ b ≤ 0xDF then some (1, 0x80, 0xBF)
    else if b = 0xE0 then some (2, 0xA0, 0xBF)
    else if b = 0xED then some (2, 0x80, 0x9F)
    else if 0xE1 ≤ b ∧ b ≤ 0xEF then some (2, 0x80, 0xBF)
    else if b = 0xF0 then some (3, 0x90, 0xBF)
    else if 0xF1 ≤ b ∧ b ≤ 0xF3 then some (3, 0x80, 0xBF)
    else if b = 0xF4 then some (3, 0x80, 0x8F)
    else none
  | some (n + 1, lo, hi), b => if lo ≤ b ∧ b ≤ hi then some (n, 0x80, 0xBF) else none

/-- `core::str::from_utf8` succeeds. -/
def validUtf8 (bytes : List UInt8) : Bool :=
  (bytes.foldl utf8Step (some (0, 0, 0))).elim false fun s => s.1 == 0

/-- The bytes up to the terminator, which is among the first 256. -/
def cString (mem : Nat → UInt8) (p : Nat) : Option Path :=
  ((List.range 256).find? fun k => mem (p + k) == 0).map fun k => readBytes mem p k

/-- `read_path`. -/
def readPath (mem : Nat → UInt8) (p : Nat) : Except Int Path :=
  if p = 0 then .error EFAULT
  else
    match cString mem p with
    | none => .error EINVAL
    | some path => if validUtf8 path then .ok path else .error EINVAL

/-- The parent directory and the name, as `rsplit_once('/')` and `rsplit('/')` give
them. -/
def splitLast (path : Path) : Path × Path :=
  match Vfs.rfindSlash path with
  | none => ([slash], path)
  | some i => (path.take i, path.drop (i + 1))

/-! ## Files -/

section calls

variable {τ : Type} (v : Vfs (Devices × τ)) (env : Env) (m : Machine τ)

/-- `open(path, flags)`. -/
def sysOpen (path flags : Nat) : Reply × Machine τ :=
  match readPath env.mem path with
  | .error e => (.value e, m)
  | .ok path =>
    match v.openPath path (flags.testBit 6) m.fsState with
    | (.error _, s) => (.value ENOENT, m.setFsState s)
    | (.ok file, s) =>
      let m := m.setFsState s
      match m.callerTable.alloc (.vfsFile file.mountIdx file.inodeId 0) with
      | none => (.value ENOMEM, m)
      | some (fd, t) => (.value fd, m.setCallerTable t)

/-- `read(fd, buf, count)`. -/
def sysRead (fd buf count : Nat) : Reply × Machine τ :=
  if buf = 0 then (.value EFAULT, m)
  else if asI32 fd = 0 then
    if env.serial = [] then (⟨none, []⟩, { m with kernel := (m.kernel.yieldNow env.rsp).2 })
    else
      let bytes := env.serial.take (max 1 count)
      (⟨some (asI64 bytes.length), [(buf, bytes)]⟩, m)
  else
    match m.callerTable.get (asUsize (asI32 fd)) with
    | none => (.value EBADF, m)
    | some (.vfsFile mountIdx inodeId offset) =>
      match v.read ⟨inodeId, mountIdx, offset, .regular⟩ (readBytes env.mem buf count) m.fsState with
      | (r, file, s) =>
        let m := m.setFsState s
        let m := m.setCallerTable (m.callerTable.updateVfsOffset (asUsize (asI32 fd)) file.offset)
        match r with
        | .ok (n, bytes) => (⟨some (asI64 n), [(buf, bytes)]⟩, m)
        | .error _ => (.value EINVAL, m)
    | some _ => (.value ENOSYS, m)

/-- `write(fd, buf, count)`. -/
def sysWrite (fd buf count : Nat) : Reply × Machine τ :=
  if buf = 0 then (.value EFAULT, m)
  else if asI32 fd = 1 ∨ asI32 fd = 2 then (.value (asI64 count), m)
  else
    match m.callerTable.get (asUsize (asI32 fd)) with
    | some (.vfsFile mountIdx inodeId offset) =>
      match v.write ⟨inodeId, mountIdx, offset, .regular⟩ (readBytes env.mem buf count) m.fsState with
      | (r, file, s) =>
        let m := m.setFsState s
        let m := m.setCallerTable (m.callerTable.updateVfsOffset (asUsize (asI32 fd)) file.offset)
        match r with
        | .ok n => (.value (asI64 n), m)
        | .error _ => (.value EINVAL, m)
    | _ => (.value EBADF, m)

/-- `close(fd)`. -/
def sysClose (fd : Nat) : Reply × Machine τ :=
  if asI32 fd < 3 then (.value EBADF, m)
  else
    match m.callerTable.close (asUsize (asI32 fd)) with
    | (true, t) => (.value 0, m.setCallerTable t)
    | (false, _) => (.value EBADF, m)

/-- `mkdir(path)`. -/
def sysMkdir (path : Nat) : Reply × Machine τ :=
  match readPath env.mem path with
  | .error e => (.value e, m)
  | .ok path =>
    match v.findMount path with
    | none => (.value ENOENT, m)
    | some (idx, _) =>
      match v.resolve (splitLast path).1 m.fsState with
      | (.error _, s) => (.value ENOENT, m.setFsState s)
      | (.ok (_, parent), s) =>
        match v.mounts[idx]? with
        | none => (.value ENOENT, m.setFsState s)
        | some mount =>
          match mount.ops.mkdir s parent (splitLast path).2 with
          | (.ok _, s) => (.value 0, m.setFsState s)
          | (.error _, s) => (.value EINVAL, m.setFsState s)

/-- `unlink(path)`. -/
def sysUnlink (path : Nat) : Reply × Machine τ :=
  match readPath env.mem path with
  | .error e => (.value e, m)
  | .ok path =>
    match v.findMount path with
    | none => (.value ENOENT, m)
    | some (idx, _) =>
      match v.resolve (splitLast path).1 m.fsState with
      | (.error _, s) => (.value ENOENT, m.setFsState s)
      | (.ok (_, parent), s) =>
        match v.mounts[idx]? with
        | none => (.value ENOENT, m.setFsState s)
        | some mount =>
          match mount.ops.unlink s parent (splitLast path).2 with
          | (.ok _, s) => (.value 0, m.setFsState s)
          | (.error _, s) => (.value ENOENT, m.setFsState s)

/-- The type byte of a directory entry. -/
def typeByte : FileType → UInt8
  | .regular => 1
  | .directory => 2
  | .charDevice => 3
  | .blockDevice => 4

/-- What `getdents` stores for one entry at `p`. -/
def direntStores (p : Nat) (e : DirEntry) : List (Nat × List UInt8) :=
  [(p, typeByte e.fileType :: e.name.take 63 ++ [0]), (p + 65, List.replicate 7 0)]

/-- `getdents(path, buf, count)`. -/
def sysGetdents (path buf count : Nat) : Reply × Machine τ :=
  match readPath env.mem path with
  | .error e => (.value e, m)
  | .ok path =>
    if buf = 0 then (.value EFAULT, m)
    else
      match v.readdir path m.fsState with
      | (.error _, s) => (.value ENOTDIR, m.setFsState s)
      | (.ok entries, s) =>
        let shown := entries.take (count / 72)
        (⟨some (asI64 (72 * shown.length)),
          (shown.zipIdx.map fun e => direntStores (buf + 72 * e.2) e.1).flatten⟩, m.setFsState s)

/-- The mode of a file type. -/
def modeOf : FileType → Nat
  | .directory => 0o040000
  | .regular => 0o100000
  | .charDevice => 0o020000
  | .blockDevice => 0o060000

/-- `stat(path, buf)`. -/
def sysStat (path buf : Nat) : Reply × Machine τ :=
  match readPath env.mem path with
  | .error e => (.value e, m)
  | .ok path =>
    if buf = 0 then (.value EFAULT, m)
    else
      match v.resolve path m.fsState with
      | (.error _, s) => (.value ENOENT, m.setFsState s)
      | (.ok (idx, inode), s) =>
        match v.mounts[idx]? with
        | none => (.value ENOENT, m.setFsState s)
        | some mount =>
          (⟨some 0, [(buf, leBytes 8 (mount.ops.size s inode)),
            (buf + 8, leBytes 4 (modeOf (mount.ops.fileType s inode)))]⟩, m.setFsState s)

/-- `chdir(path)`. -/
def sysChdir (path : Nat) : Reply × Machine τ :=
  match readPath env.mem path with
  | .error e => (.value e, m)
  | .ok path =>
    match v.resolve path m.fsState with
    | (.error _, s) => (.value ENOENT, m.setFsState s)
    | (.ok (idx, inode), s) =>
      match v.mounts[idx]? with
      | none => (.value ENOENT, m.setFsState s)
      | some mount =>
        if mount.ops.fileType s inode ≠ .directory then (.value ENOTDIR, m.setFsState s)
        else (.value 0, { m.setFsState s with currentDir := path })

/-- `getcwd(buf, size)`. -/
def sysGetcwd (buf size : Nat) : Reply × Machine τ :=
  if buf = 0 ∨ size = 0 then (.value EFAULT, m)
  else if size < m.currentDir.length + 1 then (.value EINVAL, m)
  else (⟨some 0, [(buf, m.currentDir ++ [0])]⟩, m)

/-! ## Memory and time -/

/-- `mmap(addr, len, prot)`. -/
def sysMmap (len : Nat) : Reply × Machine τ :=
  if len = 0 ∨ 2 ^ 63 - 4096 < len then (.value EINVAL, m)
  else
    match env.heap with
    | none => (.value ENOMEM, m)
    | some p => (.value (asI64 p), m)

/-- `clock_gettime(clk_id, tp)`. -/
def sysClockGettime (clkId tp : Nat) : Reply × Machine τ :=
  if tp = 0 then (.value EFAULT, m)
  else if clkId ≠ 1 then (.value EINVAL, m)
  else (⟨some 0, [(tp, leBytes 8 env.clock.1 ++ leBytes 8 env.clock.2)]⟩, m)

/-! ## Devices -/

/-- `get_framebuffer_info(info_ptr)`. -/
def sysGetFramebufferInfo (infoPtr : Nat) : Reply × Machine τ :=
  if infoPtr = 0 then (.value EFAULT, m)
  else
    match m.devices.graphics with
    | none => (.value ENOSYS, m)
    | some g =>
      (⟨some 0, [(infoPtr, leBytes 8 g.addr ++ leBytes 8 g.width ++ leBytes 8 g.height ++
        leBytes 8 g.stride ++ leBytes 8 g.bytesPerPixel ++ leBytes 8 g.format ++
        leBytes 8 g.bytes.length)]⟩, m)

/-- A copy of `len` bytes from offset `src` of the source to offset `dst` of the
framebuffer. -/
structure RowCopy where
  dst : Nat
  src : Nat
  len : Nat
  deriving DecidableEq, Repr

/-- The copies of the row loop of `fb_commit`, with `n` rows left from `row` up.  Sums
and products wrap. -/
def rowCopies (g : Graphics) (x y w : Nat) : (n row : Nat) → List RowCopy
  | 0, _ => []
  | n + 1, row =>
    let rowBytes := w * g.bytesPerPixel % 2 ^ 64
    let dst := ((y + row) * g.stride + x) * g.bytesPerPixel % 2 ^ 64
    if g.bytes.length < (dst + rowBytes) % 2 ^ 64 then []
    else ⟨dst, row * rowBytes % 2 ^ 64, rowBytes⟩ :: rowCopies g x y w n (row + 1)

/-- The bytes from the start of the framebuffer after a copy. -/
def blitRow (src : Nat) (bytes : List UInt8) (c : RowCopy) : List UInt8 :=
  patch bytes c.dst (readBytes env.mem (src + c.src) c.len)

/-- `fb_commit(buf, x, y, w, h)`. -/
def sysFbCommit (buf x y w h : Nat) : Reply × Machine τ :=
  if buf = 0 then (.value EFAULT, m)
  else if w = 0 ∨ h = 0 then (.value EINVAL, m)
  else
    match m.devices.graphics with
    | none => (.value ENOSYS, m)
    | some g =>
      let xEnd := if x + w < 2 ^ 64 then x + w else g.width
      let yEnd := if y + h < 2 ^ 64 then y + h else g.height
      if g.width ≤ x ∨ g.height ≤ y ∨ g.width < xEnd ∨ g.height < yEnd then (.value EINVAL, m)
      else
        (.value 0, { m with devices := { m.devices with
          graphics := some { g with
            bytes := (rowCopies g x y w h 0).foldl (blitRow env buf) g.bytes } } })

/-- The printable keys: the first scancode of a row, and its characters. -/
def keyRows : List (UInt8 × List UInt8) :=
  [(0x02, [0x31, 0x32, 0x33, 0x34, 0x35, 0x36, 0x37, 0x38, 0x39, 0x30, 0x2D, 0x3D, 0x08, 0x09]),
    (0x10, [0x71, 0x77, 0x65, 0x72, 0x74, 0x79, 0x75, 0x69, 0x6F, 0x70, 0x5B, 0x5D, 0x0A]),
    (0x1E, [0x61, 0x73, 0x64, 0x66, 0x67, 0x68, 0x6A, 0x6B, 0x6C, 0x3B, 0x27, 0x60]),
    (0x2B, [0x5C, 0x7A, 0x78, 0x63, 0x76, 0x62, 0x6E, 0x6D, 0x2C, 0x2E, 0x2F]),
    (0x39, [0x20])]

/-- `scancode_to_ascii`. -/
def scancodeToAscii (sc : UInt8) : Option UInt8 :=
  keyRows.findSome? fun r => if r.1 ≤ sc then r.2[(sc - r.1).toNat]? else none

/-- How the keyboard part of `poll_next` ends. -/
inductive KeyPoll where
  | stuck
  | empty
  | key (sc : UInt8)

/-- The keyboard part of `poll_next`, with the lock of the ring held by a caller
or not; `lock` spins while it is held.  The guard in the condition of an `if let`
lives to the end of the body, where the prefix of an extended key makes
`poll_next` call itself. -/
def pollKey : Nat → (held : Bool) → ScancodeBuffer → KeyPoll × ScancodeBuffer
  | 0, _, b => (.stuck, b)
  | n + 1, held, b =>
    if held then (.stuck, b)
    else
      match b.pop with
      | none => (.empty, b)
      | some (sc, b) => if sc = 0xE0 ∨ sc = 0xE1 then pollKey n true b else (.key sc, b)

/-- The bytes of an `InputEvent`. -/
def inputEvent (eventType keycode keyChar : Nat) (keyPressed mouseButtons : UInt8)
    (mouseDx mouseDy : Int) : List UInt8 :=
  leBytes 4 eventType ++ leBytes 4 keycode ++ leBytes 4 keyChar ++ [keyPressed, mouseButtons] ++
    leBytes 2 (mouseDx % 65536).toNat ++ leBytes 2 (mouseDy % 65536).toNat

/-- `poll_input(event_ptr)`. -/
def sysPollInput (eventPtr : Nat) : Reply × Machine τ :=
  if eventPtr = 0 then (.value EFAULT, m)
  else
    match pollKey 256 false m.devices.scancodes with
    | (.stuck, b) => (⟨none, []⟩, { m with devices := { m.devices with scancodes := b } })
    | (.key sc, b) =>
      let code := sc &&& 0x7F
      (⟨some 1, [(eventPtr, inputEvent 0 code.toNat ((scancodeToAscii code).elim 0 (·.toNat))
        (if sc &&& 0x80 != 0 then 0 else 1) 0 0 0)]⟩,
        { m with devices := { m.devices with scancodes := b } })
    | (.empty, b) =>
      match m.devices.mouse.drain with
      | ((dx, dy, buttons), mouse) =>
        let m := { m with devices := { m.devices with scancodes := b, mouse := mouse } }
        if dx ≠ 0 ∨ dy ≠ 0 ∨ buttons ≠ 0 then
          (⟨some 1, [(eventPtr, inputEvent 1 0 0 0 buttons dx dy)]⟩, m)
        else (.value 0, m)

/-! ## Processes -/

/-- The machine with another kernel state. -/
def onKernel (k : Kernel) : Machine τ := { m with kernel := k }

/-- `kill(pid, signum)`. -/
def sysKill (pid signum : Nat) : Reply × Machine τ :=
  match m.kernel.table.sysKill (pid % 2 ^ 32) (signum % 256) with
  | (r, t) => (.value r, onKernel m { m.kernel with table := t })

/-- `exit(status)`. -/
def sysExit (status : Nat) : Reply × Machine τ :=
  (⟨none, []⟩, onKernel m (m.kernel.sysExit (asI32 status) env.rsp).2)

/-- `exec(path, argv)`. -/
def sysExec (path : Nat) : Reply × Machine τ :=
  if path = 0 then (.value EFAULT, m)
  else
    match cString env.mem path with
    | none => (.value EINVAL, m)
    | some path =>
      if path.head? ≠ some slash then (.value EINVAL, m)
      else
        let path := if validUtf8 path then path else []
        if (path.zip path.tail).any fun b => b.1 == 0x2E && b.2 == 0x2E then (.value EINVAL, m)
        else
          match v.readAll path m.fsState with
          | (.error _, s) => (.value ENOENT, m.setFsState s)
          | (.ok data, s) =>
            let m := m.setFsState s
            if data = [] then (.value ENOENT, m)
            else
              match env.image data with
              | .error e => (.value e, m)
              | .ok (entry, userRsp, cr3) =>
                let k := m.kernel.execReplace env.stackTop entry userRsp cr3 (splitLast path).2
                (⟨none, []⟩, onKernel m (k.restartCurrent env.rsp).2)

/-- What `getprocs` stores for one process at `p`. -/
def procStore (p : Nat) (proc : Process) : Nat × List UInt8 :=
  let state : Nat := match proc.state with
    | .free => 0
    | .ready => 1
    | .running => 2
    | .blocked => 3
    | .zombie => 4
  (p, leBytes 8 proc.pid ++ leBytes 8 proc.parentPid ++ leBytes 8 state ++ proc.name)

/-- `getprocs(buf, count)`. -/
def sysGetprocs (buf count : Nat) : Reply × Machine τ :=
  if buf = 0 then (.value EFAULT, m)
  else
    let procs := ((List.finRange MAX_PROCESSES).map m.kernel.table.processes).filter
      fun p => p.pid ≠ 0
    let shown := procs.take count
    (⟨some (asI64 shown.length), shown.zipIdx.map fun p => procStore (buf + 40 * p.2) p.1⟩, m)

/-- `fork()`. -/
def sysFork : Reply × Machine τ :=
  match m.kernel.forkProcess env.childCr3 env.userRsp with
  | (.error e, k) => (.value e, onKernel m k)
  | (.ok (pid, slot), k) => (.value pid, onKernel m (k.buildChildStack env.stackTop slot))

/-- `waitpid(pid, status_ptr)`, one round. -/
def sysWaitpid (pid statusPtr : Nat) : Reply × Machine τ :=
  match m.kernel.sysWaitpid pid env.rsp with
  | (.reaped child code, k) =>
    (⟨some child, if statusPtr = 0 then [] else [(statusPtr, leBytes 4 (code % 2 ^ 32).toNat)]⟩,
      onKernel m k)
  | (.waiting, k) => (⟨none, []⟩, onKernel m k)
  | (.noChild, k) => (.value ECHILD, onKernel m k)

/-- `getppid()`. -/
def sysGetppid : Reply × Machine τ :=
  let pid := m.kernel.table.currentPid
  (.value (if pid = 0 then 0 else (m.kernel.table.get pid).elim 0 (·.parentPid)), m)

/-! ## Dispatch -/

/-- The arguments of a call: its number and `arg0` to `arg4`. -/
structure Call where
  num : Nat
  arg0 : Nat
  arg1 : Nat
  arg2 : Nat
  arg3 : Nat
  arg4 : Nat

/-- The call behind a number. -/
def perform (c : Call) : SyscallNum → Reply × Machine τ
  | .open => sysOpen v env m c.arg0 (c.arg1 % 2 ^ 32)
  | .read => sysRead v env m c.arg0 c.arg1 c.arg2
  | .write => sysWrite v env m c.arg0 c.arg1 c.arg2
  | .mmap => sysMmap env m c.arg1
  | .nanosleep => (.value 0, m)
  | .clockGettime => sysClockGettime env m c.arg0 c.arg1
  | .getFramebufferInfo => sysGetFramebufferInfo m c.arg0
  | .fbCommit => sysFbCommit env m c.arg0 c.arg1 c.arg2 c.arg3 c.arg4
  | .pollInput => sysPollInput m c.arg0
  | .kill => sysKill m c.arg0 c.arg1
  | .exit => sysExit env m c.arg0
  | .exec => sysExec v env m c.arg0
  | .getdents => sysGetdents v env m c.arg0 c.arg1 c.arg2
  | .getprocs => sysGetprocs m c.arg0 c.arg1
  | .getpid => (.value m.kernel.table.currentPid, m)
  | .close => sysClose m c.arg0
  | .mkdir => sysMkdir v env m c.arg0
  | .unlink => sysUnlink v env m c.arg0
  | .stat => sysStat v env m c.arg0 c.arg1
  | .chdir => sysChdir v env m c.arg0
  | .getcwd => sysGetcwd m c.arg0 c.arg1
  | .fork => sysFork env m
  | .waitpid => sysWaitpid env m c.arg0 c.arg1
  | .getppid => sysGetppid m

/-- `dispatch`. -/
def dispatch (c : Call) : Reply × Machine τ :=
  match SyscallNum.fromU64 c.num with
  | none => (.value ENOSYS, m)
  | some num =>
    match num.resource with
    | none => perform v env m c num
    | some r =>
      if checkPermission m.kernel.table m.kernel.table.currentPid r then perform v env m c num
      else (.value EPERM, m)

end calls

end AeroOS.Syscalls
