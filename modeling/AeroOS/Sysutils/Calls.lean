import AeroOS.Syscalls.Offsets
import AeroOS.Syscalls.Utf8
import AeroOS.Wm.FramebufferInfo
import Mathlib.Data.List.GetD

/-!
# The system calls of the commands

`sysutils/src/syscalls.rs`: a command makes its calls with `int 0x80`, in its own memory.
`Session` is a command between two calls, with what it has made `sys_write` print so far.

* `syscall3` is a call through `dispatch`.  A slice that is printed is given by its bytes, and
  `syscall3_write` says that this is the call with any pointer to them.
* `readPath_pathCstr`: the kernel reads the path that the wrapper has copied.
* `openFile_eq`, `read_eq` and `write_eq`: what the calls do on a file whose reads are slices
  of its contents (`ReadsAs`).
-/

namespace AeroOS.Sysutils

open Bytes Fs
open AeroOS.Syscalls
open Wm (afterStores)

def SYS_OPEN : Nat := 1
def SYS_READ : Nat := 2
def SYS_WRITE : Nat := 3
def SYS_CLOSE : Nat := 14
def SYS_GETDENTS : Nat := 23
def ENAMETOOLONG : Int := -28

/-- The bytes of an ASCII literal. -/
def ascii (s : String) : List UInt8 := s.toList.map fun c => c.toNat.toUInt8

/-- Whether all bytes of a list pass a test is decided on these bytes, not on all bytes. -/
instance decidableForallMem {p : UInt8 → Prop} [DecidablePred p] (s : List UInt8) :
    Decidable (∀ b ∈ s, p b) :=
  List.decidableBAll p s

/-! ## Printing -/

/-- `core::str::from_utf8(slice).unwrap_or("<utf8 error>")`. -/
def printed (slice : List UInt8) : List UInt8 :=
  if validUtf8 slice then slice else ascii "<utf8 error>"

/-- What `sys_write` gives to `serial::_print`. -/
def serialText (mem : Store) (fd buf count : Nat) : List UInt8 :=
  if buf = 0 then []
  else if asI32 fd = 1 ∨ asI32 fd = 2 then printed (readBytes mem buf count)
  else []

theorem printed_length_le (slice : List UInt8) : (printed slice).length ≤ max slice.length 12 := by
  unfold printed
  split
  · exact Nat.le_max_left _ _
  · exact Nat.le_max_right _ _

/-! ## The calls -/

/-- A command between two calls. -/
structure Session (τ : Type) where
  /-- The memory of its process. -/
  mem : Store
  machine : Machine τ
  /-- What `serial::_print` has got from `sys_write`. -/
  serial : List UInt8

section calls

variable {τ : Type} (v : Vfs (Devices × τ)) (env : Env)

/-- `syscall3`: the value, if the call returns, and the session after it. -/
def syscall3 (n a b c : Nat) (s : Session τ) : Option Int × Session τ :=
  let r := dispatch v { env with mem := s.mem } s.machine ⟨n, a, b, c, 0, 0⟩
  let serial := if n = SYS_WRITE then s.serial ++ serialText s.mem a b c else s.serial
  (r.1.ret, ⟨afterStores s.mem r.1.stores, r.2, serial⟩)

/-- `path_cstr`: the scratch array with the path in it. -/
def pathCstr (path : List UInt8) : Option (List UInt8) :=
  if 128 ≤ path.length then none else some (patch (List.replicate 128 0) 0 path)

/-- `open`.  The scratch array is at `scratch`. -/
def openFile (scratch : Nat) (path : List UInt8) (flags : Nat) (s : Session τ) :
    Option Int × Session τ :=
  match pathCstr path with
  | none => (some ENAMETOOLONG, s)
  | some p => syscall3 v env SYS_OPEN scratch flags 0 { s with mem := writeBytes s.mem scratch p }

/-- `read` into the `len` bytes at `buf`. -/
def read (fd : Int) (buf len : Nat) (s : Session τ) : Option Int × Session τ :=
  syscall3 v env SYS_READ (asUsize fd) buf len s

/-- `close`. -/
def close (fd : Int) (s : Session τ) : Option Int × Session τ :=
  syscall3 v env SYS_CLOSE (asUsize fd) 0 0 s

/-- `getdents` into the `count` bytes at `buf`. -/
def getdents (scratch : Nat) (path : List UInt8) (buf count : Nat) (s : Session τ) :
    Option Int × Session τ :=
  match pathCstr path with
  | none => (some ENAMETOOLONG, s)
  | some p =>
    syscall3 v env SYS_GETDENTS scratch buf count { s with mem := writeBytes s.mem scratch p }

variable {v env}

/-- `write(1, slice)`. -/
def write (slice : List UInt8) (s : Session τ) : Int × Session τ :=
  if slice = [] then (0, s)
  else (asI64 slice.length, { s with serial := s.serial ++ printed slice })

/-- `print`, and `print_str` of a literal. -/
def print (slice : List UInt8) (s : Session τ) : Session τ := (write slice s).2

/-- `println`. -/
def println (slice : List UInt8) (s : Session τ) : Session τ := print (ascii "\n") (print slice s)

/-! ### What they do -/

/-- Printing a slice is the call with any pointer to its bytes. -/
theorem syscall3_write {slice : List UInt8} (hne : slice ≠ []) {p : Nat} (hp : p ≠ 0)
    {s : Session τ} (hmem : readBytes s.mem p slice.length = slice) :
    syscall3 v env SYS_WRITE 1 p slice.length s = (some (write slice s).1, (write slice s).2) := by
  have hone : asI32 1 = 1 := by decide
  have hwrite : dispatch v { env with mem := s.mem } s.machine
      ⟨SYS_WRITE, 1, p, slice.length, 0, 0⟩ = (.value (asI64 slice.length), s.machine) := by
    show sysWrite v { env with mem := s.mem } s.machine 1 p slice.length = _
    rw [sysWrite, if_neg hp, if_pos (Or.inl hone)]
  rw [syscall3, hwrite, write, if_neg hne, if_pos rfl, serialText, if_neg hp, if_pos (Or.inl hone),
    hmem]
  rfl

theorem write_eq {slice : List UInt8} (hlt : slice.length < 2 ^ 63) (s : Session τ) :
    write slice s = ((slice.length : Int), { s with serial := s.serial ++ printed slice }) := by
  unfold write
  split
  · rename_i hnil
    rw [hnil, show printed [] = [] from rfl, List.append_nil]
    rfl
  · rw [asI64_of_lt hlt]

theorem print_eq (slice : List UInt8) (s : Session τ) :
    print slice s = { s with serial := s.serial ++ printed slice } := by
  unfold print write
  split
  · rename_i hnil
    rw [hnil, show printed [] = [] from rfl, List.append_nil]
  · rfl

/-! ### Paths -/

/-- The path in the scratch array is a string that ends with the first zero. -/
theorem readPath_pathCstr {path p : List UInt8} (hp : pathCstr path = some p)
    (hutf8 : validUtf8 path = true) (hnul : (0 : UInt8) ∉ path) (mem : Store) {scratch : Nat}
    (hscratch : scratch ≠ 0) : readPath (writeBytes mem scratch p) scratch = .ok path := by
  unfold pathCstr at hp
  split at hp
  · cases hp
  rename_i hlen
  obtain rfl := Option.some.inj hp
  have hbyte : ∀ k < 128, writeBytes mem scratch (patch (List.replicate 128 0) 0 path)
      (scratch + k) = path.getD k 0 := by
    intro k hk
    have hplen : (patch (List.replicate 128 0) 0 path).length = 128 := by
      rw [patch_length (by rw [List.length_replicate]; omega), List.length_replicate]
    rw [writeBytes_in _ _ (by rw [hplen]; exact hk)]
    by_cases hin : k < path.length
    · have h := patch_getD_in (l := List.replicate 128 0) (o := 0) (Nat.zero_le _) hin 0
      rwa [Nat.zero_add] at h
    · rw [patch_getD_out (by rw [List.length_replicate]; omega) (Or.inr (by omega)),
        List.getD_replicate 0 hk, List.getD_eq_default _ _ (Nat.le_of_not_lt hin)]
  have hend : ((List.range 256).find? fun k =>
      writeBytes mem scratch (patch (List.replicate 128 0) 0 path) (scratch + k) == 0) =
        some path.length := by
    refine List.find?_range_eq_some.2 ⟨?_, List.mem_range.2 (by omega), fun k hk => ?_⟩
    · rw [hbyte _ (by omega), List.getD_eq_default _ _ (Nat.le_refl _)]
      rfl
    · rw [hbyte k (by omega), List.getD_eq_getElem _ _ hk]
      have hne : path[k] ≠ 0 := fun h0 => hnul (h0 ▸ List.getElem_mem hk)
      simpa using hne
  have hbytes : readBytes (writeBytes mem scratch (patch (List.replicate 128 0) 0 path)) scratch
      path.length = path :=
    readBytes_eq_of_getD rfl fun k hk => hbyte k (by omega)
  rw [readPath, if_neg hscratch, cString, hend, Option.map_some]
  simp only [hbytes]
  rw [if_pos hutf8]

/-! ### Files -/

/-- The reads of an inode are slices of its contents, and change nothing. -/
def ReadsAs {σ : Type} (ops : FileOps σ) (s : σ) (id : Nat) (bytes : List UInt8) : Prop :=
  ∀ offset buf, buf.length < 2 ^ 63 → ops.read s id offset buf =
    (.ok (min buf.length (bytes.length - offset), (bytes.drop offset).take buf.length ++
      buf.drop (min buf.length (bytes.length - offset))), s)

/-- The descriptor is open on a file with these contents, of which `offset` bytes are read. -/
structure OpenOn (v : Vfs (Devices × τ)) (s : Session τ) (bytes : List UInt8) (fd offset : Nat) :
    Prop where
  pos : 0 < fd
  lt : fd < MAX_FDS
  file : ∃ mountIdx inodeId mount,
    s.machine.callerTable.get fd = some (.vfsFile mountIdx inodeId offset) ∧
      v.mounts[mountIdx]? = some mount ∧ ReadsAs mount.ops s.machine.fsState inodeId bytes

/-- Only `write` prints. -/
theorem syscall3_eq {n a b c : Nat} (hn : n ≠ SYS_WRITE) {s : Session τ} {r : Reply}
    {m : Machine τ}
    (h : dispatch v { env with mem := s.mem } s.machine ⟨n, a, b, c, 0, 0⟩ = (r, m)) :
    syscall3 v env n a b c s = (r.ret, ⟨afterStores s.mem r.stores, m, s.serial⟩) := by
  rw [syscall3, h, if_neg hn]

theorem close_serial (fd : Int) (s : Session τ) : (close v env fd s).2.serial = s.serial := by
  rw [close, syscall3, if_neg (by decide)]

/-- `open` of a path to a file gives a descriptor of the file. -/
theorem openFile_eq {path bytes : List UInt8} (hlen : path.length < 128)
    (hutf8 : validUtf8 path = true) (hnul : (0 : UInt8) ∉ path) {scratch : Nat}
    (hscratch : scratch ≠ 0) {s : Session τ} {file : VfsFile} {st : Devices × τ}
    {mount : Mount (Devices × τ)}
    (hopen : v.openPath path false s.machine.fsState = (.ok file, st))
    (hmount : v.mounts[file.mountIdx]? = some mount)
    (hreads : ReadsAs mount.ops st file.inodeId bytes)
    (hfree : (s.machine.callerTable.alloc (.vfsFile file.mountIdx file.inodeId 0)).isSome) :
    ∃ (fd : Nat) (s' : Session τ), openFile v env scratch path 0 s = (some (fd : Int), s') ∧
      OpenOn v s' bytes fd 0 ∧ s'.serial = s.serial := by
  obtain ⟨⟨fd, t⟩, halloc⟩ := Option.isSome_iff_exists.1 hfree
  have hget := FdTable.alloc_get halloc (by simp) fd
  rw [if_pos rfl] at hget
  have hfd : fd < MAX_FDS := FdTable.lt_of_get hget.2.2
  obtain ⟨p, hp⟩ : ∃ p, pathCstr path = some p := ⟨_, if_neg (by omega)⟩
  let start : Session τ := { s with mem := writeBytes s.mem scratch p }
  have hdispatch : dispatch v { env with mem := start.mem } start.machine
      ⟨SYS_OPEN, scratch, 0, 0, 0, 0⟩ =
        (.value fd, (s.machine.setFsState st).setCallerTable t) := by
    show sysOpen v { env with mem := start.mem } s.machine scratch (0 % 2 ^ 32) = _
    rw [sysOpen, readPath_pathCstr hp hutf8 hnul s.mem hscratch]
    simp only [Nat.zero_mod, Nat.zero_testBit, hopen, Machine.callerTable_setFsState, halloc]
  refine ⟨fd, ⟨start.mem, (s.machine.setFsState st).setCallerTable t, s.serial⟩, ?_, ?_, rfl⟩
  · rw [openFile, hp]
    exact syscall3_eq (by decide) hdispatch
  · refine ⟨by omega, hfd, file.mountIdx, file.inodeId, mount, ?_, hmount, ?_⟩
    · show ((s.machine.setFsState st).setCallerTable t).callerTable.get fd = _
      rw [Machine.callerTable_setCallerTable]
      exact hget.2.2
    · show ReadsAs mount.ops ((s.machine.setFsState st).setCallerTable t).fsState _ _
      rw [Machine.fsState_setCallerTable]
      exact hreads

/-- `read` puts the next bytes of the file at `buf`. -/
theorem read_eq {s : Session τ} {bytes : List UInt8} {fd offset : Nat}
    (h : OpenOn v s bytes fd offset) {buf len : Nat} (hbuf : buf ≠ 0) (hlen : len < 2 ^ 63) :
    ∃ s', read v env fd buf len s = (some ((min len (bytes.length - offset) : Nat) : Int), s') ∧
      readBytes s'.mem buf (min len (bytes.length - offset)) = (bytes.drop offset).take len ∧
      OpenOn v s' bytes fd (offset + min len (bytes.length - offset)) ∧ s'.serial = s.serial := by
  obtain ⟨hpos, hlt, mountIdx, inodeId, mount, hget, hmount, hreads⟩ := h
  set n := min len (bytes.length - offset) with hn
  have hfd := asI32_asUsize hlt
  have hread : v.read ⟨inodeId, mountIdx, offset, .regular⟩ (readBytes s.mem buf len)
      s.machine.fsState = (.ok (n, (bytes.drop offset).take len ++ (readBytes s.mem buf len).drop n),
        ⟨inodeId, mountIdx, offset + n, .regular⟩, s.machine.fsState) := by
    have hslice := hreads offset (readBytes s.mem buf len) (by rwa [readBytes_length])
    rw [readBytes_length, ← hn] at hslice
    rw [Vfs.read, hmount]
    simp only [hslice]
  have hdispatch : dispatch v { env with mem := s.mem } s.machine
      ⟨SYS_READ, asUsize fd, buf, len, 0, 0⟩ =
        (⟨some (asI64 n), [(buf, (bytes.drop offset).take len ++
          (readBytes s.mem buf len).drop n)]⟩,
          s.machine.setCallerTable (s.machine.callerTable.updateVfsOffset fd (offset + n))) := by
    show sysRead v { env with mem := s.mem } s.machine (asUsize fd) buf len = _
    rw [sysRead, if_neg hbuf, hfd, if_neg (by omega), asUsize_natCast (by unfold MAX_FDS at hlt; omega),
      hget]
    simp only [hread]
    rfl
  have hlen' : ((bytes.drop offset).take len).length = n := by
    rw [List.length_take, List.length_drop]
  refine ⟨⟨writeBytes s.mem buf ((bytes.drop offset).take len ++ (readBytes s.mem buf len).drop n),
    s.machine.setCallerTable (s.machine.callerTable.updateVfsOffset fd (offset + n)), s.serial⟩,
    ?_, ?_, ?_, rfl⟩
  · rw [read, syscall3_eq (by decide) hdispatch, asI64_of_lt (by omega)]
    rfl
  · rw [← hlen']
    exact readBytes_writeBytes_append _ _ _ _
  · refine ⟨hpos, hlt, mountIdx, inodeId, mount, ?_, hmount, ?_⟩
    · show (s.machine.setCallerTable _).callerTable.get fd = _
      rw [Machine.callerTable_setCallerTable, FdTable.updateVfsOffset_get hget, if_pos rfl]
    · show ReadsAs mount.ops (s.machine.setCallerTable _).fsState _ _
      rw [Machine.fsState_setCallerTable]
      exact hreads

end calls

end AeroOS.Sysutils
