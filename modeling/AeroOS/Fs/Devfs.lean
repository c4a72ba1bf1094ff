import AeroOS.Fs.Vfs
import AeroOS.Ata

/-!
# The device filesystem

`fs/devfs.rs`, with the devices behind it: the scancode ring of
`interrupts/mod.rs`, the mouse state and the framebuffer of `graphics/mod.rs`.

* `ScancodeBuffer.pending` is the queue that the ring stands for; `pending_push`
  and `pop_eq_some` are its two operations on that queue.
* `Devfs.ops` is the filesystem on the devices and on the state `τ` of the rest,
  which holds the disk.
* `Filesystem` is a mounted filesystem: this one, or one on the rest alone.  Both
  keep the devices in the operations on names (`Filesystem.keeps_devices`);
  `read_devices` and `write_devices` are the files that do not.
-/

namespace AeroOS.Fs

open Bytes Ata

/-! ## Scancodes -/

/-- The ring buffer for scancodes. -/
structure ScancodeBuffer where
  buf : Fin 256 → UInt8
  /-- Write cursor. -/
  head : Fin 256
  /-- Read cursor. -/
  tail : Fin 256

namespace ScancodeBuffer

/-- The empty ring. -/
def new : ScancodeBuffer := ⟨fun _ => 0, 0, 0⟩

/-- `push`: a full ring drops the byte. -/
def push (b : ScancodeBuffer) (byte : UInt8) : ScancodeBuffer :=
  if b.head + 1 = b.tail then b
  else { b with buf := Function.update b.buf b.head byte, head := b.head + 1 }

/-- `pop`. -/
def pop (b : ScancodeBuffer) : Option (UInt8 × ScancodeBuffer) :=
  if b.head = b.tail then none else some (b.buf b.tail, { b with tail := b.tail + 1 })

/-- The bytes that are waiting, the oldest first. -/
def pending (b : ScancodeBuffer) : List UInt8 :=
  (List.range (b.head - b.tail).val).map fun k => b.buf (b.tail + Fin.ofNat 256 k)

/-- `pop` in a loop, at most `n` times. -/
def drain : Nat → ScancodeBuffer → List UInt8 × ScancodeBuffer
  | 0, b => ([], b)
  | n + 1, b =>
    match b.pop with
    | none => ([], b)
    | some (sc, b) => ((drain n b).1.cons sc, (drain n b).2)

theorem pending_new : new.pending = [] := rfl

/-- A byte is taken from the front of the queue. -/
theorem pop_eq_some {b b' : ScancodeBuffer} {sc : UInt8} (h : b.pop = some (sc, b')) :
    b.pending = sc :: b'.pending := by
  unfold pop at h
  split at h
  · cases h
  · rename_i hne
    obtain ⟨rfl, rfl⟩ := Prod.mk.inj (Option.some.inj h)
    have hlen : (b.head - b.tail).val = (b.head - (b.tail + 1)).val + 1 := by
      have := b.head.isLt
      have := b.tail.isLt
      have hval : b.head.val ≠ b.tail.val := fun h => hne (Fin.ext h)
      simp only [Fin.val_sub, Fin.val_add, Fin.val_one]
      omega
    rw [pending, hlen, List.range_succ_eq_map, List.map_cons, List.map_map]
    refine congrArg₂ _ (congrArg b.buf (Fin.ext ?_)) (List.map_congr_left fun k _ => ?_)
    · simp
    · refine congrArg b.buf (Fin.ext ?_)
      simp only [Fin.val_add, Fin.val_ofNat, Fin.val_one]
      omega

theorem pending_of_pop_none {b : ScancodeBuffer} (h : b.pop = none) : b.pending = [] := by
  unfold pop at h
  split at h
  · rename_i heq
    simp [pending, heq]
  · cases h

/-- A byte is put behind the queue, or dropped. -/
theorem pending_push (b : ScancodeBuffer) (byte : UInt8) :
    (b.push byte).pending = if b.head + 1 = b.tail then b.pending else b.pending ++ [byte] := by
  unfold push
  split
  · rfl
  · rename_i hne
    have hhead := b.head.isLt
    have htail := b.tail.isLt
    have hfull : (b.head.val + 1) % 256 ≠ b.tail.val := fun h =>
      hne (Fin.ext (by simpa [Fin.val_add] using h))
    have hlen : (b.head + 1 - b.tail).val = (b.head - b.tail).val + 1 := by
      simp only [Fin.val_sub, Fin.val_add, Fin.val_one]
      omega
    have hcount : (b.head - b.tail).val < 255 := by
      simp only [Fin.val_sub]
      omega
    simp only [pending, hlen]
    rw [List.range_succ, List.map_append, List.map_singleton]
    refine congrArg₂ _ (List.map_congr_left fun k hk => ?_) (congrArg (· :: []) ?_)
    · have hk := List.mem_range.1 hk
      have hslot : b.tail + Fin.ofNat 256 k ≠ b.head := fun h => by
        have hval := congrArg Fin.val h
        simp only [Fin.val_add, Fin.val_ofNat] at hval
        simp only [Fin.val_sub] at hk
        omega
      exact Function.update_of_ne hslot _ _
    · have hslot : b.tail + Fin.ofNat 256 (b.head - b.tail).val = b.head := Fin.ext (by
        simp only [Fin.val_add, Fin.val_ofNat, Fin.val_sub]
        omega)
      rw [hslot, Function.update_self]

end ScancodeBuffer

/-! ## The devices -/

/-- The mouse movement since the last poll, and the buttons. -/
structure MouseState where
  dx : Int
  dy : Int
  buttons : UInt8

/-- Drain accumulated movement; the buttons stay. -/
def MouseState.drain (m : MouseState) : (Int × Int × UInt8) × MouseState :=
  ((m.dx, m.dy, m.buttons), { m with dx := 0, dy := 0 })

/-- The framebuffer: where it is mapped, its bytes and its format. -/
structure Graphics where
  addr : Nat
  bytes : List UInt8
  width : Nat
  height : Nat
  stride : Nat
  bytesPerPixel : Nat
  format : Nat

/-- The devices that processes share. -/
structure Devices where
  graphics : Option Graphics
  scancodes : ScancodeBuffer
  mouse : MouseState

/-- Where a state holds the disk. -/
structure DiskIn (τ : Type) where
  get : τ → Disk
  put : Disk → τ → τ
  totalSectors : τ → Nat

namespace Devfs

/-- `DevKind`. -/
inductive DevKind where
  | blockDisk | keyboard | serial | framebuffer
  deriving DecidableEq, Repr

def DIR_INODE : Nat := 1
def HDA_INODE : Nat := 2
def KBD_INODE : Nat := 3
def SERIAL_INODE : Nat := 4
def FB_INODE : Nat := 5

/-- The device tree, `Devfs::new`. -/
def devs : List (Nat × Path × DevKind) :=
  [(HDA_INODE, [0x68, 0x64, 0x61], .blockDisk),
    (KBD_INODE, [0x6B, 0x62, 0x64], .keyboard),
    (SERIAL_INODE, [0x73, 0x65, 0x72, 0x69, 0x61, 0x6C], .serial),
    (FB_INODE, [0x66, 0x72, 0x61, 0x6D, 0x65, 0x62, 0x75, 0x66, 0x66, 0x65, 0x72], .framebuffer)]

/-- The device of an inode. -/
def kindOf (inode : Nat) : Option DevKind :=
  (devs.find? fun d => d.1 == inode).map (·.2.2)

/-- The bytes of the disk from `pos` up, `left` of them, up to the first sector that
cannot be read. -/
def hdaBytes (d : Disk) (pos left : Nat) : List UInt8 :=
  if _h : 0 < left then
    match readSectors d (pos / 512) 512 with
    | none => []
    | some sector =>
      let take := min (512 - pos % 512) left
      (sector.drop (pos % 512)).take take ++ hdaBytes d (pos + take) (left - take)
  else []
termination_by left

variable {τ : Type} (disk : DiskIn τ)

/-- `read`. -/
def read (s : Devices × τ) (inode offset : Nat) (buf : List UInt8) :
    Except String (Nat × List UInt8) × Devices × τ :=
  match kindOf inode with
  | none => (.error "device not found", s)
  | some .blockDisk =>
    let bytes := hdaBytes (disk.get s.2) offset buf.length
    (.ok (bytes.length, patch buf 0 bytes), s)
  | some .keyboard =>
    match s.1.scancodes.drain buf.length with
    | (bytes, scancodes) =>
      (.ok (bytes.length, patch buf 0 bytes), { s.1 with scancodes := scancodes }, s.2)
  | some .serial => (.ok (0, buf), s)
  | some .framebuffer =>
    match s.1.graphics with
    | none => (.ok (0, buf), s)
    | some g =>
      let start := min offset g.bytes.length
      let stop := min (offset + buf.length) g.bytes.length
      (.ok (stop - start, patch buf 0 ((g.bytes.drop start).take (stop - start))), s)

/-- `write`. -/
def write (s : Devices × τ) (inode offset : Nat) (buf : List UInt8) :
    Except String Nat × Devices × τ :=
  match kindOf inode with
  | none => (.error "device not found", s)
  | some .blockDisk =>
    if offset % 512 ≠ 0 then (.error "unaligned block write", s)
    else
      match writeSectors (disk.get s.2) (offset / 512) buf with
      | (ok, d) =>
        (if ok then .ok buf.length else .error "ata write failed", s.1, disk.put d s.2)
  | some .serial => (.ok buf.length, s)
  | some .keyboard => (.error "not writable", s)
  | some .framebuffer =>
    match s.1.graphics with
    | none => (.ok 0, s)
    | some g =>
      let start := min offset g.bytes.length
      let n := min (g.bytes.length - start) buf.length
      (.ok n, { s.1 with
        graphics := some { g with bytes := patch g.bytes start (buf.take n) } }, s.2)

/-- `size`. -/
def size (s : Devices × τ) (inode : Nat) : Nat :=
  if inode = HDA_INODE then disk.totalSectors s.2 * 512
  else if inode = FB_INODE then s.1.graphics.elim 0 (·.bytes.length)
  else 0

/-- `devfs` as a mounted filesystem. -/
def ops : FileOps (Devices × τ) where
  read := read disk
  write := write disk
  size := size disk
  fileType _ inode := if inode = DIR_INODE then .directory else .charDevice
  readdir s _ :=
    (.ok (devs.map fun d =>
      ⟨d.2.1, d.1, if d.2.2 = .blockDisk then .blockDevice else .charDevice⟩), s)
  lookup s dir name :=
    if dir ≠ DIR_INODE then (.error "not a directory", s)
    else
      match devs.find? fun d => d.2.1 == name with
      | none => (.error "device not found", s)
      | some d => (.ok d.1, s)
  create s _ _ := (.error "cannot create devices", s)
  mkdir s _ _ := (.error "cannot create directories in devfs", s)
  truncate s _ _ := (.error "cannot truncate devices", s)
  unlink s _ _ := (.error "cannot remove devices", s)

end Devfs

/-! ## Filesystems beside the devices -/

/-- A filesystem on the rest of the state. -/
def FileOps.onRest {τ : Type} (ops : FileOps τ) : FileOps (Devices × τ) where
  read s id offset buf := ((ops.read s.2 id offset buf).1, s.1, (ops.read s.2 id offset buf).2)
  write s id offset buf := ((ops.write s.2 id offset buf).1, s.1, (ops.write s.2 id offset buf).2)
  size s id := ops.size s.2 id
  fileType s id := ops.fileType s.2 id
  readdir s id := ((ops.readdir s.2 id).1, s.1, (ops.readdir s.2 id).2)
  lookup s id name := ((ops.lookup s.2 id name).1, s.1, (ops.lookup s.2 id name).2)
  create s id name := ((ops.create s.2 id name).1, s.1, (ops.create s.2 id name).2)
  mkdir s id name := ((ops.mkdir s.2 id name).1, s.1, (ops.mkdir s.2 id name).2)
  truncate s id size := ((ops.truncate s.2 id size).1, s.1, (ops.truncate s.2 id size).2)
  unlink s id name := ((ops.unlink s.2 id name).1, s.1, (ops.unlink s.2 id name).2)

/-- A mounted filesystem. -/
inductive Filesystem (τ : Type) where
  | devfs
  | other (ops : FileOps τ)

namespace Filesystem

variable {τ : Type} (disk : DiskIn τ)

def ops : Filesystem τ → FileOps (Devices × τ)
  | .devfs => Devfs.ops disk
  | .other ops => ops.onRest

/-- The mount table of these filesystems. -/
def vfs (mounts : List (Path × Nat × Filesystem τ)) : Vfs (Devices × τ) where
  mounts := mounts.map fun m => ⟨m.1, m.2.1, m.2.2.ops disk⟩

/-- The operations on names keep the devices. -/
theorem keeps_devices (fs : Filesystem τ) : (fs.ops disk).Keeps Prod.fst := by
  cases fs with
  | other ops => exact ⟨fun _ _ => rfl, fun _ _ _ => rfl, fun _ _ _ => rfl, fun _ _ _ => rfl,
      fun _ _ _ => rfl⟩
  | devfs =>
    refine ⟨fun _ _ => rfl, fun s dir name => ?_, fun _ _ _ => rfl, fun _ _ _ => rfl,
      fun _ _ _ => rfl⟩
    simp only [ops, Devfs.ops]
    split
    · rfl
    · split <;> rfl

theorem vfs_keeps_devices (mounts : List (Path × Nat × Filesystem τ)) :
    (vfs disk mounts).Keeps Prod.fst := by
  intro m hm
  obtain ⟨n, -, rfl⟩ := List.mem_map.1 hm
  exact keeps_devices disk n.2.2

/-- A file other than the keyboard is read without an effect on the devices. -/
theorem read_devices {fs : Filesystem τ} {inode : Nat}
    (h : ¬ (fs = .devfs ∧ Devfs.kindOf inode = some .keyboard)) (s : Devices × τ) (offset : Nat)
    (buf : List UInt8) : ((fs.ops disk).read s inode offset buf).2.1 = s.1 := by
  cases fs with
  | other ops => rfl
  | devfs =>
    simp only [ops, Devfs.ops, Devfs.read]
    cases hk : Devfs.kindOf inode with
    | none => rfl
    | some kind =>
      cases kind with
      | keyboard => exact absurd ⟨rfl, hk⟩ h
      | blockDisk => rfl
      | serial => rfl
      | framebuffer => cases s.1.graphics <;> rfl

/-- Reading nothing has no effect on the devices. -/
theorem read_devices_nil (fs : Filesystem τ) (inode : Nat) (s : Devices × τ) (offset : Nat) :
    ((fs.ops disk).read s inode offset []).2.1 = s.1 := by
  by_cases h : fs = .devfs ∧ Devfs.kindOf inode = some .keyboard
  · obtain ⟨rfl, hk⟩ := h
    simp only [ops, Devfs.ops, Devfs.read, hk]
    rfl
  · exact read_devices disk h s offset []

/-- A file other than the framebuffer is written without an effect on the devices. -/
theorem write_devices {fs : Filesystem τ} {inode : Nat}
    (h : ¬ (fs = .devfs ∧ Devfs.kindOf inode = some .framebuffer)) (s : Devices × τ) (offset : Nat)
    (buf : List UInt8) : ((fs.ops disk).write s inode offset buf).2.1 = s.1 := by
  cases fs with
  | other ops => rfl
  | devfs =>
    simp only [ops, Devfs.ops, Devfs.write]
    cases hk : Devfs.kindOf inode with
    | none => rfl
    | some kind =>
      cases kind with
      | framebuffer => exact absurd ⟨rfl, hk⟩ h
      | keyboard => rfl
      | serial => rfl
      | blockDisk =>
        simp only
        split <;> rfl

/-- Writing nothing has no effect on the devices. -/
theorem write_devices_nil (fs : Filesystem τ) (inode : Nat) (s : Devices × τ) (offset : Nat) :
    ((fs.ops disk).write s inode offset []).2.1 = s.1 := by
  by_cases h : fs = .devfs ∧ Devfs.kindOf inode = some .framebuffer
  · obtain ⟨rfl, hk⟩ := h
    simp only [ops, Devfs.ops, Devfs.write, hk]
    cases hg : s.1.graphics with
    | none => rfl
    | some g =>
      simp only [List.take_nil, patch_nil]
      exact congrArg (Devices.mk · s.1.scancodes s.1.mouse) hg.symm
  · exact write_devices disk h s offset []

/-- The keyboard has no size, so a whole-file read of it takes nothing. -/
theorem size_keyboard {inode : Nat} (h : Devfs.kindOf inode = some .keyboard)
    (s : Devices × τ) : ((devfs : Filesystem τ).ops disk).size s inode = 0 := by
  have hhda : inode ≠ Devfs.HDA_INODE := by
    rintro rfl
    cases h
  have hfb : inode ≠ Devfs.FB_INODE := by
    rintro rfl
    cases h
  simp only [ops, Devfs.ops, Devfs.size, if_neg hhda, if_neg hfb]

end Filesystem

end AeroOS.Fs
