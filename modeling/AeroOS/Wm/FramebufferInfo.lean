import AeroOS.Syscalls.Dispatch

/-!
# The framebuffer information of the window manager

`get_framebuffer_info` stores words; the window manager reads a `repr(C)` struct.

* `ReprC` is the layout of such a struct: every field at the next multiple of its
  alignment.
* `not_crosses`: the seven words of the kernel never are the seven fields of
  `FramebufferInfo`.  They take 56 bytes, and the struct has 40.
-/

namespace AeroOS.Wm

open Bytes Fs
open AeroOS.Syscalls

/-! ## Layout of a struct -/

namespace ReprC

/-- The next multiple of `a` from `n` up. -/
def alignUp (n a : Nat) : Nat := (n + a - 1) / a * a

/-- The offset of each field, from `n` up.  A field is an integer, given by its size, which
is its alignment too. -/
def offsets : Nat → List Nat → List Nat
  | _, [] => []
  | n, size :: fields => alignUp n size :: offsets (alignUp n size + size) fields

/-- The end of the last field. -/
def finish : Nat → List Nat → Nat
  | n, [] => n
  | n, size :: fields => finish (alignUp n size + size) fields

/-- The size of the struct: its fields, up to the alignment of the largest. -/
def size (fields : List Nat) : Nat := alignUp (finish 0 fields) (fields.foldl max 1)

/-- The fields of the struct at `p`. -/
def load (mem : Store) (p : Nat) (fields : List Nat) : List Nat :=
  ((offsets 0 fields).zip fields).map fun f => leNat (readBytes mem (p + f.1) f.2)

end ReprC

/-! ## The struct -/

/-- `FramebufferInfo`. -/
structure FramebufferInfo where
  address : Nat
  width : Nat
  height : Nat
  stride : Nat
  bytesPerPixel : Nat
  format : Nat
  len : Nat
  deriving DecidableEq, Repr

namespace FramebufferInfo

/-- Sizes of the fields: `u64`, five times `u32`, `u64`. -/
def fields : List Nat := [8, 4, 4, 4, 4, 4, 8]

example : ReprC.offsets 0 fields = [0, 8, 12, 16, 20, 24, 32] := by decide

theorem size_fields : ReprC.size fields = 40 := by decide

/-- The field values in order. -/
def values (i : FramebufferInfo) : List Nat :=
  [i.address, i.width, i.height, i.stride, i.bytesPerPixel, i.format, i.len]

/-- What `get_fb_state` says. -/
def ofGraphics (g : Graphics) : FramebufferInfo where
  address := g.addr
  width := g.width
  height := g.height
  stride := g.stride
  bytesPerPixel := g.bytesPerPixel
  format := g.format
  len := g.bytes.length

end FramebufferInfo

/-! ## Over the call boundary -/

/-- The caller's memory after the stores of a call. -/
def afterStores (mem : Store) (stores : List (Nat × List UInt8)) : Store :=
  stores.foldl (fun mem s => writeBytes mem s.1 s.2) mem

/-- The struct at `p` has the values of the framebuffer, and no byte beyond it is
stored. -/
def Crosses (mem : Store) (p : Nat) (g : Graphics) (r : Reply) : Prop :=
  ReprC.load (afterStores mem r.stores) p FramebufferInfo.fields =
      (FramebufferInfo.ofGraphics g).values ∧
    ∀ s ∈ r.stores, p ≤ s.1 ∧ s.1 + s.2.length ≤ p + ReprC.size FramebufferInfo.fields

variable {τ : Type}

/-- The call stores 56 bytes at the pointer. -/
theorem sysGetFramebufferInfo_stores {m : Machine τ} {g : Graphics}
    (hg : m.devices.graphics = some g) {p : Nat} (hp : p ≠ 0) :
    ∃ bytes, (sysGetFramebufferInfo m p).1.stores = [(p, bytes)] ∧ bytes.length = 56 := by
  rw [sysGetFramebufferInfo, if_neg hp, hg]
  exact ⟨_, rfl, by simp⟩

/-- The information never crosses the call boundary intact. -/
theorem not_crosses {m : Machine τ} {g : Graphics} (hg : m.devices.graphics = some g) {p : Nat}
    (hp : p ≠ 0) (mem : Store) : ¬ Crosses mem p g (sysGetFramebufferInfo m p).1 := by
  rintro ⟨-, hwithin⟩
  obtain ⟨bytes, hstores, hlen⟩ := sysGetFramebufferInfo_stores hg hp
  have hle := (hwithin (p, bytes) (by rw [hstores]; exact List.mem_singleton_self _)).2
  rw [hlen, FramebufferInfo.size_fields] at hle
  omega

/-- A screen of 1280 by 720 pixels. -/
def screen : Graphics := ⟨0xFD000000, [], 1280, 720, 1280, 4, 1⟩

/-- A machine with that screen. -/
def screenMachine : Machine Unit where
  kernel := Scheduler.Kernel.boot
  fdTable := FdTable.new
  currentDir := [slash]
  devices := ⟨some screen, .new, ⟨0, 0, 0⟩⟩
  files := ()

theorem not_crosses_screen :
    screenMachine.devices.graphics = some screen ∧
      ¬ Crosses (fun _ => 0) 4096 screen (sysGetFramebufferInfo screenMachine 4096).1 :=
  ⟨rfl, not_crosses rfl (by decide) _⟩

/-- The window manager reads 0 for the height, and the height for the stride. -/
theorem not_intact_screen :
    ¬ ∀ (m : Machine Unit) (g : Graphics), m.devices.graphics = some g → ∀ p, p ≠ 0 →
      ∀ mem, Crosses mem p g (sysGetFramebufferInfo m p).1 := by
  intro h
  have hload := (h screenMachine screen rfl 4096 (by decide) fun _ => 0).1
  exact absurd hload (by decide +kernel)

end AeroOS.Wm
