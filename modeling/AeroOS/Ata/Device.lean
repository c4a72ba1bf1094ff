import AeroOS.Lib.Bytes

/-!
# The ATA device behind its ports

The primary master as the driver sees it: registers for the sector count and the
28-bit address, a command port, a status port and a 16-bit data port.

* A transfer command moves the sectors from its address on, as many as its count byte
  stands for, and a zero stands for 256.
* Each sector goes through the data port as 256 words, low byte first.
* After a command and after each sector the device is busy for some polls of its status.
* `Device.log` has the commands, and the sectors that went through the data port.
-/

namespace AeroOS.Ata

open Bytes

/-! ## Words -/

/-- The word that the driver sends for two bytes. -/
def word (lo hi : UInt8) : UInt16 := lo.toUInt16 ||| (hi.toUInt16 <<< 8)

def lowByte (w : UInt16) : UInt8 := (w &&& 0xFF).toUInt8

def highByte (w : UInt16) : UInt8 := (w >>> 8).toUInt8

/-- The bytes that the driver takes from a word. -/
def wordBytes (w : UInt16) : List UInt8 := [lowByte w, highByte w]

theorem lowByte_word (lo hi : UInt8) : lowByte (word lo hi) = lo := by
  have hones : ∀ i (h : i < 8), (255#8)[i] = true := by decide
  apply UInt8.eq_of_toBitVec_eq
  ext i h
  simp [lowByte, word, hones i h]

theorem highByte_word (lo hi : UInt8) : highByte (word lo hi) = hi := by
  apply UInt8.eq_of_toBitVec_eq
  ext i h
  have h16 : i < 16 := by omega
  simp [highByte, word, h, h16, show 8 + i < 16 by omega]

@[simp] theorem wordBytes_word (lo hi : UInt8) : wordBytes (word lo hi) = [lo, hi] := by
  rw [wordBytes, lowByte_word, highByte_word]

/-- The 256 words of a sector that begins at address `a`. -/
def sectorWords (m : Store) (a : Nat) : List UInt16 :=
  (List.range 256).map fun i => word (m (a + i * 2)) (m (a + i * 2 + 1))

@[simp] theorem sectorWords_length (m : Store) (a : Nat) : (sectorWords m a).length = 256 := by
  rw [sectorWords, List.length_map, List.length_range]

/-- The words of a sector have its bytes. -/
theorem flatMap_wordBytes (m : Store) (a : Nat) :
    (sectorWords m a).flatMap wordBytes = readBytes m a 512 := by
  have hpairs : ∀ n, ((List.range n).map fun i => word (m (a + i * 2)) (m (a + i * 2 + 1))).flatMap
      wordBytes = readBytes m a (n * 2) := by
    intro n
    induction n with
    | zero => rfl
    | succ n ih =>
      rw [List.range_succ, List.map_append, List.flatMap_append, ih, Nat.succ_mul, readBytes_add]
      simp [readBytes, List.range_succ]
  exact hpairs 256

/-! ## The device -/

/-- The direction of a transfer. -/
inductive Op where
  | read
  | write
deriving DecidableEq, Repr

/-- What the ports have seen. -/
inductive Event where
  /-- A transfer command, with the address and the count byte of the registers. -/
  | command (op : Op) (lba : Nat) (count : UInt8)
  /-- The last word of a sector. -/
  | sector (lba : Nat)
  /-- The command to flush the cache. -/
  | flush
  /-- An access that the device does not expect. -/
  | stray
deriving DecidableEq, Repr

/-- The transfer that is going on: the sector, how many are left with it, and its words
that are still to be taken or have come. -/
inductive Transfer where
  | idle
  | reading (lba left : Nat) (words : List UInt16)
  | writing (lba left : Nat) (words : List UInt16)

/-- The number of times that the driver polls the status. -/
def pollLimit : Nat := 100000

theorem pollLimit_pos : 0 < pollLimit := by decide

-- no proof goes through the polls one by one
attribute [irreducible] pollLimit

/-- The device.  `pace n` is the number of polls that its `n`-th pause takes; the driver
does not see the end of one that takes too many. -/
structure Device where
  count : UInt8
  lbaLo : UInt8
  lbaMid : UInt8
  lbaHi : UInt8
  drive : UInt8
  transfer : Transfer
  pace : Nat → Fin pollLimit
  pauses : Nat
  busy : Nat
  busy_lt : busy < pollLimit
  bytes : Store
  log : List Event

namespace Device

/-- The address in the registers. -/
def lba (d : Device) : Nat :=
  d.lbaLo.toNat + d.lbaMid.toNat * 2 ^ 8 + d.lbaHi.toNat * 2 ^ 16 +
    (d.drive &&& 0x0F).toNat * 2 ^ 24

/-- The number of sectors that a count byte stands for. -/
def length (count : UInt8) : Nat := if count = 0 then 256 else count.toNat

/-- Whether the drive register selects the master, with a 28-bit address. -/
def selected (d : Device) : Bool := d.drive &&& 0x50 == 0x40

def stray (d : Device) : Device := { d with log := d.log ++ [.stray] }

/-- The device is busy for a while. -/
def pause (d : Device) : Device :=
  { d with
    busy := d.pace d.pauses
    busy_lt := (d.pace d.pauses).isLt
    pauses := d.pauses + 1 }

/-- The next sector of a read, if one is left. -/
def offer (m : Store) (lba left : Nat) : Transfer :=
  if left = 0 then .idle else .reading lba left (sectorWords m (512 * lba))

/-- The next sector of a write, if one is left. -/
def accept (lba left : Nat) : Transfer :=
  if left = 0 then .idle else .writing lba left []

/-! ### The ports -/

def statusBsy : UInt8 := 0x80
def statusDrdy : UInt8 := 0x40
def statusDrq : UInt8 := 0x08
def statusErr : UInt8 := 0x01

def cmdReadSectors : UInt8 := 0x20
def cmdWriteSectors : UInt8 := 0x30
def cmdFlushCache : UInt8 := 0xE7

/-- A device that is not busy asks for data during a transfer. -/
def readyStatus : Transfer → UInt8
  | .idle => statusDrdy
  | _ => statusDrdy ||| statusDrq

/-- A read of the status port. -/
def readStatus (d : Device) : UInt8 × Device :=
  (if 0 < d.busy then statusBsy else readyStatus d.transfer, { d with
    busy := d.busy - 1
    busy_lt := Nat.lt_of_le_of_lt (Nat.sub_le d.busy 1) d.busy_lt })

/-- The registers of a command. -/
inductive Register where
  | secCount
  | lbaLo
  | lbaMid
  | lbaHi
  | drive

/-- A write to a register. -/
def writeRegister (r : Register) (v : UInt8) (d : Device) : Device :=
  if 0 < d.busy then d.stray
  else match r with
    | .secCount => { d with count := v }
    | .lbaLo => { d with lbaLo := v }
    | .lbaMid => { d with lbaMid := v }
    | .lbaHi => { d with lbaHi := v }
    | .drive => { d with drive := v }

/-- A write to the command port. -/
def writeCommand (cmd : UInt8) (d : Device) : Device :=
  match d.busy, d.transfer, d.selected with
  | 0, .idle, true =>
    if cmd = cmdReadSectors then
      { d.pause with
        transfer := offer d.bytes d.lba (length d.count)
        log := d.log ++ [.command .read d.lba d.count] }
    else if cmd = cmdWriteSectors then
      { d.pause with
        transfer := accept d.lba (length d.count)
        log := d.log ++ [.command .write d.lba d.count] }
    else if cmd = cmdFlushCache then { d.pause with log := d.log ++ [.flush] }
    else d.stray
  | _, _, _ => d.stray

/-- A read of the data port. -/
def readData (d : Device) : UInt16 × Device :=
  match d.busy, d.transfer with
  | 0, .reading lba left [w] =>
    (w, { d.pause with
      transfer := offer d.bytes (lba + 1) (left - 1)
      log := d.log ++ [.sector lba] })
  | 0, .reading lba left (w :: ws) => (w, { d with transfer := .reading lba left ws })
  | _, _ => (0, d.stray)

/-- A write to the data port. -/
def writeData (w : UInt16) (d : Device) : Device :=
  match d.busy, d.transfer with
  | 0, .writing lba left ws =>
    if ws.length < 255 then { d with transfer := .writing lba left (ws ++ [w]) }
    else
      { d.pause with
        bytes := writeBytes d.bytes (512 * lba) ((ws ++ [w]).flatMap wordBytes)
        transfer := accept (lba + 1) (left - 1)
        log := d.log ++ [.sector lba] }
  | _, _ => d.stray

end Device

end AeroOS.Ata
