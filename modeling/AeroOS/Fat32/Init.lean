import AeroOS.Fat32.Volume

/-!
# FAT32: finding and mounting the partition

`find_fat32_partition` and `init`.

* `Partition` is what a partition entry says.
* `init` is the mount at boot: the partition, the boot sector, the table.  The
  size of the partition is printed and not used.
* `init_eq_some` says what the disk holds when a volume was mounted.
-/

namespace AeroOS.Fat32

open Bytes Ata

/-- An entry of the partition table: two 32-bit fields. -/
@[ext]
structure Partition where
  start : Nat
  size : Nat
  start_lt : start < 2 ^ 32
  size_lt : size < 2 ^ 32

namespace Partition

/-- `PART_TYPE_FAT32`. -/
def typeFat32 : UInt8 := 0x0C

/-- `PART_TYPE_FAT32_CHS`. -/
def typeFat32Chs : UInt8 := 0x0B

/-- First sector behind the partition. -/
def stop (p : Partition) : Nat := p.start + p.size

/-- Entry `i` of the boot record. -/
def ofEntry (mbr : List UInt8) (i : Nat) : Partition where
  start := leNat (readBytes (mbr.getD · 0) (446 + i * 16 + 8) 4)
  size := leNat (readBytes (mbr.getD · 0) (446 + i * 16 + 12) 4)
  start_lt := by
    have := leNat_lt (readBytes (mbr.getD · 0) (446 + i * 16 + 8) 4)
    rwa [readBytes_length] at this
  size_lt := by
    have := leNat_lt (readBytes (mbr.getD · 0) (446 + i * 16 + 12) 4)
    rwa [readBytes_length] at this

/-- The type byte of entry `i` is one of a FAT32 partition. -/
def isFat32 (mbr : List UInt8) (i : Nat) : Bool :=
  mbr.getD (446 + i * 16 + 4) 0 == typeFat32 || mbr.getD (446 + i * 16 + 4) 0 == typeFat32Chs

end Partition

/-- The signature at the end of a boot sector. -/
def signed (sector : List UInt8) : Bool :=
  sector.getD 510 0 == 0x55 && sector.getD 511 0 == 0xAA

/-- `find_fat32_partition`: the last FAT32 entry of the boot record. -/
def findFat32Partition (d : Disk) : Option Partition :=
  match readSectors d 0 512 with
  | none => none
  | some mbr =>
    if signed mbr = false then none
    else ([3, 2, 1, 0].find? (Partition.isFat32 mbr)).map (Partition.ofEntry mbr)

/-- The boot parameters that `init` takes from a boot sector, or `none` where it
gives up.  A table that the heap cannot hold ends the kernel. -/
def parseBpb (p : Partition) (bpb : List UInt8) : Option Geometry :=
  if h : leNat (readBytes (bpb.getD · 0) 11 2) = 512 ∧ (bpb.getD 13 0).toNat ≠ 0 ∧
      leNat (readBytes (bpb.getD · 0) 36 4) ≠ 0 ∧
      leNat (readBytes (bpb.getD · 0) 36 4) * leNat (readBytes (bpb.getD · 0) 11 2) ≤ heapSize then
    some
      { partStartLba := p.start
        bytesPerSector := leNat (readBytes (bpb.getD · 0) 11 2)
        sectorsPerCluster := (bpb.getD 13 0).toNat
        rsvdSecCnt := leNat (readBytes (bpb.getD · 0) 14 2)
        numFats := (bpb.getD 16 0).toNat
        fatSz32 := leNat (readBytes (bpb.getD · 0) 36 4)
        rootCluster := leNat (readBytes (bpb.getD · 0) 44 4)
        partStartLba_lt := p.start_lt
        bytesPerSector_eq := h.1
        sectorsPerCluster_pos := Nat.pos_of_ne_zero h.2.1
        sectorsPerCluster_lt := UInt8.toNat_lt _
        rsvdSecCnt_lt := by
          have := leNat_lt (readBytes (bpb.getD · 0) 14 2)
          rwa [readBytes_length] at this
        numFats_lt := UInt8.toNat_lt _
        fatSz32_pos := Nat.pos_of_ne_zero h.2.2.1
        fatSz32_fits := h.2.2.2
        rootCluster_lt := by
          have := leNat_lt (readBytes (bpb.getD · 0) 44 4)
          rwa [readBytes_length] at this }
  else none

/-- `init`: the partition that was selected, and the volume mounted on it. -/
def init (d : Disk) : Option (Partition × Fat32) :=
  if d.present = false then none
  else
    match findFat32Partition d with
    | none => none
    | some p =>
      match readSectors d p.start 512 with
      | none => none
      | some bpb =>
        if signed bpb = false then none
        else
          match parseBpb p bpb with
          | none => none
          | some g => (mount g d).map fun s => (p, s)

theorem parseBpb_start {p : Partition} {bpb : List UInt8} {g : Geometry}
    (h : parseBpb p bpb = some g) : g.partStartLba = p.start := by
  unfold parseBpb at h
  split at h
  · cases h
    rfl
  · cases h

/-- What was found on the disk when a volume was mounted. -/
theorem init_eq_some {d : Disk} {p : Partition} {s : Fat32} (h : init d = some (p, s)) :
    d.present = true ∧ findFat32Partition d = some p ∧
      ∃ bpb, readSectors d p.start 512 = some bpb ∧ signed bpb = true ∧
        parseBpb p bpb = some s.geo ∧ mount s.geo d = some s := by
  unfold init at h
  split at h
  · cases h
  · rename_i hp
    cases hf : findFat32Partition d with
    | none => simp [hf] at h
    | some q =>
      simp only [hf] at h
      cases hb : readSectors d q.start 512 with
      | none => simp [hb] at h
      | some bpb =>
        simp only [hb] at h
        split at h
        · cases h
        · rename_i hsig
          cases hg : parseBpb q bpb with
          | none => simp [hg] at h
          | some g =>
            simp only [hg, Option.map_eq_some_iff, Prod.mk.injEq] at h
            obtain ⟨t, hm, rfl, rfl⟩ := h
            have hgeo : t.geo = g := by
              unfold mount at hm
              rw [Option.map_eq_some_iff] at hm
              obtain ⟨table, -, rfl⟩ := hm
              rfl
            exact ⟨by simpa using hp, rfl, bpb, hb, by simpa using hsig, hgeo ▸ hg, hgeo ▸ hm⟩

end AeroOS.Fat32
