import AeroOS.Fat32.Dir

/-!
# The disk image builder

`build.rs`: the bytes of the FAT32 partition that is appended to the boot image.
The contents of the four files are parameters.

A buffer that the builder fills by assignments to ranges is `assign` of these
assignments.
-/

namespace AeroOS.Build

open Bytes

/-! ## The geometry -/

/-- `FAT32_SECTORS`. -/
def FAT32_SECTORS : Nat := 16384

/-- `FAT32_RSVD_SEC_CNT`. -/
def FAT32_RSVD_SEC_CNT : Nat := 32

/-- `FAT32_NUM_FATS`. -/
def FAT32_NUM_FATS : Nat := 2

/-- `FAT32_ROOT_CLUSTER`. -/
def FAT32_ROOT_CLUSTER : Nat := 2

/-- `FAT32_FAT_SZ`. -/
def FAT32_FAT_SZ : Nat := 126

/-- `FAT32_DATA_START`. -/
def FAT32_DATA_START : Nat := 284

/-- `SYSUTILS_START_CLUSTER`. -/
def SYSUTILS_START_CLUSTER : Nat := 5

/-- The contents of the files on the disk. -/
structure Contents where
  hello : List UInt8
  forktest : List UInt8
  sysutils : List UInt8
  readme : List UInt8

/-! ## Buffers -/

/-- A buffer after the assignments, each to the range from its offset up. -/
def assign (buf : List UInt8) (as : List (Nat × List UInt8)) : List UInt8 :=
  as.foldl (fun b a => patch b a.1 a.2) buf

/-- `vec![0u8; n]`. -/
def zeros (n : Nat) : List UInt8 := List.replicate n 0

/-! ## The boot sector -/

/-- `make_bpb`. -/
def makeBpb : List UInt8 :=
  assign (zeros 512)
    [(0, [0xEB]), (1, [0x3C]), (2, [0x90]),
      (3, [0x41, 0x45, 0x52, 0x4F, 0x53, 0x20, 0x20, 0x20]),  -- "AEROS   "
      (11, leBytes 2 512),  -- BytsPerSec
      (13, [1]),  -- SecPerClus
      (14, leBytes 2 FAT32_RSVD_SEC_CNT),
      (16, [UInt8.ofNat FAT32_NUM_FATS]),
      (17, leBytes 2 0), (19, leBytes 2 0), (21, [0xF8]), (22, leBytes 2 0),
      (24, leBytes 2 63), (26, leBytes 2 255), (28, leBytes 4 0),
      (32, leBytes 4 FAT32_SECTORS),  -- TotSec32
      (36, leBytes 4 FAT32_FAT_SZ),  -- FATSz32
      (40, leBytes 2 0), (42, leBytes 2 0),
      (44, leBytes 4 FAT32_ROOT_CLUSTER),  -- RootClus
      (48, leBytes 2 1), (50, leBytes 2 6), (64, [0x80]), (66, [0x29]),
      (67, leBytes 4 0x12345678),
      (71, [0x41, 0x45, 0x52, 0x4F, 0x53, 0x20, 0x44, 0x49, 0x53, 0x4B, 0x20]),  -- "AEROS DISK "
      (82, [0x46, 0x41, 0x54, 0x33, 0x32, 0x20, 0x20, 0x20]),  -- "FAT32   "
      (510, [0x55]), (511, [0xAA])]

/-- The `FSInfo` sector. -/
def fsinfo : List UInt8 :=
  assign (zeros 512) [(0, [0x52, 0x52, 0x61, 0x41]), (510, leBytes 2 0xAA55)]

/-! ## The table -/

/-- The end of a chain. -/
def EOC : Nat := 0x0FFFFFFF

/-- `sysutils_clusters`. -/
def sysutilsClusters (c : Contents) : Nat := (c.sysutils.length + 511) / 512

/-- The entries that `make_fat` sets, in their order. -/
def fatEntries (c : Contents) : List (Nat × Nat) :=
  [(0, 0x0FFFFFF8), (1, EOC), (2, EOC), (3, EOC), (4, EOC)] ++
    (List.range (sysutilsClusters c)).map (fun i =>
      (SYSUTILS_START_CLUSTER + i,
        if i + 1 = sysutilsClusters c then EOC else SYSUTILS_START_CLUSTER + i + 1)) ++
    [(SYSUTILS_START_CLUSTER + sysutilsClusters c, EOC)]

/-- `make_fat`. -/
def makeFat (c : Contents) : List UInt8 :=
  assign (zeros (FAT32_FAT_SZ * 512)) ((fatEntries c).map fun e => (e.1 * 4, leBytes 4 e.2))

/-! ## The root directory -/

/-- The assignments for one file, whose slot is at offset `e`. -/
def fileEntry (e : Nat) (name : List UInt8) (cluster size : Nat) : List (Nat × List UInt8) :=
  [(e, name),
    (e + 11, [0x20]),  -- ATTR_ARCHIVE
    (e + 13, [0x10]), (e + 14, leBytes 2 0x8A17), (e + 16, leBytes 2 0x4A4B),
    (e + 18, leBytes 2 0x4A4B), (e + 22, leBytes 2 0x8A17), (e + 24, leBytes 2 0x4A4B),
    (e + 26, leBytes 2 cluster),  -- FstClusLO
    (e + 28, leBytes 4 size)]  -- FileSize

/-- The short name `HELLO`. -/
def helloName : List UInt8 :=
  [0x48, 0x45, 0x4C, 0x4C, 0x4F, 0x20, 0x20, 0x20, 0x20, 0x20, 0x20]

/-- The short name `FORKTEST`. -/
def forktestName : List UInt8 :=
  [0x46, 0x4F, 0x52, 0x4B, 0x54, 0x45, 0x53, 0x54, 0x20, 0x20, 0x20]

/-- The short name `SYSUTILS`. -/
def sysutilsName : List UInt8 :=
  [0x53, 0x59, 0x53, 0x55, 0x54, 0x49, 0x4C, 0x53, 0x20, 0x20, 0x20]

/-- The short name `README`. -/
def readmeName : List UInt8 :=
  [0x52, 0x45, 0x41, 0x44, 0x4D, 0x45, 0x20, 0x20, 0x20, 0x20, 0x20]

/-- The assignments for the volume label. -/
def labelEntry : List (Nat × List UInt8) :=
  [(0, [0x41, 0x45, 0x52, 0x4F, 0x53, 0x20, 0x44, 0x49, 0x53, 0x4B, 0x20]),
    (11, [0x08]),  -- ATTR_VOLUME_ID
    (13, [0x10]), (14, leBytes 2 0x8A17), (16, leBytes 2 0x4A4B)]

/-- `make_root_cluster`. -/
def makeRootCluster (c : Contents) : List UInt8 :=
  assign (zeros 512)
    (labelEntry ++
      fileEntry 32 helloName 3 c.hello.length ++
      fileEntry 64 forktestName 4 c.forktest.length ++
      fileEntry 96 sysutilsName SYSUTILS_START_CLUSTER c.sysutils.length ++
      fileEntry 128 readmeName (SYSUTILS_START_CLUSTER + sysutilsClusters c) c.readme.length)

/-! ## The partition -/

/-- A file in one cluster. -/
def oneCluster (bytes : List UInt8) : List UInt8 := patch (zeros 512) 0 bytes

/-- The loop that writes a file over `n` clusters. -/
def clusterLoop : Nat → List UInt8 → List UInt8
  | 0, _ => []
  | n + 1, remaining =>
    let take := min remaining.length 512
    oneCluster (remaining.take take) ++ clusterLoop n (remaining.drop take)

/-- The data region up to the last file. -/
def dataRegion (c : Contents) : List UInt8 :=
  makeRootCluster c ++ oneCluster c.hello ++ oneCluster c.forktest ++
    clusterLoop (sysutilsClusters c) c.sysutils ++ oneCluster c.readme

/-- The image without the free clusters behind the last file. -/
def usedSectors (c : Contents) : List UInt8 :=
  makeBpb ++ fsinfo ++ zeros (30 * 512) ++ makeFat c ++ makeFat c ++ dataRegion c

/-- `make_fat32_partition`. -/
def makeFat32Partition (c : Contents) : List UInt8 :=
  let dataSectors := FAT32_SECTORS - FAT32_DATA_START
  let used := (usedSectors c).length / 512
  usedSectors c ++ zeros ((dataSectors - (used - FAT32_DATA_START)) * 512)

/-! ## The disk -/

/-- The assignments that add the third partition entry to the boot record. -/
def partitionEntry (start : Nat) : List (Nat × List UInt8) :=
  [(446 + 2 * 16, [0x00]),
    (446 + 2 * 16 + 4, [0x0C]),  -- FAT32 LBA
    (446 + 2 * 16 + 8, leBytes 4 start), (446 + 2 * 16 + 12, leBytes 4 FAT32_SECTORS),
    (510, [0x55]), (511, [0xAA])]

/-- What `main` makes of a boot image with a boot signature: the partition is
appended and entered in the boot record. -/
def appendPartition (boot : List UInt8) (c : Contents) : List UInt8 :=
  let bootSectors := boot.length / 512
  let padded := if boot.length % 512 ≠ 0 then boot ++ zeros (512 - boot.length % 512) else boot
  assign (padded ++ makeFat32Partition c) (partitionEntry bootSectors)

end AeroOS.Build
