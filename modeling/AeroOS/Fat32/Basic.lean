import AeroOS.Ata
import AeroOS.Lib.Chain

/-!
# FAT32: the mounted volume

`fs/fat32.rs` keeps the boot parameters, a copy of FAT1 and a table of inodes
in memory, and goes to the disk for everything else.  `Fat32` is that state
together with the disk.

* `Geometry` is what `init` takes from the boot sector, with the checks it
  makes before it mounts the volume.
* `readCluster` and `writeCluster` move one cluster, `flushFat` and `mount`
  move the table.
* `clusterChain`, `allocCluster` and `freeChain` are the chain operations on
  the cached table.

Cluster numbers, sizes and sector numbers are natural numbers.  Where the code
narrows a value, the narrowing is written as a remainder.
-/

namespace AeroOS

open Bytes Ata

/-- The size of the kernel heap, `HEAP_SIZE`. -/
def heapSize : Nat := 1024 * 1024

namespace Fat32

/-- End of chain, `FAT_EOC`. -/
def fatEoc : Nat := 0x0FFFFFFF

/-- A free table entry, `FAT_FREE`. -/
def fatFree : Nat := 0

/-- The boot parameters of a volume that `init` mounted.  The bounds are the
widths of the fields, the checks of `init`, and that `load_fat` got its table
from the kernel heap. -/
structure Geometry where
  partStartLba : Nat
  bytesPerSector : Nat
  sectorsPerCluster : Nat
  rsvdSecCnt : Nat
  numFats : Nat
  fatSz32 : Nat
  rootCluster : Nat
  partStartLba_lt : partStartLba < 2 ^ 32
  bytesPerSector_eq : bytesPerSector = 512
  sectorsPerCluster_pos : 0 < sectorsPerCluster
  sectorsPerCluster_lt : sectorsPerCluster < 256
  rsvdSecCnt_lt : rsvdSecCnt < 2 ^ 16
  numFats_lt : numFats < 256
  fatSz32_pos : 0 < fatSz32
  fatSz32_fits : fatSz32 * bytesPerSector ≤ heapSize
  rootCluster_lt : rootCluster < 2 ^ 32

namespace Geometry

variable (g : Geometry)

/-- First sector of FAT1. -/
def fatStart : Nat := g.partStartLba + g.rsvdSecCnt

/-- First sector of the data region, `data_start_lba`. -/
def dataStartLba : Nat := g.partStartLba + g.rsvdSecCnt + g.numFats * g.fatSz32

/-- Bytes of one copy of the table. -/
def fatBytes : Nat := g.fatSz32 * g.bytesPerSector

/-- Length of the cached table. -/
def fatLen : Nat := g.fatSz32 * g.bytesPerSector / 4

/-- Bytes of a cluster. -/
def bytesPerCluster : Nat := g.sectorsPerCluster * g.bytesPerSector

/-- The sector a cluster starts at.  Every caller has `2 ≤ cluster`. -/
def clusterToLba (cluster : Nat) : Nat :=
  g.dataStartLba + (cluster - 2) * g.sectorsPerCluster

/-- A cluster number that the chain loop follows. -/
def validCluster (c : Nat) : Bool := decide (2 ≤ c ∧ c < g.fatLen)

end Geometry

/-- An inode of the VFS table. -/
structure FatInode where
  firstCluster : Nat
  size : Nat
  isDir : Bool
  deriving DecidableEq, Repr

/-- The inode table with its next id.  Ids are given out in order, so none
from `next` up is in use. -/
structure InodeTable where
  get : Nat → Option FatInode
  next : Nat
  fresh : ∀ id, next ≤ id → get id = none

namespace InodeTable

/-- The empty table of `init`. -/
def empty : InodeTable := ⟨fun _ => none, 1, fun _ _ => rfl⟩

/-- A new inode under the next id. -/
def insert (t : InodeTable) (i : FatInode) : InodeTable where
  get id := if id = t.next then some i else t.get id
  next := t.next + 1
  fresh id h := by
    rw [if_neg (by omega)]
    exact t.fresh id (by omega)

/-- `get_mut(id)` followed by a change of the inode. -/
def modify (t : InodeTable) (id : Nat) (f : FatInode → FatInode) : InodeTable where
  get x := if x = id then (t.get x).map f else t.get x
  next := t.next
  fresh x h := by
    rw [t.fresh x h]
    simp

/-- The table without inode `id`. -/
def remove (t : InodeTable) (id : Nat) : InodeTable where
  get x := if x = id then none else t.get x
  next := t.next
  fresh x h := by
    rw [t.fresh x h]
    simp

/-- The first inode, in the order of the ids, with this cluster and type. -/
def find? (t : InodeTable) (firstCluster : Nat) (isDir : Bool) : Option Nat :=
  (List.range t.next).find? fun id =>
    match t.get id with
    | some i => i.firstCluster == firstCluster && i.isDir == isDir
    | none => false

end InodeTable

end Fat32

/-- The state behind the lock of a mounted volume, with the disk under it. -/
structure Fat32 where
  geo : Fat32.Geometry
  fatCache : Nat → Nat
  inodes : Fat32.InodeTable
  disk : Disk

namespace Fat32

/-! ## Clusters and the table on disk -/

/-- `read_cluster`; `none` is its `false`. -/
def readCluster (s : Fat32) (cluster : Nat) : Option (List UInt8) :=
  readSectors s.disk (s.geo.clusterToLba cluster) s.geo.bytesPerCluster

/-- `write_cluster`. -/
def writeCluster (s : Fat32) (cluster : Nat) (buf : List UInt8) : Bool × Fat32 :=
  if buf.length < s.geo.bytesPerCluster then (false, s)
  else
    let (ok, d) := writeSectors s.disk (s.geo.clusterToLba cluster)
      (buf.take s.geo.bytesPerCluster)
    (ok, { s with disk := d })

/-- The table as bytes, brought to the size of a copy on disk. -/
def fatTable (s : Fat32) : List UInt8 :=
  let table := (List.range s.geo.fatLen).flatMap fun i => leBytes 4 (s.fatCache i)
  (table ++ List.replicate (s.geo.fatBytes - table.length) 0).take s.geo.fatBytes

/-- The loop of `flush_fat` over the other copies, `n` of them from `i` up. -/
def flushCopies (g : Geometry) (table : List UInt8) : Nat → Nat → Disk → Bool × Disk
  | 0, _, d => (true, d)
  | n + 1, i, d =>
    match writeSectors d (g.fatStart + i * g.fatSz32) table with
    | (false, d) => (false, d)
    | (true, d) => flushCopies g table n (i + 1) d

/-- `flush_fat`: FAT1 always, then the copies `1 .. num_fats`. -/
def flushFat (s : Fat32) : Bool × Fat32 :=
  match writeSectors s.disk s.geo.fatStart s.fatTable with
  | (false, d) => (false, { s with disk := d })
  | (true, d) =>
    let (ok, d) := flushCopies s.geo s.fatTable (s.geo.numFats - 1) 1 d
    (ok, { s with disk := d })

/-- The table that `load_fat` builds from the bytes of FAT1. -/
def fatOfBytes (table : List UInt8) (i : Nat) : Nat :=
  leNat (readBytes (table.getD · 0) (i * 4) 4)

/-- `load_fat`, and the root inode that `init` interns after it: a freshly
mounted volume, or `none` when the table cannot be read. -/
def mount (geo : Geometry) (disk : Disk) : Option Fat32 :=
  (readSectors disk geo.fatStart geo.fatBytes).map fun table =>
    { geo, disk, fatCache := fatOfBytes table
      inodes := InodeTable.empty.insert
        { firstCluster := geo.rootCluster, size := 0, isDir := true } }

/-! ## Chains in the cached table -/

/-- What follows a cluster in the chain loop: nothing behind an end mark or a
free entry. -/
def nextCluster (fat : Nat → Nat) (c : Nat) : Option Nat :=
  if fatEoc - 1 ≤ fat c ∨ fat c = 0 then none else some (fat c)

/-- The bound of the chain loop. -/
def chainGuard : Nat := 1000000

/-- The chain from `first` in a table. -/
def chainOf (g : Geometry) (fat : Nat → Nat) (first : Nat) : List Nat :=
  Chain.walk g.validCluster (nextCluster fat) chainGuard first

/-- `cluster_chain`. -/
def clusterChain (s : Fat32) (first : Nat) : List Nat := chainOf s.geo s.fatCache first

/-- `inner.fat_cache[c] = v`. -/
def setFat (s : Fat32) (c v : Nat) : Fat32 :=
  { s with fatCache := fun i => if i = c then v else s.fatCache i }

/-- `alloc_cluster`: the first free cluster, marked as the end of a chain. -/
def allocCluster (s : Fat32) : Option (Nat × Fat32) :=
  ((List.range' 2 (s.geo.fatLen - 2)).find? fun i => s.fatCache i == fatFree).map fun i =>
    (i, s.setFat i fatEoc)

/-- The loop of `free_chain`. -/
def freeClusters (s : Fat32) (chain : List Nat) : Fat32 :=
  chain.foldl (fun s c => s.setFat c fatFree) s

/-- `free_chain`. -/
def freeChain (s : Fat32) (first : Nat) : Fat32 := s.freeClusters (s.clusterChain first)

end Fat32

end AeroOS
