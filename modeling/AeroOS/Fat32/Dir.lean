import AeroOS.Fat32.Basic

/-!
# FAT32: directory entries

A directory is a chain of clusters full of 32-byte slots.  The code goes over
them in four places, each with a test of its own:

* `readDirRaw` decodes every slot;
* `writeDirEntry` takes the first slot whose first byte marks it free;
* `removeDirEntry` looks for a short name and stops at the end mark;
* `updateSizeRecursive` looks for a first cluster, directory by directory.
-/

namespace AeroOS.Fat32

open Bytes

/-- Directory attribute, `ATTR_DIR`. -/
def attrDir : UInt8 := 0x10

/-- Long-name attribute, `ATTR_LFN`. -/
def attrLfn : UInt8 := 0x0F

/-- Archive attribute, `ATTR_ARCHIVE`. -/
def attrArchive : UInt8 := 0x20

/-- A directory entry.  The name has its eleven bytes. -/
structure RawDirEntry where
  name : List UInt8
  attr : UInt8
  ntRes : UInt8
  crtTimeTenth : UInt8
  crtTime : Nat
  crtDate : Nat
  lstAccDate : Nat
  fstClusHi : Nat
  wrtTime : Nat
  wrtDate : Nat
  fstClusLo : Nat
  fileSize : Nat
  name_length : name.length = 11

namespace RawDirEntry

variable (e : RawDirEntry)

def isFree : Bool := e.name.getD 0 0 == 0x00 || e.name.getD 0 0 == 0xE5

def isLfn : Bool := e.attr &&& attrLfn == attrLfn

def isDir : Bool := e.attr &&& attrDir != 0

def firstCluster : Nat := e.fstClusHi * 65536 + e.fstClusLo

/-- An entry that `read_dir_raw`'s callers do not skip. -/
def isLive : Bool := !e.isFree && !e.isLfn

/-- The entry in the 32 bytes from `a` up. -/
def ofBytes (m : Store) (a : Nat) : RawDirEntry where
  name := readBytes m a 11
  attr := m (a + 11)
  ntRes := m (a + 12)
  crtTimeTenth := m (a + 13)
  crtTime := leNat (readBytes m (a + 14) 2)
  crtDate := leNat (readBytes m (a + 16) 2)
  lstAccDate := leNat (readBytes m (a + 18) 2)
  fstClusHi := leNat (readBytes m (a + 20) 2)
  wrtTime := leNat (readBytes m (a + 22) 2)
  wrtDate := leNat (readBytes m (a + 24) 2)
  fstClusLo := leNat (readBytes m (a + 26) 2)
  fileSize := leNat (readBytes m (a + 28) 4)
  name_length := readBytes_length m a 11

/-- `pack_entry`. -/
def pack : List UInt8 :=
  e.name ++ [e.attr, e.ntRes, e.crtTimeTenth] ++ leBytes 2 e.crtTime ++ leBytes 2 e.crtDate ++
    leBytes 2 e.lstAccDate ++ leBytes 2 e.fstClusHi ++ leBytes 2 e.wrtTime ++
    leBytes 2 e.wrtDate ++ leBytes 2 e.fstClusLo ++ leBytes 4 e.fileSize

/-- The entry that `create` and `mkdir` write: zero but for the name, the
attribute and the first cluster. -/
def new (name : List UInt8) (h : name.length = 11) (attr : UInt8) (cluster : Nat) :
    RawDirEntry where
  name := name
  attr := attr
  ntRes := 0
  crtTimeTenth := 0
  crtTime := 0
  crtDate := 0
  lstAccDate := 0
  fstClusHi := cluster / 65536 % 65536
  wrtTime := 0
  wrtDate := 0
  fstClusLo := cluster % 65536
  fileSize := 0
  name_length := h

end RawDirEntry

/-! ## Short names -/

/-- Where the last dot of a name is, `rfind('.')`. -/
def rfindDot (name : List UInt8) : Option Nat :=
  (List.range name.length).reverse.find? fun i => name.getD i 0 == 0x2E

/-- `n` bytes of `bs`, filled up with spaces. -/
def padName (n : Nat) (bs : List UInt8) : List UInt8 :=
  bs.take n ++ List.replicate (n - bs.length) 0x20

/-- `to_short_name`, for the upper-case mapping `upper` of strings. -/
def toShortName (upper : List UInt8 → List UInt8) (name : List UInt8) : List UInt8 :=
  match rfindDot name with
  | some i =>
    if 0 < i then padName 8 (upper (name.take i)) ++ padName 3 (upper (name.drop (i + 1)))
    else padName 8 (upper name) ++ padName 3 []
  | none => padName 8 (upper name) ++ padName 3 []

theorem padName_length (n : Nat) (bs : List UInt8) : (padName n bs).length = n := by
  simp [padName]
  omega

theorem toShortName_length (upper : List UInt8 → List UInt8) (name : List UInt8) :
    (toShortName upper name).length = 11 := by
  unfold toShortName
  split <;> (try split) <;> simp [padName_length]

/-- The name before the first space of a part of a short name. -/
def beforeSpace (part : List UInt8) : List UInt8 := part.takeWhile fun b => b != 0x20

/-- `core::str::from_utf8(..).unwrap_or("")` on bytes that are kept as bytes. -/
def utf8OrEmpty (bs : List UInt8) : List UInt8 :=
  if (ByteArray.mk bs.toArray).validateUTF8 then bs else []

/-- `from_short_name`. -/
def fromShortName (short : List UInt8) : List UInt8 :=
  let base := beforeSpace (short.take 8)
  let ext := beforeSpace (short.drop 8)
  if ext = [] then utf8OrEmpty base else utf8OrEmpty base ++ [0x2E] ++ utf8OrEmpty ext

/-! ## Going over a directory -/

/-- Slots of a cluster. -/
def slotCount (s : Fat32) : Nat := s.geo.bytesPerCluster / 32

/-- The loop of `read_dir_raw`; a cluster that cannot be read ends it. -/
def readDirClusters (s : Fat32) : List Nat → List RawDirEntry
  | [] => []
  | c :: cs =>
    match s.readCluster c with
    | none => []
    | some buf =>
      ((List.range s.slotCount).map fun i => RawDirEntry.ofBytes (buf.getD · 0) (i * 32)) ++
        s.readDirClusters cs

/-- `read_dir_raw`. -/
def readDirRaw (s : Fat32) (dirCluster : Nat) : List RawDirEntry :=
  s.readDirClusters (s.clusterChain dirCluster)

/-- A slot that `write_dir_entry` may use. -/
def slotFree (buf : List UInt8) (i : Nat) : Bool :=
  buf.getD (i * 32) 0 == 0x00 || buf.getD (i * 32) 0 == 0xE5

/-- The first pass of `write_dir_entry`; `none` when no slot is free. -/
def writeFreeSlot (s : Fat32) (entry : RawDirEntry) :
    List Nat → Option (Except String Unit × Fat32)
  | [] => none
  | c :: cs =>
    match s.readCluster c with
    | none => some (.error "ata read failed", s)
    | some buf =>
      match (List.range s.slotCount).find? (slotFree buf) with
      | some i =>
        match s.writeCluster c (patch buf (i * 32) entry.pack) with
        | (false, s) => some (.error "ata write failed", s)
        | (true, s) => some (.ok (), s)
      | none => s.writeFreeSlot entry cs

/-- `write_dir_entry`. -/
def writeDirEntry (s : Fat32) (dirCluster : Nat) (entry : RawDirEntry) (createNew : Bool) :
    Except String Unit × Fat32 :=
  let chain := s.clusterChain dirCluster
  match s.writeFreeSlot entry chain with
  | some r => r
  | none =>
    if createNew = false then (.error "no free slot in directory", s)
    else
      match s.allocCluster with
      | none => (.error "out of clusters", s)
      | some (newCluster, s) =>
        match chain.getLast? with
        | none => (.error "empty directory chain", s)
        | some last =>
          let s := (s.setFat last newCluster).setFat newCluster fatEoc
          let buf := patch (List.replicate s.geo.bytesPerCluster 0) 0 entry.pack
          match s.writeCluster newCluster buf with
          | (false, s) => (.error "ata write failed", s)
          | (true, s) =>
            match s.flushFat with
            | (false, s) => (.error "fat flush failed", s)
            | (true, s) => (.ok (), s)

/-- What the inner loop of `remove_dir_entry` finds in a cluster. -/
inductive RemoveScan where
  | endMark
  | hit (i : Nat)
  | pass
  deriving DecidableEq, Repr

/-- The inner loop of `remove_dir_entry` over the slots in the list. -/
def removeScan (buf short : List UInt8) : List Nat → RemoveScan
  | [] => .pass
  | i :: is =>
    if buf.getD (i * 32) 0 == 0x00 then .endMark
    else if buf.getD (i * 32) 0 == 0xE5 then removeScan buf short is
    else if buf.getD (i * 32 + 11) 0 == attrLfn then removeScan buf short is
    else if readBytes (buf.getD · 0) (i * 32) 11 == short then .hit i
    else removeScan buf short is

/-- The loop of `remove_dir_entry` over the clusters of the directory. -/
def removeClusters (s : Fat32) (short : List UInt8) :
    List Nat → Except String Unit × Fat32
  | [] => (.error "file not found", s)
  | c :: cs =>
    match s.readCluster c with
    | none => (.error "ata read failed", s)
    | some buf =>
      match removeScan buf short (List.range s.slotCount) with
      | .endMark => (.error "file not found", s)
      | .hit i =>
        match s.writeCluster c (patch buf (i * 32) [0xE5]) with
        | (false, s) => (.error "ata write failed", s)
        | (true, s) => (.ok (), s)
      | .pass => s.removeClusters short cs

/-- `remove_dir_entry`. -/
def removeDirEntry (s : Fat32) (dirCluster : Nat) (short : List UInt8) :
    Except String Unit × Fat32 :=
  s.removeClusters short (s.clusterChain dirCluster)

/-! ## The size field of a file's entry -/

/-- A slot that `update_size_recursive` looks at: not free, not a long name,
not `.`, `..` or any other name with a leading dot. -/
def sizeSlot (buf : List UInt8) (i : Nat) : Bool :=
  !(buf.getD (i * 32) 0 == 0x00 || buf.getD (i * 32) 0 == 0xE5 ||
    buf.getD (i * 32 + 11) 0 == attrLfn) && buf.getD (i * 32) 0 != 0x2E

/-- The first cluster in a slot. -/
def slotCluster (buf : List UInt8) (i : Nat) : Nat :=
  leNat (readBytes (buf.getD · 0) (i * 32 + 20) 2) * 65536 +
    leNat (readBytes (buf.getD · 0) (i * 32 + 26) 2)

/-- The subdirectory in a slot, if it is one. -/
def slotSubdir (buf : List UInt8) (i : Nat) : Option Nat :=
  if sizeSlot buf i && buf.getD (i * 32 + 11) 0 &&& attrDir != 0 && 2 ≤ slotCluster buf i then
    some (slotCluster buf i)
  else none

/-- The loop of `update_size_recursive` over the clusters of one directory:
`none` when it wrote the size, else the subdirectories it passed. -/
def updateSizeClusters (s : Fat32) (target newSize : Nat) :
    List Nat → List Nat → Except String (Option (List Nat)) × Fat32
  | [], subdirs => (.ok (some subdirs), s)
  | c :: cs, subdirs =>
    match s.readCluster c with
    | none => (.error "ata read failed", s)
    | some buf =>
      match (List.range s.slotCount).find?
          fun i => sizeSlot buf i && slotCluster buf i == target with
      | some i =>
        match s.writeCluster c (patch buf (i * 32 + 28) (leBytes 4 newSize)) with
        | (false, s) => (.error "ata write failed", s)
        | (true, s) => (.ok none, s)
      | none =>
        s.updateSizeClusters target newSize cs
          (subdirs ++ (List.range s.slotCount).filterMap (slotSubdir buf))

/-- The loop of `update_size_recursive` over the subdirectories. -/
def firstTrue (f : Fat32 → Nat → Except String Bool × Fat32) :
    List Nat → Fat32 → Except String Bool × Fat32
  | [], s => (.ok false, s)
  | d :: ds, s =>
    match f s d with
    | (.error e, s) => (.error e, s)
    | (.ok true, s) => (.ok true, s)
    | (.ok false, s) => firstTrue f ds s

/-- `update_size_recursive`, with a bound on its depth. -/
def updateSizeRecursive : Nat → Fat32 → Nat → Nat → Nat → Except String Bool × Fat32
  | 0, s, _, _, _ => (.error "stack overflow", s)
  | depth + 1, s, dirCluster, target, newSize =>
    match s.updateSizeClusters target newSize (s.clusterChain dirCluster) [] with
    | (.error e, s) => (.error e, s)
    | (.ok none, s) => (.ok true, s)
    | (.ok (some subdirs), s) =>
      firstTrue (fun s d => updateSizeRecursive depth s d target newSize) subdirs s

/-- The depth that `update_size_recursive` can reach without meeting a
directory twice on its way down.  A call that meets one again never returns:
nothing is written on the way, so it goes the same way round for ever, until
the kernel stack is full. -/
def maxDepth (s : Fat32) : Nat := s.geo.fatLen + 1

/-- `update_dir_entry_size`. -/
def updateDirEntrySize (s : Fat32) (id : Nat) : Except String Unit × Fat32 :=
  match s.inodes.get id with
  | none => (.error "inode not found", s)
  | some inode =>
    if inode.isDir then (.ok (), s)
    else
      match updateSizeRecursive s.maxDepth s s.geo.rootCluster inode.firstCluster inode.size with
      | (.error e, s) => (.error e, s)
      | (.ok _, s) => (.ok (), s)

end AeroOS.Fat32
