import AeroOS.Fat32.Dir

/-!
# FAT32: the file operations

The methods of `FileOps`.  Each returns its result and the state it leaves
behind, which is a changed state on many of the error paths too.
-/

namespace AeroOS.Fat32

open Bytes

theorem Geometry.bytesPerCluster_pos (g : Geometry) : 0 < g.bytesPerCluster :=
  Nat.mul_pos g.sectorsPerCluster_pos (by rw [g.bytesPerSector_eq]; omega)

/-- `intern_inode`: the first inode with this cluster and type, or a new one. -/
def internInode (s : Fat32) (firstCluster size : Nat) (isDir : Bool) : Nat × Fat32 :=
  match s.inodes.find? firstCluster isDir with
  | some id => (id, s)
  | none => (s.inodes.next, { s with inodes := s.inodes.insert { firstCluster, size, isDir } })

/-- `inodes.get_mut(id).unwrap().first_cluster = c`. -/
def setFirstCluster (s : Fat32) (id c : Nat) : Fat32 :=
  { s with inodes := s.inodes.modify id fun i => { i with firstCluster := c } }

/-- `inodes.get_mut(id).unwrap().size = n`. -/
def setSize (s : Fat32) (id n : Nat) : Fat32 :=
  { s with inodes := s.inodes.modify id fun i => { i with size := n } }

/-! ## Reading -/

/-- The loop of `read`: `pos` runs from `offset` to `stop`, and each turn copies
the part of one cluster into the buffer. -/
def readLoop (s : Fat32) (chain : List Nat) (offset stop pos : Nat) (buf : List UInt8)
    (readTotal : Nat) : Except String (Nat × List UInt8) :=
  if _h : pos < stop then
    let clusterIdx := pos / s.geo.bytesPerCluster
    if chain.length ≤ clusterIdx then .ok (readTotal, buf)
    else
      let inCluster := pos % s.geo.bytesPerCluster
      match s.readCluster (chain.getD clusterIdx 0) with
      | none => .error "ata read failed"
      | some scratch =>
        let take := min (stop - pos) (s.geo.bytesPerCluster - inCluster)
        readLoop s chain offset stop (pos + take)
          (patch buf (pos - offset) ((scratch.drop inCluster).take take)) (readTotal + take)
  else .ok (readTotal, buf)
termination_by stop - pos
decreasing_by
  have := Nat.mod_lt pos s.geo.bytesPerCluster_pos
  omega

/-- `read` into `buf`: the number of bytes read, and the buffer. -/
def read (s : Fat32) (id offset : Nat) (buf : List UInt8) : Except String (Nat × List UInt8) :=
  match s.inodes.get id with
  | none => .error "inode not found"
  | some inode =>
    if inode.isDir = true ∨ buf = [] then .ok (0, buf)
    else if inode.size ≤ offset then .ok (0, buf)
    else
      let stop := min inode.size ((offset + buf.length) % 2 ^ 64)
      s.readLoop (s.clusterChain inode.firstCluster) offset stop offset buf 0

/-- `size`. -/
def size (s : Fat32) (id : Nat) : Nat := (s.inodes.get id).elim 0 (·.size)

/-! ## Writing -/

/-- The loop of `write` that makes the chain long enough, with `n` clusters to
add.  It carries the local copies of the inode and of the chain. -/
def extendChain (id : Nat) :
    Nat → Fat32 → FatInode → List Nat → Except String (FatInode × List Nat) × Fat32
  | 0, s, inode, chain => (.ok (inode, chain), s)
  | n + 1, s, inode, chain =>
    match s.allocCluster with
    | none => (.error "out of clusters", s)
    | some (newCluster, s) =>
      match chain.getLast? with
      | none =>
        extendChain id n (s.setFirstCluster id newCluster)
          { inode with firstCluster := newCluster } (chain ++ [newCluster])
      | some last => extendChain id n (s.setFat last newCluster) inode (chain ++ [newCluster])

/-- The data loop of `write`.  The cluster index is counted from the start of
the write, the place in the cluster from the start of the file. -/
def writeLoop (s : Fat32) (chain : List Nat) (offset stop pos : Nat) (buf : List UInt8)
    (written : Nat) : Except String Nat × Fat32 :=
  if _h : pos < stop then
    let clusterIdx := (pos - offset) / s.geo.bytesPerCluster
    if chain.length ≤ clusterIdx then (.ok written, s)
    else
      let inCluster := pos % s.geo.bytesPerCluster
      match s.readCluster (chain.getD clusterIdx 0) with
      | none => (.error "ata read failed", s)
      | some scratch =>
        let take := min (stop - pos) (s.geo.bytesPerCluster - inCluster)
        match s.writeCluster (chain.getD clusterIdx 0)
            (patch scratch inCluster ((buf.drop written).take take)) with
        | (false, s') => (.error "ata write failed", s')
        | (true, s') => writeLoop s' chain offset stop (pos + take) buf (written + take)
  else (.ok written, s)
termination_by stop - pos
decreasing_by
  have := Nat.mod_lt pos s.geo.bytesPerCluster_pos
  omega

/-- The clusters that a file of `n` bytes needs. -/
def clustersFor (s : Fat32) (n : Nat) : Nat :=
  if n = 0 then 0 else (n + s.geo.bytesPerCluster - 1) % 2 ^ 64 / s.geo.bytesPerCluster

/-- `write`. -/
def write (s : Fat32) (id offset : Nat) (buf : List UInt8) : Except String Nat × Fat32 :=
  match s.inodes.get id with
  | none => (.error "inode not found", s)
  | some inode =>
    if inode.isDir then (.error "cannot write to directory", s)
    else
      let stop := (offset + buf.length) % 2 ^ 64
      let chain := s.clusterChain inode.firstCluster
      match extendChain id (s.clustersFor stop - chain.length) s inode chain with
      | (.error e, s) => (.error e, s)
      | (.ok (inode, chain), s) =>
        let s := if inode.firstCluster = 0 ∧ chain ≠ [] then s.setFirstCluster id (chain.getD 0 0)
          else s
        match s.writeLoop chain offset stop offset buf 0 with
        | (.error e, s) => (.error e, s)
        | (.ok written, s) =>
          let s := if inode.size < stop then s.setSize id (stop % 2 ^ 32) else s
          match s.flushFat with
          | (false, s) => (.error "fat flush failed", s)
          | (true, s) =>
            match s.updateDirEntrySize id with
            | (.error e, s) => (.error e, s)
            | (.ok (), s) => (.ok written, s)

/-! ## Directories -/

/-- An entry of a `readdir` listing, `DirEntry`. -/
structure DirEntry where
  name : List UInt8
  inodeId : Nat
  isDir : Bool
  deriving DecidableEq, Repr

/-- The loop of `readdir`. -/
def listEntries : List RawDirEntry → Fat32 → List DirEntry × Fat32
  | [], s => ([], s)
  | e :: es, s =>
    if e.isFree || e.isLfn || e.name.getD 0 0 == 0x2E then listEntries es s
    else
      let (id, s) := s.internInode e.firstCluster e.fileSize e.isDir
      let (out, s) := listEntries es s
      ({ name := fromShortName e.name, inodeId := id, isDir := e.isDir } :: out, s)

/-- `readdir`. -/
def readdir (s : Fat32) (id : Nat) : Except String (List DirEntry) × Fat32 :=
  match s.inodes.get id with
  | none => (.error "inode not found", s)
  | some inode =>
    if inode.isDir = false then (.error "not a directory", s)
    else
      let (out, s) := listEntries (s.readDirRaw inode.firstCluster) s
      (.ok out, s)

/-- The live entry that a search by short name finds. -/
def findEntry (raw : List RawDirEntry) (short : List UInt8) : Option RawDirEntry :=
  raw.find? fun e => !(e.isFree || e.isLfn) && e.name == short

variable (upper : List UInt8 → List UInt8)

/-- `lookup`. -/
def lookup (s : Fat32) (dirId : Nat) (name : List UInt8) : Except String Nat × Fat32 :=
  match s.inodes.get dirId with
  | none => (.error "inode not found", s)
  | some dir =>
    if dir.isDir = false then (.error "not a directory", s)
    else
      match findEntry (s.readDirRaw dir.firstCluster) (toShortName upper name) with
      | none => (.error "file not found", s)
      | some e =>
        let (id, s) := s.internInode e.firstCluster e.fileSize e.isDir
        (.ok id, s)

/-- `create`. -/
def create (s : Fat32) (dirId : Nat) (name : List UInt8) : Except String Nat × Fat32 :=
  match s.inodes.get dirId with
  | none => (.error "inode not found", s)
  | some dir =>
    if dir.isDir = false then (.error "not a directory", s)
    else
      match findEntry (s.readDirRaw dir.firstCluster) (toShortName upper name) with
      | some _ => (.error "file already exists", s)
      | none =>
        let entry := RawDirEntry.new (toShortName upper name) (toShortName_length upper name)
          attrArchive 0
        match s.writeDirEntry dir.firstCluster entry true with
        | (.error e, s) => (.error e, s)
        | (.ok (), s) =>
          match s.flushFat with
          | (false, s) => (.error "fat flush failed", s)
          | (true, s) =>
            let (id, s) := s.internInode 0 0 false
            (.ok id, s)

/-- The name of the `.` entry. -/
def dotName : List UInt8 := 0x2E :: List.replicate 10 0x20

/-- The name of the `..` entry. -/
def dotdotName : List UInt8 := 0x2E :: 0x2E :: List.replicate 9 0x20

/-- `mkdir`. -/
def mkdir (s : Fat32) (dirId : Nat) (name : List UInt8) : Except String Nat × Fat32 :=
  match s.inodes.get dirId with
  | none => (.error "inode not found", s)
  | some dir =>
    if dir.isDir = false then (.error "not a directory", s)
    else
      match findEntry (s.readDirRaw dir.firstCluster) (toShortName upper name) with
      | some _ => (.error "dir already exists", s)
      | none =>
        match s.allocCluster with
        | none => (.error "out of clusters", s)
        | some (newCluster, s) =>
          let dot := RawDirEntry.new dotName rfl attrDir newCluster
          let dotdot := RawDirEntry.new dotdotName rfl attrDir dir.firstCluster
          let buf := patch (patch (List.replicate s.geo.bytesPerCluster 0) 0 dot.pack) 32
            dotdot.pack
          match s.writeCluster newCluster buf with
          | (false, s) => (.error "ata write failed", s)
          | (true, s) =>
            let entry := RawDirEntry.new (toShortName upper name) (toShortName_length upper name)
              attrDir newCluster
            match s.writeDirEntry dir.firstCluster entry true with
            | (.error e, s) => (.error e, s)
            | (.ok (), s) =>
              match s.flushFat with
              | (false, s) => (.error "fat flush failed", s)
              | (true, s) =>
                let (id, s) := s.internInode newCluster 0 true
                (.ok id, s)

/-! ## Truncating and unlinking -/

/-- `truncate`. -/
def truncate (s : Fat32) (id size : Nat) : Except String Unit × Fat32 :=
  match s.inodes.get id with
  | none => (.error "inode not found", s)
  | some inode =>
    if inode.isDir then (.error "cannot truncate directory", s)
    else
      let newSize := size % 2 ^ 32
      let needed := s.clustersFor newSize
      let chain := s.clusterChain inode.firstCluster
      let s :=
        if needed < chain.length ∧ chain ≠ [] then
          let keep := max needed (if newSize = 0 then 0 else 1)
          let s := s.freeClusters (chain.drop keep)
          if newSize = 0 then
            (s.setFat (chain.getD 0 0) fatFree).setFirstCluster id 0
          else s.setFat (chain.getD (keep - 1) 0) fatEoc
        else s
      let s := s.setSize id newSize
      match s.flushFat with
      | (false, s) => (.error "fat flush failed", s)
      | (true, s) => s.updateDirEntrySize id

/-- `unlink`: the chain is freed first, then the entry goes, then the inode. -/
def unlink (s : Fat32) (dirId : Nat) (name : List UInt8) : Except String Unit × Fat32 :=
  match s.inodes.get dirId with
  | none => (.error "inode not found", s)
  | some dir =>
    if dir.isDir = false then (.error "not a directory", s)
    else
      match findEntry (s.readDirRaw dir.firstCluster) (toShortName upper name) with
      | none => (.error "file not found", s)
      | some t =>
        let s := if 2 ≤ t.firstCluster then s.freeChain t.firstCluster else s
        match s.removeDirEntry dir.firstCluster (toShortName upper name) with
        | (.error e, s) => (.error e, s)
        | (.ok (), s) =>
          match s.flushFat with
          | (false, s) => (.error "fat flush failed", s)
          | (true, s) =>
            match s.inodes.find? t.firstCluster t.isDir with
            | none => (.ok (), s)
            | some victim => (.ok (), { s with inodes := s.inodes.remove victim })

end AeroOS.Fat32
