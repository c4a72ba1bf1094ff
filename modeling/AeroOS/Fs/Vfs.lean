import Mathlib.Data.List.Sort

/-!
# The virtual filesystem

`fs/mod.rs`: the mount table, path resolution and whole-file reads.  A path is
its bytes.  `σ` is the state behind all mounted filesystems, and `FileOps σ` is
one of them: its methods on that state.

* `Vfs.resolve` goes from a path to a mount and an inode.
* `Vfs.readAll` is `read_all`.  `readAllLoop_of_read` is its loop on a file that
  one call of `read` returns whole.
-/

namespace AeroOS.Fs

/-- A path or a name, by its bytes. -/
abbrev Path := List UInt8

/-- `/`. -/
def slash : UInt8 := 0x2F

/-- `FileType`. -/
inductive FileType where
  | regular | directory | charDevice | blockDevice
  deriving DecidableEq, Repr

/-- `DirEntry`. -/
structure DirEntry where
  name : Path
  inodeId : Nat
  fileType : FileType

/-- The trait `FileOps`.  A method that reads returns the buffer it was given. -/
structure FileOps (σ : Type) where
  read : σ → Nat → Nat → List UInt8 → Except String (Nat × List UInt8) × σ
  write : σ → Nat → Nat → List UInt8 → Except String Nat × σ
  size : σ → Nat → Nat
  fileType : σ → Nat → FileType
  readdir : σ → Nat → Except String (List DirEntry) × σ
  lookup : σ → Nat → Path → Except String Nat × σ
  create : σ → Nat → Path → Except String Nat × σ
  mkdir : σ → Nat → Path → Except String Nat × σ
  truncate : σ → Nat → Nat → Except String Unit × σ
  unlink : σ → Nat → Path → Except String Unit × σ

/-- `Mount`. -/
structure Mount (σ : Type) where
  mountPoint : Path
  rootInode : Nat
  ops : FileOps σ

/-- `VfsFile`. -/
structure VfsFile where
  inodeId : Nat
  mountIdx : Nat
  offset : Nat
  fileType : FileType

/-- The mount table. -/
structure Vfs (σ : Type) where
  mounts : List (Mount σ)

namespace Vfs

variable {σ : Type} (v : Vfs σ)

/-- `mount`: the longest mount points come first, the older of two equal ones
before the newer. -/
def mount (mountPoint : Path) (rootInode : Nat) (ops : FileOps σ) : Vfs σ where
  mounts := (v.mounts ++ [(⟨mountPoint, rootInode, ops⟩ : Mount σ)]).insertionSort
    fun a b => b.mountPoint.length ≤ a.mountPoint.length

/-- A path lies under a mount point. -/
def matched (mountPoint path : Path) : Bool :=
  if mountPoint = [slash] then path.head? == some slash
  else path == mountPoint || (mountPoint ++ [slash]).isPrefixOf path

/-- What is left of a path under a mount point. -/
def relative (mountPoint path : Path) : Path :=
  if path = mountPoint then []
  else if mountPoint = [slash] then path.drop 1
  else path.drop mountPoint.length

/-- `find_mount`. -/
def findMount (path : Path) : Option (Nat × Path) :=
  (v.mounts.findIdx? fun m => matched m.mountPoint path).map fun i =>
    (i, relative ((v.mounts[i]?.map (·.mountPoint)).getD []) path)

/-- `trim_matches('/')`. -/
def trimSlashes (p : Path) : Path :=
  ((p.dropWhile (· == slash)).reverse.dropWhile (· == slash)).reverse

/-- The components of a relative path. -/
def components (p : Path) : List Path :=
  ((trimSlashes p).splitOn slash).filter (· ≠ [])

/-- The loop of `resolve` over the components. -/
def walk (ops : FileOps σ) : List Path → Nat → σ → Except String Nat × σ
  | [], inode, s => (.ok inode, s)
  | c :: cs, inode, s =>
    if ops.fileType s inode ≠ .directory then (.error "not a directory", s)
    else
      match ops.lookup s inode c with
      | (.error e, s) => (.error e, s)
      | (.ok inode, s) => walk ops cs inode s

/-- `resolve`: the mount's index and the inode. -/
def resolve (path : Path) (s : σ) : Except String (Nat × Nat) × σ :=
  match v.findMount path with
  | none => (.error "no mount for path", s)
  | some (idx, rel) =>
    match v.mounts[idx]? with
    | none => (.error "no mount for path", s)
    | some m =>
      if rel = [] ∨ rel = [slash] then (.ok (idx, m.rootInode), s)
      else
        match walk m.ops (components rel) m.rootInode s with
        | (.error e, s) => (.error e, s)
        | (.ok inode, s) => (.ok (idx, inode), s)

/-- Where the last slash of a path is, `rfind('/')`. -/
def rfindSlash (path : Path) : Option Nat :=
  (List.range path.length).reverse.find? fun i => path.getD i 0 == slash

/-- `split_parent_name`. -/
def splitParentName (path : Path) : Path × Path :=
  match rfindSlash path with
  | none => ([slash], path)
  | some 0 => ([slash], path.drop 1)
  | some i => (path.take i, path.drop (i + 1))

/-- The second arm of `open`: the file is created in its parent directory. -/
def createAt (path : Path) (s : σ) : Except String (Nat × Nat) × σ :=
  match v.findMount path with
  | none => (.error "no mount for path", s)
  | some (idx, _) =>
    match v.resolve (splitParentName path).1 s with
    | (.error e, s) => (.error e, s)
    | (.ok (_, parent), s) =>
      match v.mounts[idx]? with
      | none => (.error "no mount for path", s)
      | some m =>
        match m.ops.create s parent (splitParentName path).2 with
        | (.error e, s) => (.error e, s)
        | (.ok inode, s) => (.ok (idx, inode), s)

/-- The file for an inode. -/
def fileAt (r : Except String (Nat × Nat) × σ) : Except String VfsFile × σ :=
  match r with
  | (.error e, s) => (.error e, s)
  | (.ok (idx, inode), s) =>
    match v.mounts[idx]? with
    | none => (.error "no mount for path", s)
    | some m => (.ok ⟨inode, idx, 0, m.ops.fileType s inode⟩, s)

/-- `open`. -/
def openPath (path : Path) (create : Bool) (s : σ) : Except String VfsFile × σ :=
  match v.resolve path s with
  | (.ok r, s) => v.fileAt (.ok r, s)
  | (.error e, s) => if create then v.fileAt (v.createAt path s) else (.error e, s)

/-- `read`: the count and the buffer, and the file with its offset moved. -/
def read (file : VfsFile) (buf : List UInt8) (s : σ) :
    Except String (Nat × List UInt8) × VfsFile × σ :=
  match v.mounts[file.mountIdx]? with
  | none => (.error "no mount for path", file, s)
  | some m =>
    match m.ops.read s file.inodeId file.offset buf with
    | (.error e, s) => (.error e, file, s)
    | (.ok (n, buf), s) => (.ok (n, buf), { file with offset := file.offset + n }, s)

/-- `write`. -/
def write (file : VfsFile) (buf : List UInt8) (s : σ) : Except String Nat × VfsFile × σ :=
  match v.mounts[file.mountIdx]? with
  | none => (.error "no mount for path", file, s)
  | some m =>
    match m.ops.write s file.inodeId file.offset buf with
    | (.error e, s) => (.error e, file, s)
    | (.ok n, s) => (.ok n, { file with offset := file.offset + n }, s)

/-- `size`. -/
def size (file : VfsFile) (s : σ) : Nat :=
  (v.mounts[file.mountIdx]?).elim 0 fun m => m.ops.size s file.inodeId

/-- The loop of `read_all` into a buffer of `len` bytes, of which `total` are
filled. -/
def readAllLoop (len : Nat) (file : VfsFile) (buf : List UInt8) (total : Nat) (s : σ) :
    Except String (List UInt8) × σ :=
  if _h : total < len then
    match v.read file (buf.drop total) s with
    | (.error e, _, s) => (.error e, s)
    | (.ok (n, part), file, s) =>
      if n = 0 then (.ok ((buf.take total ++ part).take total), s)
      else readAllLoop len file (buf.take total ++ part) (total + n) s
  else (.ok (buf.take total), s)
termination_by len - total

/-- `read_all`, where the buffer fits in the heap. -/
def readAll (path : Path) (s : σ) : Except String (List UInt8) × σ :=
  match v.openPath path false s with
  | (.error e, s) => (.error e, s)
  | (.ok file, s) =>
    v.readAllLoop (v.size file s) file (List.replicate (v.size file s) 0) 0 s

/-- `readdir`. -/
def readdir (path : Path) (s : σ) : Except String (List DirEntry) × σ :=
  match v.resolve path s with
  | (.error e, s) => (.error e, s)
  | (.ok (idx, inode), s) =>
    match v.mounts[idx]? with
    | none => (.error "no mount for path", s)
    | some m => m.ops.readdir s inode

/-- A file that one call of `read` returns whole. -/
theorem readAllLoop_of_read {file : VfsFile} (file' : VfsFile) {len : Nat}
    {buf out : List UInt8} {s s' : σ} (hlen : 0 < len) (hout : out.length = len)
    (hread : v.read file buf s = (.ok (len, out), file', s')) :
    v.readAllLoop len file buf 0 s = (.ok out, s') := by
  rw [readAllLoop, dif_pos hlen, List.drop_zero, hread]
  simp only
  rw [if_neg (by omega), readAllLoop, dif_neg (by omega), List.take_zero, List.nil_append,
    Nat.zero_add, ← hout, List.take_length]

/-- An empty file. -/
theorem readAllLoop_zero (file : VfsFile) (buf : List UInt8) (s : σ) :
    v.readAllLoop 0 file buf 0 s = (.ok [], s) := by
  rw [readAllLoop, dif_neg (Nat.lt_irrefl 0), List.take_zero]

end Vfs

/-! ## What the operations on names keep -/

/-- The operations on names keep `f` of the state. -/
structure FileOps.Keeps {σ α : Type} (ops : FileOps σ) (f : σ → α) : Prop where
  readdir : ∀ s id, f (ops.readdir s id).2 = f s
  lookup : ∀ s id name, f (ops.lookup s id name).2 = f s
  create : ∀ s id name, f (ops.create s id name).2 = f s
  mkdir : ∀ s id name, f (ops.mkdir s id name).2 = f s
  unlink : ∀ s id name, f (ops.unlink s id name).2 = f s

namespace Vfs

variable {σ α : Type} {v : Vfs σ} {f : σ → α}

/-- Every mounted filesystem keeps `f`. -/
def Keeps (v : Vfs σ) (f : σ → α) : Prop := ∀ m ∈ v.mounts, m.ops.Keeps f

theorem Keeps.get (h : v.Keeps f) {i : Nat} {m : Mount σ} (hm : v.mounts[i]? = some m) :
    m.ops.Keeps f := h m (List.mem_of_getElem? hm)

theorem walk_keeps {ops : FileOps σ} (h : ops.Keeps f) (cs : List Path) (inode : Nat) (s : σ) :
    f (walk ops cs inode s).2 = f s := by
  induction cs generalizing inode s with
  | nil => rfl
  | cons c cs ih =>
    have hl := h.lookup s inode c
    rw [walk]
    split
    · rfl
    · rcases hres : ops.lookup s inode c with ⟨r, t⟩
      rw [hres] at hl
      cases r with
      | error e => exact hl
      | ok i => exact (ih i t).trans hl

theorem Keeps.resolve (h : v.Keeps f) (path : Path) (s : σ) : f (v.resolve path s).2 = f s := by
  rw [Vfs.resolve]
  cases v.findMount path with
  | none => rfl
  | some r =>
    simp only
    cases hm : v.mounts[r.1]? with
    | none => rfl
    | some m =>
      simp only
      split
      · rfl
      · have hw := walk_keeps (h.get hm) (components r.2) m.rootInode s
        rcases hres : walk m.ops (components r.2) m.rootInode s with ⟨r', t⟩
        rw [hres] at hw
        cases r' <;> exact hw

theorem Keeps.createAt (h : v.Keeps f) (path : Path) (s : σ) : f (v.createAt path s).2 = f s := by
  rw [Vfs.createAt]
  cases v.findMount path with
  | none => rfl
  | some r =>
    have hr := h.resolve (splitParentName path).1 s
    simp only
    rcases hres : v.resolve (splitParentName path).1 s with ⟨r', t⟩
    rw [hres] at hr
    cases r' with
    | error e => exact hr
    | ok p =>
      simp only
      cases hm : v.mounts[r.1]? with
      | none => exact hr
      | some m =>
        have hc := (h.get hm).create t p.2 (splitParentName path).2
        simp only
        rcases hres' : m.ops.create t p.2 (splitParentName path).2 with ⟨r', u⟩
        rw [hres'] at hc
        cases r' <;> exact hc.trans hr

theorem fileAt_keeps (r : Except String (Nat × Nat) × σ) : (v.fileAt r).2 = r.2 := by
  obtain ⟨r, s⟩ := r
  cases r with
  | error e => rfl
  | ok p =>
    rw [fileAt]
    cases v.mounts[p.1]? <;> rfl

theorem Keeps.openPath (h : v.Keeps f) (path : Path) (create : Bool) (s : σ) :
    f (v.openPath path create s).2 = f s := by
  have hr := h.resolve path s
  rw [Vfs.openPath]
  rcases hres : v.resolve path s with ⟨r, t⟩
  rw [hres] at hr
  cases r with
  | ok p => exact (congrArg f (fileAt_keeps _)).trans hr
  | error e =>
    simp only
    split
    · exact (congrArg f (fileAt_keeps _)).trans ((h.createAt path t).trans hr)
    · exact hr

theorem Keeps.readdir (h : v.Keeps f) (path : Path) (s : σ) : f (v.readdir path s).2 = f s := by
  have hr := h.resolve path s
  rw [Vfs.readdir]
  rcases hres : v.resolve path s with ⟨r, t⟩
  rw [hres] at hr
  cases r with
  | error e => exact hr
  | ok p =>
    simp only
    cases hm : v.mounts[p.1]? with
    | none => exact hr
    | some m => exact ((h.get hm).readdir t p.2).trans hr

/-- A loop of reads that keep `f`. -/
theorem readAllLoop_keeps {idx inode : Nat} {m : Mount σ} (hm : v.mounts[idx]? = some m)
    (h : ∀ s offset buf, f (m.ops.read s inode offset buf).2 = f s) (len : Nat)
    (file : VfsFile) (hidx : file.mountIdx = idx) (hinode : file.inodeId = inode)
    (buf : List UInt8) (total : Nat) (s : σ) :
    f (v.readAllLoop len file buf total s).2 = f s := by
  induction hk : len - total using Nat.strongRecOn generalizing file buf total s with
  | ind k ih =>
    rw [readAllLoop]
    by_cases hlt : total < len
    · have hkeep := h s file.offset (buf.drop total)
      rw [dif_pos hlt, Vfs.read, hidx, hm]
      simp only [hinode]
      rcases hres : m.ops.read s inode file.offset (buf.drop total) with ⟨r, t⟩
      rw [hres] at hkeep
      cases r with
      | error e => exact hkeep
      | ok p =>
        simp only
        split
        · exact hkeep
        · exact (ih (len - (total + p.1)) (by omega)
            ⟨inode, idx, file.offset + p.1, file.fileType⟩ rfl rfl _ _ t rfl).trans hkeep
    · rw [dif_neg hlt]

end Vfs

end AeroOS.Fs
