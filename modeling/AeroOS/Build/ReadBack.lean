import AeroOS.Build.Mounted
import AeroOS.Fs.Vfs
import AeroOS.Fat32.NameEdits

/-!
# The driver reads what the builder wrote

* `Fat32.fileOps` is the driver as the VFS sees it, and `bootVfs` the mount table
  after boot.
* `Serving` is what stays true of the mounted image while its files are read:
  the volume itself, and an inode of a file has the file's cluster and size.
* `lookup_image` finds a file by its name, and `read_image` reads it.
* `readAll_image` is the result for `read_all`, after any reads before it.
-/

namespace AeroOS.Build

open Bytes Ata Fat32 Fs

/-! ## The driver in the VFS -/

/-- The type of an inode. -/
def inodeType (isDir : Bool) : FileType := if isDir then .directory else .regular

/-- The driver's methods, for the upper-case mapping `upper` of strings. -/
def fileOps (upper : List UInt8 → List UInt8) : FileOps Fat32 where
  read s id offset buf := (s.read id offset buf, s)
  write s id offset buf := s.write id offset buf
  size s id := s.size id
  fileType s id := (s.inodes.get id).elim .regular fun i => inodeType i.isDir
  readdir s id :=
    match s.readdir id with
    | (.error e, s) => (.error e, s)
    | (.ok es, s) => (.ok (es.map fun e => ⟨e.name, e.inodeId, inodeType e.isDir⟩), s)
  lookup s id name := s.lookup upper id name
  create s id name := s.create upper id name
  mkdir s id name := s.mkdir upper id name
  truncate s id size := s.truncate id size
  unlink s id name := s.unlink upper id name

/-- The driver beside the state of the other filesystems. -/
def besideOps {τ : Type} (ops : FileOps Fat32) : FileOps (Fat32 × τ) where
  read s id offset buf := ((ops.read s.1 id offset buf).1, (ops.read s.1 id offset buf).2, s.2)
  write s id offset buf := ((ops.write s.1 id offset buf).1, (ops.write s.1 id offset buf).2, s.2)
  size s id := ops.size s.1 id
  fileType s id := ops.fileType s.1 id
  readdir s id := ((ops.readdir s.1 id).1, (ops.readdir s.1 id).2, s.2)
  lookup s id name := ((ops.lookup s.1 id name).1, (ops.lookup s.1 id name).2, s.2)
  create s id name := ((ops.create s.1 id name).1, (ops.create s.1 id name).2, s.2)
  mkdir s id name := ((ops.mkdir s.1 id name).1, (ops.mkdir s.1 id name).2, s.2)
  truncate s id size := ((ops.truncate s.1 id size).1, (ops.truncate s.1 id size).2, s.2)
  unlink s id name := ((ops.unlink s.1 id name).1, (ops.unlink s.1 id name).2, s.2)

/-- `/dev`. -/
def devPoint : Path := [0x2F, 0x64, 0x65, 0x76]

/-- `/disk`. -/
def diskPoint : Path := [0x2F, 0x64, 0x69, 0x73, 0x6B]

/-- The mount table after boot: `/`, then `/disk`, then `/dev`. -/
def bootVfs {σ : Type} (root disk dev : FileOps σ) : Vfs σ :=
  (((⟨[]⟩ : Vfs σ).mount [slash] 1 root).mount diskPoint 1 disk).mount devPoint 1 dev

theorem bootVfs_mounts {σ : Type} (root disk dev : FileOps σ) :
    (bootVfs root disk dev).mounts =
      [⟨diskPoint, 1, disk⟩, ⟨devPoint, 1, dev⟩, ⟨[slash], 1, root⟩] := rfl

/-! ## Names -/

/-- The upper-case mapping of an ASCII byte. -/
def asciiUpper (b : UInt8) : UInt8 := if 0x61 ≤ b ∧ b ≤ 0x7A then b - 0x20 else b

/-- `to_uppercase` on ASCII strings. -/
def UpperAscii (upper : List UInt8 → List UInt8) : Prop :=
  ∀ name : List UInt8, (∀ b ∈ name, b < 0x80) → upper name = name.map asciiUpper

namespace File

/-- The name of a file in a path. -/
def name : File → Path
  | hello => [0x68, 0x65, 0x6C, 0x6C, 0x6F]
  | forktest => [0x66, 0x6F, 0x72, 0x6B, 0x74, 0x65, 0x73, 0x74]
  | sysutils => [0x73, 0x79, 0x73, 0x75, 0x74, 0x69, 0x6C, 0x73]
  | readme => [0x72, 0x65, 0x61, 0x64, 0x6D, 0x65]

/-- The path of a file. -/
def path (f : File) : Path := diskPoint ++ slash :: f.name

/-- The entry of a file. -/
def record (c : Contents) (f : File) : RawDirEntry :=
  fileRecord f.shortName (by cases f <;> rfl) (f.firstCluster c) (f.contents c).length

/-- The inode of a file. -/
def inode (c : Contents) (f : File) : FatInode where
  firstCluster := f.firstCluster c
  size := (f.contents c).length
  isDir := false

theorem toShortName_name {upper : List UInt8 → List UInt8} (hup : UpperAscii upper) (f : File) :
    toShortName upper f.name = f.shortName := by
  have h := hup f.name (by cases f <;> simp [name])
  cases f <;> (simp only [toShortName]; rw [h]; rfl)

theorem findMount_path {σ : Type} (root disk dev : FileOps σ) (f : File) :
    (bootVfs root disk dev).findMount f.path = some (0, slash :: f.name) := by
  cases f <;> rfl

theorem components_name (f : File) : Vfs.components (slash :: f.name) = [f.name] := by
  cases f <;> decide

end File

/-! ## What stays -/

/-- A state of the driver while the files of the image are read. -/
structure Serving (c : Contents) (p : Partition) (d : Disk) (s : Fat32) : Prop where
  geo : s.geo = imageGeometry p
  fatCache : s.fatCache = fatOfBytes (makeFat c)
  disk : s.disk = d
  root : s.inodes.get 1 = some ⟨FAT32_ROOT_CLUSTER, 0, true⟩
  files : ∀ id i, s.inodes.get id = some i → i.isDir = false → ∃ f : File, i = f.inode c

theorem serving_imageMount (c : Contents) (p : Partition) (d : Disk) :
    Serving c p d (imageMount c p d) where
  geo := rfl
  fatCache := rfl
  disk := rfl
  root := rfl
  files id i hi hk := by
    have hget : (imageMount c p d).inodes.get id =
        if id = 1 then some ⟨FAT32_ROOT_CLUSTER, 0, true⟩ else none := rfl
    rw [hget] at hi
    split at hi
    · cases hi
      cases hk
    · cases hi

namespace Serving

variable {c : Contents} {p : Partition} {d : Disk} {s : Fat32}

theorem clusterChain_eq (hs : Serving c p d s) (first : Nat) :
    s.clusterChain first = (imageMount c p d).clusterChain first := by
  rw [Fat32.clusterChain, Fat32.clusterChain, hs.geo, hs.fatCache]
  rfl

/-- The clusters of the partition can be read. -/
theorem readCluster_eq (hs : Serving c p d s) (hd : OnDisk c p d) {k : Nat} (h2 : 2 ≤ k)
    (hk : k < 16102) : s.readCluster k =
      some (readBytes s.disk.bytes (s.geo.clusterAddr k) s.geo.bytesPerCluster) := by
  have hadd := hd.addressable
  rw [Fat32.readCluster, s.geo.bytesPerCluster_eq, hs.disk]
  refine readSectors_eq hd.present s.geo.sectorsPerCluster_pos ?_
  rw [hs.geo]
  simp only [Geometry.clusterToLba, Geometry.dataStartLba, imageGeometry, FAT32_RSVD_SEC_CNT,
    FAT32_NUM_FATS, FAT32_FAT_SZ]
  unfold FAT32_SECTORS at hadd
  omega

theorem bytesPerCluster_eq (hs : Serving c p d s) : s.geo.bytesPerCluster = 512 := by
  rw [s.geo.bytesPerCluster_eq, hs.geo]
  simp only [imageGeometry, Nat.one_mul]

/-! ## The root directory -/

theorem stored_rootRecords (hc : c.Fits) {e : RawDirEntry} (he : e ∈ rootRecords c) :
    e.stored = e := by
  have hlt := hc.clusters_lt
  have h1 := hc.hello_le
  have h2 := hc.forktest_le
  have h3 := hc.readme_le
  have h4 : c.sysutils.length < 2 ^ 32 := by
    unfold SYSUTILS_START_CLUSTER sysutilsClusters at hlt
    omega
  have hfile {name : List UInt8} {h : name.length = 11} {cluster size : Nat}
      (hcl : cluster < 65536) (hsz : size < 4294967296) :
      (fileRecord name h cluster size).stored = fileRecord name h cluster size := by
    simp only [RawDirEntry.stored, fileRecord, Nat.reducePow, Nat.reduceMod,
      Nat.mod_eq_of_lt hcl, Nat.mod_eq_of_lt hsz]
  simp only [rootRecords, List.mem_cons, List.not_mem_nil, or_false] at he
  rcases he with rfl | rfl | rfl | rfl | rfl
  · rfl
  · exact hfile (by omega) (by omega)
  · exact hfile (by omega) (by omega)
  · exact hfile (by decide) h4
  · exact hfile (by omega) (by omega)

/-- The slots of the root directory are the entries of the files. -/
theorem ofBytes_makeRootCluster (hc : c.Fits) {i : Nat} (hi : i < (rootRecords c).length) :
    RawDirEntry.ofBytes ((makeRootCluster c).getD · 0) (i * 32) = (rootRecords c)[i] := by
  have hpack := RawDirEntry.ofBytes_writeBytes_pack (fun _ => 0) (i * 32) (rootRecords c)[i]
  rw [stored_rootRecords hc (List.getElem_mem hi)] at hpack
  rw [← hpack]
  refine RawDirEntry.ofBytes_congr fun k hk => ?_
  have hlen := rootRecords_flatMap_length c
  have hi5 : i < 5 := hi
  rw [writeBytes_in _ _ (by simpa using hk) 0, makeRootCluster_eq,
    List.getD_append _ _ _ _ (by omega), flatMap_getD RawDirEntry.pack_length _ hi hk]

/-- The root directory as `read_dir_raw` decodes it. -/
theorem readDirRaw_root (hs : Serving c p d s) (hc : c.Fits) (hd : OnDisk c p d) :
    ∃ rest, s.readDirRaw FAT32_ROOT_CLUSTER = rootRecords c ++ rest := by
  have hslots : s.slotCount = 5 + 11 := by
    rw [slotCount, hs.bytesPerCluster_eq]
  have hroot : readBytes s.disk.bytes (s.geo.clusterAddr FAT32_ROOT_CLUSTER)
      s.geo.bytesPerCluster = makeRootCluster c := by
    have h := (hd.stored_root hc).readBytes
    rw [makeRootCluster_length, ← hs.disk, ← hs.geo] at h
    rw [hs.bytesPerCluster_eq, FAT32_ROOT_CLUSTER, h]
  have hfive : (List.range 5).map (fun i =>
      RawDirEntry.ofBytes ((makeRootCluster c).getD · 0) (i * 32)) = rootRecords c := by
    refine List.ext_getElem (by rw [List.length_map, List.length_range]; rfl) fun i hi hi' => ?_
    rw [List.getElem_map, List.getElem_range]
    exact ofBytes_makeRootCluster hc hi'
  rw [readDirRaw, hs.clusterChain_eq, chain_root hc, readDirClusters,
    hs.readCluster_eq hd (by decide) (by decide), hroot, hslots]
  simp only [List.range_add, List.map_append, hfive, List.append_assoc]
  exact ⟨_, rfl⟩

/-- The files in the order of their entries. -/
def allFiles : List File := [.hello, .forktest, .sysutils, .readme]

theorem rootRecords_eq (c : Contents) :
    rootRecords c = labelRecord :: allFiles.map (File.record c) := rfl

/-- The test of the search by name, on the entry of a file. -/
theorem record_test (c : Contents) (f g : File) :
    (!((g.record c).isFree || (g.record c).isLfn) && (g.record c).name == f.shortName) =
      decide (g = f) := by
  have hfree : (g.record c).isFree =
      (g.shortName.getD 0 0 == 0x00 || g.shortName.getD 0 0 == 0xE5) := rfl
  have hlfn : (g.record c).isLfn = ((0x20 : UInt8) &&& attrLfn == attrLfn) := rfl
  have hname : (g.record c).name = g.shortName := rfl
  rw [hfree, hlfn, hname]
  cases f <;> cases g <;> decide

/-- The search finds the entry of the file. -/
theorem findEntry_root (c : Contents) (rest : List RawDirEntry) (f : File) :
    findEntry (rootRecords c ++ rest) f.shortName = some (f.record c) := by
  have hlabel : (!(labelRecord.isFree || labelRecord.isLfn) &&
      labelRecord.name == f.shortName) = false := by
    cases f <;> decide
  have hfiles : allFiles.find? (fun g => decide (g = f)) = some f := by
    cases f <;> rfl
  rw [findEntry, rootRecords_eq, List.cons_append, List.find?_cons_of_neg (by rw [hlabel]; decide),
    List.find?_append, List.find?_map]
  simp only [Function.comp_def, record_test, hfiles, Option.map_some, Option.some_or]

theorem record_firstCluster (c : Contents) (f : File) :
    (f.record c).firstCluster = f.firstCluster c := by
  simp [File.record, fileRecord, RawDirEntry.firstCluster]

theorem record_isDir (c : Contents) (f : File) : (f.record c).isDir = false :=
  show ((0x20 : UInt8) &&& attrDir != 0) = false by decide

/-- No two files start at the same cluster. -/
theorem firstCluster_inj (hc : c.Fits) {f g : File} (h : f.firstCluster c = g.firstCluster c) :
    f = g := by
  have hpos := hc.clusters_pos
  unfold File.firstCluster SYSUTILS_START_CLUSTER at h
  cases f <;> cases g <;> simp only at h <;> first | rfl | omega

/-- An inode that is made, or found, for the entry of a file. -/
theorem internInode (hs : Serving c p d s) (hc : c.Fits) (f : File) :
    Serving c p d (s.internInode (f.firstCluster c) (f.contents c).length false).2 ∧
      (s.internInode (f.firstCluster c) (f.contents c).length false).2.inodes.get
        (s.internInode (f.firstCluster c) (f.contents c).length false).1 = some (f.inode c) := by
  obtain ⟨i, hi, hfirst, hk⟩ := s.internInode_get (f.firstCluster c) (f.contents c).length false
  have hserves : Serving c p d
      (s.internInode (f.firstCluster c) (f.contents c).length false).2 := by
    refine ⟨(internInode_geo ..).trans hs.geo, (internInode_fatCache ..).trans hs.fatCache,
      (internInode_disk ..).trans hs.disk, internInode_get_of_some hs.root, ?_⟩
    intro id i hi hk
    rcases internInode_get_cases hi with hold | rfl
    · exact hs.files id i hold hk
    · exact ⟨f, rfl⟩
  -- the inode is one of a file, and its cluster says which file
  obtain ⟨g, rfl⟩ := hserves.files _ i hi hk
  obtain rfl : g = f := firstCluster_inj hc hfirst
  exact ⟨hserves, hi⟩

/-- A file is found by its name. -/
theorem lookup_image (hs : Serving c p d s) (hc : c.Fits) (hd : OnDisk c p d)
    {upper : List UInt8 → List UInt8} (hup : UpperAscii upper) (f : File) :
    ∃ id s', s.lookup upper 1 f.name = (.ok id, s') ∧ Serving c p d s' ∧
      s'.inodes.get id = some (f.inode c) := by
  obtain ⟨rest, hraw⟩ := hs.readDirRaw_root hc hd
  have hint := hs.internInode hc f
  refine ⟨_, _, ?_, hint⟩
  rw [lookup, hs.root]
  simp only [Bool.true_eq_false, if_false, hraw, File.toShortName_name hup, findEntry_root,
    record_firstCluster, record_isDir]
  rfl

/-! ## Reading a file -/

theorem chain_length (hc : c.Fits) (f : File) :
    (f.contents c).length ≤ (f.chain c).length * 512 := by
  have h1 := hc.hello_le
  have h2 := hc.forktest_le
  have h3 := hc.readme_le
  cases f with
  | sysutils =>
    simp only [File.contents, File.chain, List.length_map, List.length_range, sysutilsClusters]
    omega
  | _ =>
    simp only [File.contents, File.chain, List.length_singleton]
    omega

theorem contents_lt (hc : c.Fits) (f : File) : (f.contents c).length < 2 ^ 64 := by
  have hlen := chain_length hc f
  have hlt := hc.clusters_lt
  unfold SYSUTILS_START_CLUSTER at hlt
  cases f with
  | sysutils =>
    simp only [File.chain, List.length_map, List.length_range] at hlen
    omega
  | _ =>
    simp only [File.chain, List.length_singleton] at hlen
    omega

/-- The clusters of a file lie one behind another. -/
theorem chain_getD (c : Contents) (f : File) {j : Nat} (hj : j < (f.chain c).length) :
    (f.chain c).getD j 0 = f.firstCluster c + j := by
  cases f with
  | sysutils =>
    rw [File.chain, List.length_map, List.length_range] at hj
    rw [List.getD_eq_getElem _ _ (by simpa [File.chain] using hj)]
    simp [File.chain, File.firstCluster]
  | _ =>
    obtain rfl : j = 0 := by simpa [File.chain] using hj
    rfl

theorem chain_bounds (hc : c.Fits) (f : File) : ∀ k ∈ f.chain c, 2 ≤ k ∧ k < 16102 := by
  have hlt := hc.clusters_lt
  unfold SYSUTILS_START_CLUSTER at hlt
  intro k hk
  cases f with
  | sysutils =>
    obtain ⟨i, hi, rfl⟩ := List.mem_map.1 hk
    have := List.mem_range.1 hi
    unfold SYSUTILS_START_CLUSTER
    omega
  | readme =>
    obtain rfl := List.mem_singleton.1 hk
    unfold SYSUTILS_START_CLUSTER
    omega
  | _ =>
    obtain rfl := List.mem_singleton.1 hk
    omega

/-- Reading an inode of a file gives the file. -/
theorem read_image (hs : Serving c p d s) (hc : c.Fits) (hd : OnDisk c p d) {id : Nat} {f : File}
    (hi : s.inodes.get id = some (f.inode c)) (hpos : 0 < (f.contents c).length) :
    s.read id 0 (List.replicate (f.contents c).length 0) =
      .ok ((f.contents c).length, f.contents c) := by
  have hchain : s.clusterChain (f.firstCluster c) = f.chain c := by
    rw [hs.clusterChain_eq, chain_file hc]
  have hlen := chain_length hc f
  have hbpc := hs.bytesPerCluster_eq
  have hfirst : 2 ≤ f.firstCluster c := by
    unfold File.firstCluster SYSUTILS_START_CLUSTER
    cases f <;> simp only <;> omega
  -- the view of the file is one range of the disk
  have hview : readBytes (fileView s.geo (f.chain c) s.disk.bytes) 0 (f.contents c).length =
      f.contents c := by
    refine readBytes_eq_of_getD rfl fun k hk => ?_
    have haddr : fileAddr s.geo (f.chain c) (0 + k) =
        (imageGeometry p).clusterAddr (f.firstCluster c) + k := by
      rw [fileAddr, hbpc, chain_getD c f (by omega), hs.geo, OnDisk.clusterAddr_eq,
        OnDisk.clusterAddr_eq p (f.firstCluster c)]
      omega
    rw [fileView, haddr, hs.disk]
    exact hd.stored_file hc f k hk
  have hsize : (f.contents c).length < 2 ^ 64 := contents_lt hc f
  have hstop : min (f.contents c).length
      ((0 + (List.replicate (f.contents c).length (0 : UInt8)).length) % 2 ^ 64) =
      (f.contents c).length := by
    rw [List.length_replicate, Nat.zero_add, Nat.mod_eq_of_lt hsize, Nat.min_self]
  have hnonempty : ¬ ((f.inode c).isDir = true ∨
      List.replicate (f.contents c).length (0 : UInt8) = []) := by
    rintro (h | h)
    · cases h
    · rw [List.replicate_eq_nil_iff] at h
      omega
  have hsome : ¬ (f.inode c).size ≤ 0 := Nat.not_le_of_lt hpos
  have hloop : s.readLoop (s.clusterChain (f.firstCluster c)) 0 (f.contents c).length 0
      (List.replicate (f.contents c).length 0) 0 =
        .ok ((f.contents c).length, f.contents c) := by
    rw [hchain, readLoop_of_readCluster
      (fun k hk => hs.readCluster_eq hd (chain_bounds hc f k hk).1 (chain_bounds hc f k hk).2)
      (by rw [hbpc]; exact hlen) (Nat.le_refl 0) (by simp) 0, Nat.sub_zero, hview,
      patch_all (by simp), Nat.zero_add]
  rw [Fat32.read, hi]
  simp only
  rw [if_neg hnonempty, if_neg hsome, ← hloop]
  exact congrArg (fun n => s.readLoop _ 0 n 0 _ 0) hstop

end Serving

/-! ## Whole files through the VFS -/

section vfs

variable {τ : Type} {c : Contents} {p : Partition} {d : Disk}
  {upper : List UInt8 → List UInt8} (root dev : FileOps (Fat32 × τ))

/-- `read_all` of the path of a file gives the file, and what stays, stays. -/
theorem readAll_serving (hc : c.Fits) (hd : OnDisk c p d) (hup : UpperAscii upper) (f : File)
    {s : Fat32} (hs : Serving c p d s) (t : τ) :
    ∃ s', (bootVfs root (besideOps (fileOps upper)) dev).readAll f.path (s, t) =
        (.ok (f.contents c), s', t) ∧ Serving c p d s' := by
  obtain ⟨id, s', hlook, hs', hid⟩ := hs.lookup_image hc hd hup f
  refine ⟨s', ?_, hs'⟩
  generalize hv : bootVfs root (besideOps (fileOps upper)) dev = v
  have hmount : v.mounts[0]? = some ⟨diskPoint, 1, besideOps (fileOps upper)⟩ := by
    rw [← hv, bootVfs_mounts]
    rfl
  have hfind : v.findMount f.path = some (0, slash :: f.name) := by
    rw [← hv]
    exact f.findMount_path root _ dev
  have hrel : ¬ (slash :: f.name = [] ∨ slash :: f.name = [slash]) := by
    cases f <;> decide
  have hdir : (besideOps (fileOps upper)).fileType (s, t) 1 = .directory := by
    simp only [besideOps, fileOps, hs.root]
    rfl
  have hfound : (besideOps (fileOps upper)).lookup (s, t) 1 f.name = (.ok id, s', t) := by
    simp only [besideOps, fileOps, hlook]
  have hwalk : Vfs.walk (besideOps (fileOps upper)) [f.name] 1 (s, t) = (.ok id, s', t) := by
    rw [Vfs.walk, if_neg (not_not_intro hdir), hfound]
    rfl
  have hresolve : v.resolve f.path (s, t) = (.ok (0, id), s', t) := by
    rw [Vfs.resolve, hfind]
    simp only [hmount]
    rw [if_neg hrel, f.components_name, hwalk]
  have hopen : v.openPath f.path false (s, t) = (.ok ⟨id, 0, 0, .regular⟩, s', t) := by
    rw [Vfs.openPath, hresolve]
    simp only [Vfs.fileAt, hmount, besideOps, fileOps, hid]
    rfl
  have hsize : v.size ⟨id, 0, 0, .regular⟩ (s', t) = (f.contents c).length := by
    simp only [Vfs.size, hmount, Option.elim_some, besideOps, fileOps, Fat32.size, hid]
    rfl
  rw [Vfs.readAll, hopen]
  simp only [hsize]
  by_cases h0 : (f.contents c).length = 0
  · rw [h0, Vfs.readAllLoop_zero, List.eq_nil_of_length_eq_zero h0]
  · have hread := hs'.read_image hc hd hid (Nat.pos_of_ne_zero h0)
    refine v.readAllLoop_of_read ⟨id, 0, (f.contents c).length, .regular⟩
      (Nat.pos_of_ne_zero h0) rfl ?_
    simp only [Vfs.read, hmount, besideOps, fileOps, hread, Nat.zero_add]

/-- A disk that holds the image mounts, and then `read_all` gives each file, in any
order and as often as one likes. -/
theorem readAll_image (hc : c.Fits) (hd : OnDisk c p d) (hup : UpperAscii upper) (t : τ) :
    ∃ s, init d = some (p, s) ∧ ∀ (earlier : List File) (f : File),
      let v := bootVfs root (besideOps (fileOps upper)) dev
      (v.readAll f.path (earlier.foldl (fun s g => (v.readAll g.path s).2) (s, t))).1 =
        .ok (f.contents c) := by
  refine ⟨_, init_image hc hd, fun earlier f => ?_⟩
  intro v
  have hstay : ∃ s', earlier.foldl (fun s g => (v.readAll g.path s).2) (imageMount c p d, t) =
      (s', t) ∧ Serving c p d s' := by
    induction earlier using List.reverseRecOn with
    | nil => exact ⟨_, rfl, serving_imageMount c p d⟩
    | append_singleton l g ih =>
      obtain ⟨s, hs, hserv⟩ := ih
      obtain ⟨s', hread, hserv'⟩ := readAll_serving root dev hc hd hup g hserv t
      rw [List.foldl_append, hs]
      exact ⟨s', congrArg Prod.snd hread, hserv'⟩
  obtain ⟨s', hs, hserv⟩ := hstay
  obtain ⟨s'', hread, -⟩ := readAll_serving root dev hc hd hup f hserv t
  rw [hs]
  exact congrArg Prod.fst hread

theorem readAll_image_one_byte :
    let ops := fileOps (List.map asciiUpper)
    let v := bootVfs (besideOps ops) (besideOps ops) (besideOps ops)
    ∃ s, init (bareDisk oneByteFiles) = some (barePartition, s) ∧
      ∀ (earlier : List File) (f : File),
        (v.readAll f.path (earlier.foldl (fun s g => (v.readAll g.path s).2) (s, ()))).1 =
          .ok (f.contents oneByteFiles) :=
  readAll_image _ _ oneByteFiles_fits
    (onDisk_bareDisk oneByteFiles) (fun _ _ => rfl) ()

end vfs

end AeroOS.Build
