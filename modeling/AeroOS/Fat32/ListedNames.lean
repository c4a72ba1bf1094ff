import AeroOS.Build.Layout
import AeroOS.Fat32.DirEffects
import AeroOS.Fat32.ShortNames

/-!
# FAT32: looking up what `readdir` lists

`readdir` and `lookup` intern an inode by its first cluster and type, so a listed
name resolves to its id where the search for it ends at an entry with these.

* `listEntries_forall₂`: what `readdir` makes of the entries that it lists.
* `lookup_listed_iff`: when a listed name resolves to the id it is listed with.
* `listedResolve_iff` is this for all names of a directory, by the shape of their
  short names.
-/

namespace AeroOS.Fat32

open Build

variable {upper : List UInt8 → List UInt8} {s : Fat32} {dirId : Nat} {h h' size id : Nat}
  {k k' : Bool} {es : List RawDirEntry} {e : RawDirEntry}

/-! ## Interning what is interned -/

theorem InodeTable.find?_eq (t : InodeTable) (h : Nat) (k : Bool) : t.find? h k =
    (List.range t.next).find? fun id =>
      (t.get id).any fun i => i.firstCluster == h && i.isDir == k := by
  rw [InodeTable.find?]
  refine List.find?_congr fun id _ => ?_
  cases t.get id with
  | none => rfl
  | some i => rfl

theorem InodeTable.find?_insert (t : InodeTable) (i : FatInode) (h : Nat) (k : Bool) :
    (t.insert i).find? h k = (t.find? h k).or
      (if i.firstCluster = h ∧ i.isDir = k then some t.next else none) := by
  have hold : ((List.range t.next).find? fun id =>
      ((t.insert i).get id).any fun i => i.firstCluster == h && i.isDir == k) = t.find? h k := by
    rw [InodeTable.find?_eq]
    exact List.find?_congr fun x hx => by
      rw [t.insert_get_of_ne i (Nat.ne_of_lt (List.mem_range.mp hx))]
  have hnext : (t.insert i).next = t.next + 1 := rfl
  rw [InodeTable.find?_eq, hnext, List.range_succ, List.find?_append, hold]
  refine congrArg _ ?_
  rw [List.find?_singleton, t.insert_get_self, Option.any_some]
  by_cases hi : i.firstCluster = h ∧ i.isDir = k
  · rw [if_pos hi, if_pos (by simp [hi])]
  · rw [if_neg hi, if_neg (by simpa using hi)]

theorem internInode_of_find? (hf : s.inodes.find? h k = some id) (size : Nat) :
    s.internInode h size k = (id, s) := by
  rw [internInode, hf]

theorem internInode_find? (s : Fat32) (h size : Nat) (k : Bool) :
    (s.internInode h size k).2.inodes.find? h k = some (s.internInode h size k).1 := by
  cases hf : s.inodes.find? h k with
  | some id =>
    rw [internInode_of_find? hf]
    exact hf
  | none =>
    rw [internInode, hf]
    simp only [InodeTable.find?_insert, hf, and_self, if_true, Option.none_or]

theorem internInode_find?_of_some (hf : s.inodes.find? h k = some id) (h' size : Nat) (k' : Bool) :
    (s.internInode h' size k').2.inodes.find? h k = some id := by
  rw [internInode]
  cases s.inodes.find? h' k' with
  | some id' => exact hf
  | none =>
    simp only [InodeTable.find?_insert, hf, Option.some_or]

/-- An inode is of one first cluster and one type. -/
theorem InodeTable.find?_inj {t : InodeTable} (hf : t.find? h k = some id)
    (hf' : t.find? h' k' = some id) : h = h' ∧ k = k' := by
  obtain ⟨i, hi, hh, hk⟩ := InodeTable.find?_eq_some hf
  obtain ⟨i', hi', hh', hk'⟩ := InodeTable.find?_eq_some hf'
  obtain rfl := Option.some.inj (hi.symm.trans hi')
  exact ⟨hh.symm.trans hh', hk.symm.trans hk'⟩

/-! ## What is listed -/

theorem InodeTable.lt_of_get {t : InodeTable} {i : FatInode} (hi : t.get id = some i) :
    id < t.next := by
  by_contra hge
  rw [t.fresh id (Nat.le_of_not_lt hge)] at hi
  cases hi

theorem listEntries_skip (h : e.isListed = false) : listEntries (e :: es) s = listEntries es s := by
  rw [RawDirEntry.isListed, Bool.not_eq_false'] at h
  rw [listEntries, if_pos h]

theorem listEntries_listed (h : e.isListed = true) :
    listEntries (e :: es) s =
      ({ name := fromShortName e.name
         inodeId := (s.internInode e.firstCluster e.fileSize e.isDir).1
         isDir := e.isDir } ::
        (listEntries es (s.internInode e.firstCluster e.fileSize e.isDir).2).1,
        (listEntries es (s.internInode e.firstCluster e.fileSize e.isDir).2).2) := by
  rw [RawDirEntry.isListed, Bool.not_eq_true'] at h
  rw [listEntries, if_neg (by rw [h]; decide)]

theorem listEntries_find? (hf : s.inodes.find? h k = some id) (es : List RawDirEntry) :
    (listEntries es s).2.inodes.find? h k = some id := by
  induction es generalizing s with
  | nil => exact hf
  | cons e es ih =>
    cases he : e.isListed with
    | false =>
      rw [listEntries_skip he]
      exact ih hf
    | true =>
      rw [listEntries_listed he]
      exact ih (internInode_find?_of_some hf _ _ _)

/-- The listing has one item for each entry, with the id that its cluster and type
have in the end. -/
theorem listEntries_forall₂ (es : List RawDirEntry) (s : Fat32) :
    List.Forall₂ (fun e x => x.name = fromShortName e.name ∧ x.isDir = e.isDir ∧
        (listEntries es s).2.inodes.find? e.firstCluster e.isDir = some x.inodeId)
      (es.filter RawDirEntry.isListed) (listEntries es s).1 := by
  induction es generalizing s with
  | nil => exact List.Forall₂.nil
  | cons e es ih =>
    cases he : e.isListed with
    | false =>
      rw [listEntries_skip he, List.filter_cons_of_neg (by simp [he])]
      exact ih s
    | true =>
      rw [listEntries_listed he, List.filter_cons_of_pos he]
      refine List.Forall₂.cons ⟨rfl, rfl, ?_⟩ (ih _)
      exact listEntries_find? (internInode_find? _ _ _ _) es

theorem exists_of_forall₂ {α β : Type} {R : α → β → Prop} {as : List α} {bs : List β}
    (h : List.Forall₂ R as bs) :
    (∀ a ∈ as, ∃ b ∈ bs, R a b) ∧ ∀ b ∈ bs, ∃ a ∈ as, R a b := by
  induction h with
  | nil => exact ⟨fun a h => absurd h List.not_mem_nil, fun b h => absurd h List.not_mem_nil⟩
  | @cons a b _ _ hab _ ih =>
    refine ⟨List.forall_mem_cons.mpr ⟨⟨b, List.mem_cons_self, hab⟩, fun x hx => ?_⟩,
      List.forall_mem_cons.mpr ⟨⟨a, List.mem_cons_self, hab⟩, fun y hy => ?_⟩⟩
    · obtain ⟨y, hy, hxy⟩ := ih.1 x hx
      exact ⟨y, List.mem_cons_of_mem _ hy, hxy⟩
    · obtain ⟨x, hx, hxy⟩ := ih.2 y hy
      exact ⟨x, List.mem_cons_of_mem _ hx, hxy⟩

theorem readdir_of_dir {dir : FatInode} (hdir : s.inodes.get dirId = some dir)
    (hk : dir.isDir = true) :
    s.readdir dirId = (.ok (listEntries (s.readDirRaw dir.firstCluster) s).1,
      (listEntries (s.readDirRaw dir.firstCluster) s).2) := by
  rw [readdir, hdir]
  simp only [hk, Bool.true_eq_false, if_false]

/-! ## Looking a listed name up -/

/-- The entry has the first cluster and the type of `e`. -/
def SameInode (o : Option RawDirEntry) (e : RawDirEntry) : Prop :=
  ∃ e', o = some e' ∧ e'.firstCluster = e.firstCluster ∧ e'.isDir = e.isDir

/-- Every item of a listing resolves, under its name, to its id. -/
def ListedResolve (upper : List UInt8 → List UInt8) (s : Fat32) (dirId : Nat) : Prop :=
  ∀ out s', s.readdir dirId = (.ok out, s') →
    ∀ x ∈ out, (s'.lookup upper dirId x.name).1 = .ok x.inodeId

/-- In a state in which an entry has an id, a name resolves to this id where the
search for it ends at an entry of the same first cluster and type. -/
theorem lookup_listed_iff {dir : FatInode} (hdir : s.inodes.get dirId = some dir)
    (hk : dir.isDir = true) (hf : s.inodes.find? e.firstCluster e.isDir = some id)
    (name : List UInt8) : (s.lookup upper dirId name).1 = .ok id ↔
      SameInode (findEntry (s.readDirRaw dir.firstCluster) (toShortName upper name)) e := by
  rw [lookup, hdir]
  simp only [hk, Bool.true_eq_false, if_false]
  cases hfind : findEntry (s.readDirRaw dir.firstCluster) (toShortName upper name) with
  | none =>
    refine iff_of_false (fun h => by cases h) ?_
    rintro ⟨_, h, -⟩
    cases h
  | some e' =>
    constructor
    · intro h
      have hid : (s.internInode e'.firstCluster e'.fileSize e'.isDir).1 = id := Except.ok.inj h
      have hnew := internInode_find? s e'.firstCluster e'.fileSize e'.isDir
      rw [hid] at hnew
      exact ⟨e', rfl, InodeTable.find?_inj hnew (internInode_find?_of_some hf _ _ _)⟩
    · rintro ⟨_, heq, hh, hd⟩
      obtain rfl := Option.some.inj heq
      have hf' : s.inodes.find? e'.firstCluster e'.isDir = some id := by rw [hh, hd, hf]
      simp only [internInode_of_find? hf']

theorem readDirRaw_congr {s' : Fat32} (hgeo : s'.geo = s.geo) (hfat : s'.fatCache = s.fatCache)
    (hdisk : s'.disk = s.disk) (d : Nat) : s'.readDirRaw d = s.readDirRaw d := by
  have hread : ∀ c, s'.readCluster c = s.readCluster c := fun c => by
    rw [readCluster, readCluster, hgeo, hdisk]
  rw [readDirRaw, readDirRaw, clusterChain_def, clusterChain_def, hgeo, hfat]
  induction chainOf s.geo s.fatCache d with
  | nil => rfl
  | cons c cs ih => rw [readDirClusters, readDirClusters, hread, ih, slotCount, slotCount, hgeo]

/-- A listing resolves when each of its entries is found, under the short name it
comes back as, or another one of its first cluster and type. -/
theorem listedResolve_of_dir {dir : FatInode} (hdir : s.inodes.get dirId = some dir)
    (hk : dir.isDir = true) (upper : List UInt8 → List UInt8) :
    ListedResolve upper s dirId ↔
      ∀ e ∈ s.readDirRaw dir.firstCluster, e.isListed = true →
        SameInode (findEntry (s.readDirRaw dir.firstCluster) (relisted upper e.name)) e := by
  obtain ⟨hgeo, hfat, hdisk⟩ := listEntries_frame (s.readDirRaw dir.firstCluster) s
  obtain ⟨hleft, hright⟩ := exists_of_forall₂ (listEntries_forall₂ (s.readDirRaw dir.firstCluster) s)
  have hraw := readDirRaw_congr hgeo hfat hdisk dir.firstCluster
  have hkept : (listEntries (s.readDirRaw dir.firstCluster) s).2.inodes.get dirId = some dir :=
    ((listEntries_grow _ s).old dirId (InodeTable.lt_of_get hdir)).trans hdir
  constructor
  · intro h e he hl
    obtain ⟨x, hx, hname, -, hfind⟩ := hleft e (List.mem_filter.mpr ⟨he, hl⟩)
    have hlook := h _ _ (readdir_of_dir hdir hk) x hx
    rw [lookup_listed_iff hkept hk hfind, hraw, hname] at hlook
    exact hlook
  · intro h out s' hout x hx
    rw [readdir_of_dir hdir hk] at hout
    obtain ⟨hlist, rfl⟩ := Prod.mk.inj hout
    obtain rfl := Except.ok.inj hlist
    obtain ⟨e, he, hname, -, hfind⟩ := hright x hx
    obtain ⟨he, hl⟩ := List.mem_filter.mp he
    rw [lookup_listed_iff hkept hk hfind, hraw, hname]
    exact h e he hl

/-- A listing of upper-case ASCII names resolves if and only if the first entry
under each plain short name, and under what each other one comes back as, has the
first cluster and the type of the entry that is listed. -/
theorem listedResolve_iff (hup : UpperAscii upper)
    (hnames : ∀ dir, s.inodes.get dirId = some dir →
      ∀ e ∈ s.readDirRaw dir.firstCluster, e.isLive = true → UpperName e.name) :
    ListedResolve upper s dirId ↔ ∀ dir, s.inodes.get dirId = some dir → dir.isDir = true →
      ∀ e ∈ s.readDirRaw dir.firstCluster, e.isListed = true →
        (PlainName e.name → SameInode (findEntry (s.readDirRaw dir.firstCluster) e.name) e) ∧
          (¬ PlainName e.name → SameInode
            (findEntry (s.readDirRaw dir.firstCluster) (relisted upper e.name)) e) := by
  cases hdir : s.inodes.get dirId with
  | none =>
    refine iff_of_true (fun out s' h => ?_) fun dir h => by cases h
    rw [readdir, hdir] at h
    cases h
  | some dir =>
    cases hk : dir.isDir with
    | false =>
      refine iff_of_true (fun out s' h => ?_) fun dir' h hk' => ?_
      · rw [readdir, hdir] at h
        simp [hk] at h
      · obtain rfl := Option.some.inj h
        rw [hk] at hk'
        cases hk'
    | true =>
      rw [listedResolve_of_dir hdir hk]
      have hplain : ∀ e ∈ s.readDirRaw dir.firstCluster, e.isListed = true →
          (relisted upper e.name = e.name ↔ PlainName e.name) := fun e he hl => by
        refine relisted_eq_iff hup (hnames dir hdir e he ?_) e.name_length
        simp only [RawDirEntry.isListed, Bool.not_eq_true', Bool.or_eq_false_iff] at hl
        rw [RawDirEntry.isLive, hl.1.1, hl.1.2]
        rfl
      constructor
      · intro h dir' hdir' _ e he hl
        obtain rfl := Option.some.inj hdir'
        refine ⟨fun hp => ?_, fun _ => h e he hl⟩
        have hfound := h e he hl
        rwa [(hplain e he hl).mpr hp] at hfound
      · intro h e he hl
        by_cases hp : PlainName e.name
        · rw [(hplain e he hl).mpr hp]
          exact (h dir rfl hk e he hl).1 hp
        · exact (h dir rfl hk e he hl).2 hp

/-! ## The volume label of the image -/

/-- What is in use in the root directory of a flat volume is one of its entries. -/
theorem Flat.mem_of_raw {g : Geometry} {fat : Nat → Nat} (hf : Flat g fat es)
    (he : e ∈ (flatVolume g fat es).readDirRaw g.rootCluster) (hused : e.isFree = false) :
    e ∈ es := by
  rw [readDirRaw_eq hf.sound] at he
  obtain ⟨a, ha, rfl⟩ := List.mem_map.mp he
  obtain ⟨i, -, rfl⟩ := hf.mem_slotAddrs.mp ha
  by_cases hi : i < es.length
  · rw [hf.entryAt_slot hi]
    exact List.getElem_mem hi
  · have hfree := @Flat.isFree_slot g fat es i (Nat.le_of_not_lt hi)
    rw [hused] at hfree
    cases hfree

theorem Flat.raw_of_mem {g : Geometry} {fat : Nat → Nat} (hf : Flat g fat es) (he : e ∈ es) :
    e ∈ (flatVolume g fat es).readDirRaw g.rootCluster := by
  obtain ⟨i, hi, rfl⟩ := List.mem_iff_getElem.mp he
  rw [readDirRaw_eq hf.sound]
  have hroom := hf.room
  exact List.mem_map.mpr ⟨_, hf.mem_slotAddrs.mpr ⟨i, by omega, rfl⟩, hf.entryAt_slot hi⟩

/-- A volume whose root directory holds the label that the image builder writes. -/
def labelVolume : Fat32 := flatVolume smallGeometry rootFat [labelRecord]

theorem flat_label : Flat smallGeometry rootFat [labelRecord] :=
  flat_rootOnly (by decide) (List.forall_mem_singleton.mpr ⟨rfl, rfl, rfl, rfl⟩)

theorem labelVolume_root : labelVolume.inodes.get 1 =
    some { firstCluster := smallGeometry.rootCluster, size := 0, isDir := true } := rfl

theorem upperAscii_map : UpperAscii (List.map asciiUpper) := fun _ _ => rfl

theorem upperName_label : UpperName labelRecord.name := by decide

theorem listedResolve_iff_label : ListedResolve (List.map asciiUpper) labelVolume 1 ↔
    ∀ dir, labelVolume.inodes.get 1 = some dir → dir.isDir = true →
      ∀ e ∈ labelVolume.readDirRaw dir.firstCluster, e.isListed = true →
        (PlainName e.name →
          SameInode (findEntry (labelVolume.readDirRaw dir.firstCluster) e.name) e) ∧
        (¬ PlainName e.name → SameInode (findEntry (labelVolume.readDirRaw dir.firstCluster)
          (relisted (List.map asciiUpper) e.name)) e) :=
  listedResolve_iff upperAscii_map fun dir hdir e he hlive => by
    obtain rfl := Option.some.inj (labelVolume_root.symm.trans hdir)
    simp only [RawDirEntry.isLive, Bool.and_eq_true, Bool.not_eq_true'] at hlive
    rw [List.mem_singleton.mp (flat_label.mem_of_raw he hlive.1)]
    exact upperName_label

/-- The label `AEROS DISK` is listed as `AEROS.SK`, which is not found. -/
theorem not_listedResolve_label : ¬ ListedResolve (List.map asciiUpper) labelVolume 1 := by
  rw [listedResolve_of_dir labelVolume_root rfl]
  intro h
  obtain ⟨e, hfind, -⟩ := h labelRecord (flat_label.raw_of_mem (List.mem_singleton_self _)) rfl
  have hhit := List.find?_some hfind
  simp only [Bool.and_eq_true, Bool.not_eq_true', Bool.or_eq_false_iff, beq_iff_eq] at hhit
  have he := flat_label.mem_of_raw (List.mem_of_find?_eq_some hfind) hhit.1.1
  rw [List.mem_singleton.mp he] at hhit
  exact absurd hhit.2 (by decide)

end AeroOS.Fat32
