import AeroOS.Fat32.WellFormed

/-!
# FAT32: a flat volume

`flatVolume` is a freshly mounted volume with the given table and the given
entries at the beginning of a root directory of one cluster.  `Flat` says that
the entries are files with chains of their own, and `Flat.wellFormed` that the
volume is then well formed.  `flatMount` is the same volume as a mount of its
disk finds it.
-/

namespace AeroOS.Fat32

open Bytes Ata

/-- A mounted volume with entries `es` in its root directory. -/
def flatVolume (g : Geometry) (fat : Nat → Nat) (es : List RawDirEntry) : Fat32 where
  geo := g
  fatCache := fat
  inodes := InodeTable.empty.insert { firstCluster := g.rootCluster, size := 0, isDir := true }
  disk :=
    { present := true
      bytes := writeBytes (fun _ => 0) (g.clusterAddr g.rootCluster) (es.flatMap RawDirEntry.pack) }

/-- The table and the entries make a volume of files. -/
structure Flat (g : Geometry) (fat : Nat → Nat) (es : List RawDirEntry) : Prop where
  numFats_pos : 1 ≤ g.numFats
  fits : g.dataStartLba + (g.fatLen - 2) * g.sectorsPerCluster ≤ 2 ^ 28
  root_valid : g.validCluster g.rootCluster = true
  root_end : fat g.rootCluster = fatEoc
  room : es.length ≤ g.bytesPerCluster / 32
  stored : ∀ e ∈ es, e.stored = e
  isFile : ∀ e ∈ es, e.isDir = false
  valid : ∀ e ∈ es, e.firstCluster = 0 ∨ g.validCluster e.firstCluster = true
  acyclic : ∀ e ∈ es, (chainOf g fat e.firstCluster).Nodup
  ended : ∀ e ∈ es, ∀ x ∈ (chainOf g fat e.firstCluster).getLast?, fatEoc - 1 ≤ fat x
  size : ∀ e ∈ es,
    e.fileSize ≤ (chainOf g fat e.firstCluster).length * g.bytesPerCluster
  notRoot : ∀ e ∈ es, g.rootCluster ∉ chainOf g fat e.firstCluster
  distinct : es.Pairwise fun e e' => e.firstCluster ≠ 0 → e.firstCluster ≠ e'.firstCluster
  disjoint : ∀ e ∈ es, ∀ e' ∈ es, e.firstCluster ≠ e'.firstCluster →
    ∀ x ∈ chainOf g fat e.firstCluster, x ∉ chainOf g fat e'.firstCluster

/-- The disk with the volume on it. -/
def flatDisk (g : Geometry) (fat : Nat → Nat) (es : List RawDirEntry) : Disk :=
  ((flatVolume g fat es).setBytes (flatVolume g fat es).flushedBytes).disk

/-- The volume as a mount of that disk finds it. -/
def flatMount (g : Geometry) (fat : Nat → Nat) (es : List RawDirEntry) : Fat32 :=
  { flatVolume g fat es with
    fatCache := fatOfBytes (flatVolume g fat es).fatTable
    disk := flatDisk g fat es }

/-- Slot `i` of the root directory. -/
def rootSlot (g : Geometry) (i : Nat) : Nat := g.clusterAddr g.rootCluster + i * 32

namespace Flat

variable {g : Geometry} {fat : Nat → Nat} {es : List RawDirEntry} (hf : Flat g fat es)

include hf

theorem sound : Sound (flatVolume g fat es) := ⟨rfl, hf.numFats_pos, hf.fits⟩

theorem root_chain : (flatVolume g fat es).clusterChain g.rootCluster = [g.rootCluster] :=
  chainOf_singleton hf.root_valid hf.root_end

theorem slotAddrs_root : (flatVolume g fat es).slotAddrs g.rootCluster =
    (List.range (g.bytesPerCluster / 32)).map (rootSlot g) := by
  rw [slotAddrs, hf.root_chain, Geometry.slotsOf, List.flatMap_cons, List.flatMap_nil,
    List.append_nil]
  rfl

theorem mem_slotAddrs {a : Nat} :
    a ∈ (flatVolume g fat es).slotAddrs g.rootCluster ↔
      ∃ i, i < g.bytesPerCluster / 32 ∧ a = rootSlot g i := by
  rw [hf.slotAddrs_root]
  simp only [List.mem_map, List.mem_range]
  exact exists_congr fun i => and_congr_right fun _ => eq_comm

omit hf in
/-- A byte of an entry in the root directory. -/
theorem bytes_slot {i k : Nat} (hi : i < es.length) (hk : k < 32) :
    (flatVolume g fat es).disk.bytes (rootSlot g i + k) = es[i].pack.getD k 0 := by
  have hlen := flatMap_length RawDirEntry.pack_length es
  have hik : i * 32 + k < (es.flatMap RawDirEntry.pack).length := by omega
  rw [rootSlot, Nat.add_assoc]
  exact (writeBytes_in (fun _ => 0) (g.clusterAddr g.rootCluster) hik 0).trans
    (flatMap_getD RawDirEntry.pack_length es hi hk 0)

theorem entryAt_slot {i : Nat} (hi : i < es.length) :
    (flatVolume g fat es).entryAt (rootSlot g i) = es[i] := by
  have hstored := hf.stored _ (List.getElem_mem hi)
  have hpack := RawDirEntry.ofBytes_writeBytes_pack (flatVolume g fat es).disk.bytes
    (rootSlot g i) es[i]
  rw [hstored] at hpack
  rw [← hpack]
  refine RawDirEntry.ofBytes_congr fun k hk => ?_
  rw [bytes_slot hi hk, writeBytes_in _ _ (by simpa using hk) 0]

omit hf in
/-- Behind the entries the root directory is empty. -/
theorem isFree_slot {i : Nat} (hi : es.length ≤ i) :
    ((flatVolume g fat es).entryAt (rootSlot g i)).isFree = true := by
  have hlen := flatMap_length RawDirEntry.pack_length es
  rw [RawDirEntry.isFree_eq, entryAt, RawDirEntry.ofBytes_first]
  have hzero : (flatVolume g fat es).disk.bytes (rootSlot g i) = 0 :=
    writeBytes_out (fun _ => 0) (Or.inr (by
      rw [rootSlot]
      omega))
  rw [hzero]
  rfl

/-- The names on the volume: the root, and its entries. -/
def view (_hf : Flat g fat es) : Names where
  root := g.rootCluster
  dir h := h = g.rootCluster
  slot d a h k := d = g.rootCluster ∧ k = false ∧
    ∃ i, ∃ hi : i < es.length, a = rootSlot g i ∧ h = es[i].firstCluster
  ino id h k := id = 1 ∧ h = g.rootCluster ∧ k = true

theorem ne_root {e : RawDirEntry} (he : e ∈ es) : e.firstCluster ≠ g.rootCluster := by
  intro heq
  have hroot := hf.notRoot e he
  rw [heq] at hroot
  exact hroot (mem_chainOf_self hf.root_valid)

theorem view_ok : hf.view.Ok where
  root_dir := rfl
  slot_dir h := absurd h.2.1 (by decide)
  ino_dir h := h.2.1
  slot_file h _ hd := by
    obtain ⟨-, -, i, hi, -, rfl⟩ := h
    exact hf.ne_root (List.getElem_mem hi) hd
  ino_file h := absurd h.2.2 (by decide)
  slot_unique h h' h0 := by
    obtain ⟨-, -, i, hi, rfl, rfl⟩ := h
    obtain ⟨-, -, j, hj, rfl, heq⟩ := h'
    have hij : i = j := by
      by_contra hne
      rcases Nat.lt_or_gt_of_ne hne with hlt | hlt
      · exact List.pairwise_iff_getElem.mp hf.distinct i j hi hj hlt h0 heq
      · exact List.pairwise_iff_getElem.mp hf.distinct j i hj hi hlt (heq ▸ h0) heq.symm
    rw [hij]
  slot_root h _ := by
    obtain ⟨-, -, i, hi, -, rfl⟩ := h
    exact hf.ne_root (List.getElem_mem hi)
  ino_unique h h' _ := h.1.trans h'.1.symm

/-- A head is 0, the root, or named by an entry. -/
theorem heads_view {h : Nat} (hh : hf.view.heads h) :
    h = g.rootCluster ∨ ∃ e ∈ es, e.firstCluster = h := by
  rcases hh with rfl | ⟨d, a, k, -, -, i, hi, -, rfl⟩ | ⟨id, k, -, rfl, -⟩
  · exact Or.inl rfl
  · exact Or.inr ⟨_, List.getElem_mem hi, rfl⟩
  · exact Or.inl rfl

theorem slot_cases {a : Nat} (ha : a ∈ (flatVolume g fat es).slotAddrs g.rootCluster)
    (he : ((flatVolume g fat es).entryAt a).isEntry = true) :
    ∃ i, ∃ hi : i < es.length, a = rootSlot g i ∧ (flatVolume g fat es).entryAt a = es[i] := by
  obtain ⟨i, -, rfl⟩ := hf.mem_slotAddrs.mp ha
  by_cases hi : i < es.length
  · exact ⟨i, hi, rfl, hf.entryAt_slot hi⟩
  · rw [RawDirEntry.isEntry, isFree_slot (by omega)] at he
    cases he

theorem covers : Covers (flatVolume g fat es) hf.view where
  root := rfl
  slot d a hd ha he := by
    subst hd
    obtain ⟨i, hi, rfl, hent⟩ := hf.slot_cases ha he
    rw [hent, hf.isFile _ (List.getElem_mem hi)]
    exact ⟨rfl, rfl, i, hi, rfl, rfl⟩
  ino id h k := by
    constructor
    · rintro ⟨rfl, rfl, rfl⟩
      exact ⟨_, rfl, rfl, rfl⟩
    · rintro ⟨i, hi, rfl, rfl⟩
      change (if id = 1 then some _ else none) = some i at hi
      split at hi
      · cases hi
        exact ⟨‹_›, rfl, rfl⟩
      · cases hi

/-- A flat volume of files is well formed. -/
theorem wellFormed : WellFormed (flatVolume g fat es) := by
  have hle := hf.covers.le hf.view_ok
  have hcases : ∀ h, (namesOf (flatVolume g fat es)).heads h →
      h = g.rootCluster ∨ ∃ e ∈ es, e.firstCluster = h := fun h hh => hf.heads_view (hle.heads hh)
  have hroot := hf.root_chain
  refine ⟨hf.sound, ?_, ?_, ?_, ?_, ?_, ?_, ?_⟩
  · refine hf.view_ok.mono hle IsDir.root ?_ ?_
    · rintro d a h ⟨hd, ha, he, rfl, hk⟩
      exact IsDir.slot hd ha he hk
    · rintro id h ⟨i, hi, rfl, hk⟩
      exact IsDir.inode hi hk
  · intro h hh
    rcases hcases h hh with rfl | ⟨e, he, rfl⟩
    · exact Or.inr hf.root_valid
    · exact hf.valid e he
  · intro h hh
    rcases hcases h hh with rfl | ⟨e, he, rfl⟩
    · rw [hroot]
      exact List.nodup_singleton _
    · exact hf.acyclic e he
  · intro h hh x hx
    rcases hcases h hh with rfl | ⟨e, he, rfl⟩
    · rw [hroot] at hx
      cases hx
      change fatEoc - 1 ≤ fat g.rootCluster
      rw [hf.root_end]
      omega
    · exact hf.ended e he x hx
  · intro h h' hh hh' hne x hx hx'
    rcases hcases h hh with rfl | ⟨e, he, rfl⟩
    · rw [hroot, List.mem_singleton] at hx
      subst hx
      rcases hcases h' hh' with rfl | ⟨e', he', rfl⟩
      · exact hne rfl
      · exact hf.notRoot e' he' hx'
    · rcases hcases h' hh' with rfl | ⟨e', he', rfl⟩
      · rw [hroot, List.mem_singleton] at hx'
        subst hx'
        exact hf.notRoot e he hx
      · exact hf.disjoint e he e' he' hne x hx hx'
  · intro id i hi hk
    have := (hf.covers.ino id _ _).mpr ⟨i, hi, rfl, hk⟩
    exact absurd this.2.2 (by decide)
  · rintro a ⟨⟨d, hd, ha⟩, he, -⟩
    have hdr : d = g.rootCluster := hle.dir hd
    subst hdr
    obtain ⟨i, hi, rfl, hent⟩ := hf.slot_cases ha he
    rw [hent]
    exact hf.size _ (List.getElem_mem hi)

theorem rootFlat : RootFlat (flatVolume g fat es) := by
  intro a ha he
  obtain ⟨i, hi, -, hent⟩ := hf.slot_cases ha he
  rw [hent]
  exact hf.isFile _ (List.getElem_mem hi)

/-! ### The volume on a disk -/

theorem mount_eq : mount g (flatDisk g fat es) = some (flatMount g fat es) :=
  mount_of_synced (hf.sound.setBytes _) (synced_setBytes_flushedBytes hf.sound)

omit hf in
/-- The cached table after the mount. -/
theorem fatCache_mount (hw : ∀ x, fat x < 2 ^ 32) {x : Nat} (hx : g.validCluster x = true) :
    (flatMount g fat es).fatCache x = fat x :=
  (fatOfBytes_fatTable (flatVolume g fat es) (Geometry.validCluster_iff.mp hx).2).trans
    (Nat.mod_eq_of_lt (hw x))

omit hf in
theorem chain_mount (hw : ∀ x, fat x < 2 ^ 32) (d : Nat) :
    (flatMount g fat es).clusterChain d = chainOf g fat d :=
  chainOf_congr fun _ hx => fatCache_mount hw (valid_of_mem_chainOf hx)

omit hf in
theorem sameDirs_mount (hw : ∀ x, fat x < 2 ^ 32) :
    SameDirs (flatVolume g fat es) (flatMount g fat es) where
  geo := rfl
  chain d _ := chain_mount hw d
  bytes _ _ _ _ _ hin := (flatVolume g fat es).flushedBytes_out hin.dataAddr_le

theorem good_mount (hw : ∀ x, fat x < 2 ^ 32) : Good (flatMount g fat es) := by
  have hg := hf.wellFormed.good
  have hsound : Sound (flatMount g fat es) := hf.sound.of_eq rfl rfl
  refine Described.good ⟨hsound, (sameDirs_mount hw).covers rfl, hg.names, ?_⟩
  exact hg.chains.congr fun _ _ _ hx => fatCache_mount hw (valid_of_mem_chainOf hx)

theorem rootFlat_mount (hw : ∀ x, fat x < 2 ^ 32) : RootFlat (flatMount g fat es) := by
  intro a ha he
  have hdirs : SameDirs (flatVolume g fat es) (flatMount g fat es) := sameDirs_mount hw
  have hroot : IsDir (flatVolume g fat es) g.rootCluster := IsDir.root
  have ha' : a ∈ (flatVolume g fat es).slotAddrs g.rootCluster := hdirs.slotAddrs hroot ▸ ha
  rw [hdirs.entryAt hroot ha'] at he ⊢
  exact hf.rootFlat a ha' he

end Flat

/-! ## A small volume -/

/-- A volume of one-sector clusters, with tables of one sector. -/
def smallGeometry : Geometry where
  partStartLba := 1
  bytesPerSector := 512
  sectorsPerCluster := 1
  rsvdSecCnt := 1
  numFats := 2
  fatSz32 := 1
  rootCluster := 2
  partStartLba_lt := by decide
  bytesPerSector_eq := rfl
  sectorsPerCluster_pos := by decide
  sectorsPerCluster_lt := by decide
  rsvdSecCnt_lt := by decide
  numFats_lt := by decide
  fatSz32_pos := by decide
  fatSz32_fits := by decide
  rootCluster_lt := by decide

/-- The short name of a file called `A`. -/
def nameA : List UInt8 := 0x41 :: List.replicate 10 0x20

/-- The entry of file `A` with the given chain and size. -/
def entryA (cluster size : Nat) : RawDirEntry :=
  { RawDirEntry.new nameA rfl attrArchive cluster with fileSize := size }

/-- An entry that begins with the end mark. -/
def endMarkEntry : RawDirEntry := RawDirEntry.new (List.replicate 11 0) rfl attrArchive 0

/-- The root in cluster 2, and nothing else. -/
def rootFat (c : Nat) : Nat := if c = 2 then fatEoc else 0

theorem rootFat_lt (x : Nat) : rootFat x < 2 ^ 32 := by
  unfold rootFat
  split_ifs <;> decide

/-- Entries without a cluster. -/
theorem flat_rootOnly {es : List RawDirEntry} (hroom : es.length ≤ 16)
    (hes : ∀ e ∈ es, e.stored = e ∧ e.isDir = false ∧ e.firstCluster = 0 ∧ e.fileSize = 0) :
    Flat smallGeometry rootFat es := by
  have hchain : ∀ e ∈ es, chainOf smallGeometry rootFat e.firstCluster = [] := fun e he => by
    rw [(hes e he).2.2.1, chainOf_zero]
  exact
    { numFats_pos := by decide
      fits := by decide
      root_valid := by decide
      root_end := rfl
      room := hroom
      stored := fun e he => (hes e he).1
      isFile := fun e he => (hes e he).2.1
      valid := fun e he => Or.inl (hes e he).2.2.1
      acyclic := fun e he => by rw [hchain e he]; exact List.nodup_nil
      ended := fun e he => by rw [hchain e he]; exact fun _ hx => nomatch hx
      size := fun e he => by rw [(hes e he).2.2.2]; exact Nat.zero_le _
      notRoot := fun e he => by rw [hchain e he]; exact List.not_mem_nil
      distinct := List.Pairwise.imp_of_mem (R := fun _ _ => True)
        (fun he _ _ h0 => absurd (hes _ he).2.2.1 h0) (List.pairwise_of_forall fun _ _ => trivial)
      disjoint := fun e he _ _ _ x hx => by
        rw [hchain e he] at hx
        exact absurd hx List.not_mem_nil }

theorem flat_empty : Flat smallGeometry rootFat [] :=
  flat_rootOnly (by decide) fun _ he => absurd he List.not_mem_nil

/-- An empty volume, as mounted. -/
def emptyMount : Fat32 := flatMount smallGeometry rootFat []

theorem emptyMount_slotAddrs : emptyMount.slotAddrs 2 =
    (List.range 16).map (rootSlot smallGeometry) :=
  ((Flat.sameDirs_mount rootFat_lt).slotAddrs IsDir.root).trans flat_empty.slotAddrs_root

theorem emptyMount_free {a : Nat} (ha : a ∈ emptyMount.slotAddrs 2) :
    (emptyMount.entryAt a).isFree = true := by
  have hdirs : SameDirs (flatVolume smallGeometry rootFat []) emptyMount :=
    Flat.sameDirs_mount rootFat_lt
  have hroot : IsDir (flatVolume smallGeometry rootFat []) 2 := IsDir.root
  rw [hdirs.slotAddrs hroot] at ha
  rw [hdirs.entryAt hroot ha]
  obtain ⟨i, -, rfl⟩ := flat_empty.mem_slotAddrs.mp ha
  exact Flat.isFree_slot (Nat.zero_le i)

/-- The root in cluster 2, and a file in clusters 3 and 4. -/
def twoClusterFat (c : Nat) : Nat :=
  if c = 2 then fatEoc else if c = 3 then 4 else if c = 4 then fatEoc else 0

theorem twoClusterFat_chain : chainOf smallGeometry twoClusterFat 3 = [3, 4] :=
  chainOf_of_links (by decide) (by decide) (by decide) (by simp [chainGuard])

/-- A file of up to 1024 bytes in clusters 3 and 4. -/
theorem flat_file {e : RawDirEntry} (hstored : e.stored = e) (hfile : e.isDir = false)
    (hcluster : e.firstCluster = 3) (hsize : e.fileSize ≤ 1024) :
    Flat smallGeometry twoClusterFat [e] where
  numFats_pos := by decide
  fits := by decide
  root_valid := by decide
  root_end := rfl
  room := by
    rw [List.length_singleton]
    decide
  stored := List.forall_mem_singleton.mpr hstored
  isFile := List.forall_mem_singleton.mpr hfile
  valid := List.forall_mem_singleton.mpr (by rw [hcluster]; decide)
  acyclic := List.forall_mem_singleton.mpr (by rw [hcluster, twoClusterFat_chain]; decide)
  ended := List.forall_mem_singleton.mpr (by rw [hcluster, twoClusterFat_chain]; decide)
  size := List.forall_mem_singleton.mpr (by rw [hcluster, twoClusterFat_chain]; exact hsize)
  notRoot := List.forall_mem_singleton.mpr (by rw [hcluster, twoClusterFat_chain]; decide)
  distinct := List.pairwise_singleton _ _
  disjoint e he e' he' hne := by
    rw [List.mem_singleton.mp he, List.mem_singleton.mp he'] at hne
    exact absurd rfl hne

theorem flat_twoCluster : Flat smallGeometry twoClusterFat [entryA 3 1024] :=
  flat_file (by simp [entryA, RawDirEntry.stored, RawDirEntry.new]) (by decide) rfl (Nat.le_refl _)

end AeroOS.Fat32
