import AeroOS.Fat32.DirEffects
import AeroOS.Fat32.WellFormed

/-!
# FAT32: new files do not persist

`create` writes a directory entry with first cluster 0.  The first `write`
gives the file a chain, and then looks for an entry that names the head of this
chain in order to note the size there.  No entry does, so the entry of the new
file keeps its first cluster 0, and whoever finds the file again finds it
empty.

* `Persists` is what a caller expects: the file is found again with its data,
  by `lookup` in the same mount and in a later one (`Remounted`).
* `create_write_not_foundAgain` shows that neither search ever finds the data.
-/

namespace AeroOS.Fat32

open Bytes

/-! ## Finding a file again -/

section statement

variable (upper : List UInt8 → List UInt8)

/-- `lookup` gives an inode with this size and these contents. -/
def FoundAgain (s : Fat32) (dirId : Nat) (name data : List UInt8) : Prop :=
  ∃ id s', s.lookup upper dirId name = (.ok id, s') ∧ s'.size id = data.length ∧
    s'.readAll id = some data

/-- The disk of `s` mounted anew, and then searched by `lookup` and `readdir`,
on the way to the directory of interest. -/
inductive Remounted (s : Fat32) : Fat32 → Prop where
  | mount {s' : Fat32} (h : mount s.geo s.disk = some s') : Remounted s s'
  | lookup {s' : Fat32} (h : Remounted s s') (dirId : Nat) (name : List UInt8) :
      Remounted s (s'.lookup upper dirId name).2
  | readdir {s' : Fat32} (h : Remounted s s') (dirId : Nat) : Remounted s (s'.readdir dirId).2

/-- Inode `id` of `s` and inode `id'` of `s'` are the same directory. -/
def SameDirectory (s s' : Fat32) (id id' : Nat) : Prop :=
  ∃ i i', s.inodes.get id = some i ∧ s'.inodes.get id' = some i' ∧ i'.isDir = true ∧
    i'.firstCluster = i.firstCluster

/-- A file that is created and then written is found again with its data, in
the same mount and in every later one. -/
def Persists (s : Fat32) (dirId : Nat) (name data : List UInt8) : Prop :=
  ∀ id s₁ s₂, s.create upper dirId name = (.ok id, s₁) →
    s₁.write id 0 data = (.ok data.length, s₂) → data ≠ [] →
      FoundAgain upper s₂ dirId name data ∧
        ∀ s₃ dirId', Remounted upper s₂ s₃ → SameDirectory s s₃ dirId dirId' →
          FoundAgain upper s₃ dirId' name data

/-- The chain of a directory exists, does not meet itself, and has no free
cluster. -/
structure DirInOrder (s : Fat32) (d : Nat) : Prop where
  valid : s.geo.validCluster d = true
  acyclic : (s.clusterChain d).Nodup
  allocated : ∀ c ∈ s.clusterChain d, s.fatCache c ≠ 0

end statement

/-- The heads that matter: the directory, and none. -/
theorem DirInOrder.chains {s : Fat32} {d : Nat} (h : DirInOrder s d) :
    ChainsOk s.geo s.fatCache fun x => x = 0 ∨ x = d where
  valid x hx := by
    rcases hx with rfl | rfl
    · exact Or.inl rfl
    · exact Or.inr h.valid
  nodup x hx := by
    rcases hx with rfl | rfl
    · simp
    · exact h.acyclic
  alloc x hx := by
    rcases hx with rfl | rfl
    · simp
    · exact h.allocated
  disj x y hx hy hne := by
    rcases hx with rfl | rfl
    · simp
    · rcases hy with rfl | rfl
      · simp
      · exact absurd rfl hne

/-! ## Searching a directory -/

/-- What `lookup` gives has the head of the entry that it finds. -/
theorem lookup_head {upper : List UInt8 → List UInt8} {s s' : Fat32} (hs : Sound s)
    {dirId id : Nat} {name : List UInt8} {dir : FatInode} (hdir : s.inodes.get dirId = some dir)
    (h : s.lookup upper dirId name = (.ok id, s')) :
    ∃ a ∈ s.slotAddrs dir.firstCluster, (s.entryAt a).isLive = true ∧
      (s.entryAt a).name = toShortName upper name ∧
        ∃ i, s'.inodes.get id = some i ∧ i.firstCluster = (s.entryAt a).firstCluster := by
  rw [lookup, hdir] at h
  simp only at h
  split at h
  · cases h
  rw [readDirRaw_eq hs] at h
  cases hfind : findEntry ((s.slotAddrs dir.firstCluster).map s.entryAt)
      (toShortName upper name) with
  | none =>
    rw [hfind] at h
    cases h
  | some e =>
    rw [hfind] at h
    obtain ⟨a, ha, rfl, hlive, hname⟩ := findEntry_spec hfind
    simp only [Prod.mk.injEq, Except.ok.injEq] at h
    obtain ⟨rfl, rfl⟩ := h
    obtain ⟨i, hi, hh, -⟩ := internInode_get s (s.entryAt a).firstCluster
      (s.entryAt a).fileSize (s.entryAt a).isDir
    exact ⟨a, ha, hlive, hname, i, hi, hh⟩

/-- Nothing is read from an empty chain. -/
theorem readLoop_nil (s : Fat32) (offset stop pos : Nat) (buf : List UInt8) (n : Nat) :
    s.readLoop [] offset stop pos buf n = .ok (n, buf) := by
  rw [readLoop]
  split
  · exact if_pos (Nat.zero_le _)
  · rfl

/-- A file without a chain reads as empty. -/
theorem readAll_of_zero {s : Fat32} {id : Nat} {i : FatInode} (hi : s.inodes.get id = some i)
    (h0 : i.firstCluster = 0) : s.readAll id = some [] := by
  rw [readAll, read, hi]
  simp only
  split_ifs
  · rfl
  · rfl
  · rw [h0, clusterChain_def, chainOf_zero, readLoop_nil]
    rfl

/-- Every live entry of this name in the directory has first cluster 0. -/
def Headless (s : Fat32) (d : Nat) (short : List UInt8) : Prop :=
  ∀ a ∈ s.slotAddrs d, (s.entryAt a).isLive = true → (s.entryAt a).name = short →
    (s.entryAt a).firstCluster = 0

theorem SameKey.isLive {e e' : RawDirEntry} (h : SameKey e e') : e'.isLive = e.isLive := by
  rw [RawDirEntry.isLive, RawDirEntry.isLive, h.isFree, h.isLfn]

namespace Headless

variable {s s' : Fat32} {d : Nat} {short : List UInt8}

theorem kept (h : Headless s d short) {D : Nat → Prop} (hk : KeptSlots D s s') (hd : D d) :
    Headless s' d short := by
  intro a ha hlive hname
  rw [hk.slotAddrs hd] at ha
  have hkey := hk.slot d a hd ha
  rw [hkey.firstCluster]
  exact h a ha (hkey.isLive ▸ hlive) (hkey.name ▸ hname)

/-- No data is found in a file without a chain. -/
theorem not_foundAgain {upper : List UInt8 → List UInt8} {name : List UInt8}
    (h : Headless s d (toShortName upper name)) (hs : Sound s) {dirId : Nat} {dir : FatInode}
    (hdir : s.inodes.get dirId = some dir) (hd : dir.firstCluster = d) {data : List UInt8}
    (hdata : data ≠ []) : ¬ FoundAgain upper s dirId name data := by
  rintro ⟨id, s', hlookup, -, hread⟩
  obtain ⟨a, ha, hlive, hname, i, hi, hhead⟩ := lookup_head hs hdir hlookup
  rw [readAll_of_zero hi (hhead.trans (h a (hd ▸ ha) hlive hname)), Option.some.injEq] at hread
  exact hdata hread.symm

/-- The new entry has no chain, and it is the only one of its name. -/
theorem of_entered {H : Nat → Prop} {a : Nat} {upper : List UInt8 → List UInt8}
    {name : List UInt8} (h : Entered H s s' d a (newFileEntry upper name)) (hs : Sound s)
    (hnone : findEntry (s.readDirRaw d) (toShortName upper name) = none) :
    Headless s' d (toShortName upper name) := by
  rw [readDirRaw_eq hs] at hnone
  intro b hb hlive hname
  by_cases hba : b = a
  · rw [hba, h.entry]
    exact RawDirEntry.firstCluster_new (by decide)
  rcases h.slot b hb with heq | hold | hfree
  · exact absurd heq hba
  · have hsame := (h.kept b hold).2 hba
    rw [hsame] at hlive hname
    exact absurd hname (findEntry_eq_none hnone hold hlive)
  · simp [RawDirEntry.isLive, hfree] at hlive

end Headless

/-! ## Mounting again -/

/-- A mount of a flushed volume has its table, whatever was looked up since. -/
theorem Remounted.frame {upper : List UInt8 → List UInt8} {s s' : Fat32} (hs : Sound s)
    (hsync : Synced s) (h : Remounted upper s s') :
    s'.geo = s.geo ∧ s'.fatCache = fatOfBytes s.fatTable ∧ s'.disk = s.disk := by
  induction h with
  | mount h =>
    rw [mount_of_synced hs hsync, Option.some.injEq] at h
    rw [← h]
    exact ⟨rfl, rfl, rfl⟩
  | @lookup s' _ dirId name ih =>
    obtain ⟨hg, hf, hd⟩ := lookup_frame upper s' dirId name
    exact ⟨hg.trans ih.1, hf.trans ih.2.1, hd.trans ih.2.2⟩
  | @readdir s' _ dirId ih =>
    obtain ⟨hg, hf, hd⟩ := readdir_frame s' dirId
    exact ⟨hg.trans ih.1, hf.trans ih.2.1, hd.trans ih.2.2⟩

/-- The directories are the same after the mount. -/
theorem Remounted.kept {upper : List UInt8 → List UInt8} {s s' : Fat32} (hs : Sound s)
    (hsync : Synced s) (hw : Words s) (h : Remounted upper s s') :
    KeptSlots (fun _ => True) s s' := by
  obtain ⟨hg, hf, hd⟩ := h.frame hs hsync
  refine ⟨hg, fun d _ => ?_, fun d a _ _ => SameKey.of_eq (by rw [entryAt, entryAt, hd])⟩
  rw [clusterChain_def, clusterChain_def, hg]
  refine chainOf_congr fun x hx => ?_
  rw [hf, fatOfBytes_fatTable s (Geometry.validCluster_iff.mp (valid_of_mem_chainOf hx)).2,
    Nat.mod_eq_of_lt (hw x)]

/-! ## The new file -/

section newFile

variable {upper : List UInt8 → List UInt8} {s s₁ s₂ : Fat32} (hs : Sound s) (hw : Words s)
  {dirId : Nat} {dir : FatInode} (hdir : s.inodes.get dirId = some dir)
  (horder : DirInOrder s dir.firstCluster) {name data : List UInt8} {id : Nat}
  (hcreate : s.create upper dirId name = (.ok id, s₁))
  (hwrite : s₁.write id 0 data = (.ok data.length, s₂))

/-- A volume on which the name has no chain in the directory. -/
structure Lost (upper : List UInt8 → List UInt8) (s : Fat32) (dirId : Nat) (dir : FatInode)
    (name : List UInt8) : Prop where
  sound : Sound s
  words : Words s
  synced : Synced s
  inode : s.inodes.get dirId = some dir
  headless : Headless s dir.firstCluster (toShortName upper name)

include hs hw hdir horder hcreate hwrite

/-- The entry that `create` writes has no chain, and `write` leaves it so. -/
theorem lost_of_create_write : Lost upper s₂ dirId dir name := by
  -- `create` enters the name with first cluster 0
  rcases create_cases hs horder.chains hdir (Or.inr rfl) name with
    ⟨e, heq⟩ | ⟨c, e, -, -, heq⟩ | ⟨hk, hnone, a, s', hent, heq⟩
  · rw [heq] at hcreate
    cases hcreate
  · rw [heq] at hcreate
    cases hcreate
  rw [heq, Prod.mk.injEq, Except.ok.injEq] at hcreate
  obtain ⟨hid, hs₁eq⟩ := hcreate
  obtain ⟨i, hi, hi0, hik⟩ := internInode_get s' 0 0 false
  have hdir₁ : (s'.internInode 0 0 false).2.inodes.get dirId = some dir :=
    internInode_get_of_some (hent.inodes ▸ hdir)
  have hent₁ : Headless s₁ dir.firstCluster (toShortName upper name) := by
    rw [← hs₁eq]
    refine (Headless.of_entered hent hs hnone).kept (D := fun _ => True) ⟨by simp, ?_, ?_⟩ trivial
    · intro d _
      rw [clusterChain_def, clusterChain_def, internInode_geo, internInode_fatCache]
    · intro d b _ _
      exact SameKey.of_eq (by rw [entryAt, entryAt, internInode_disk])
  rw [hid, hs₁eq] at hi
  rw [hs₁eq] at hdir₁
  have hs₁ : Sound s₁ := hs.of_eq (by rw [← hs₁eq, internInode_geo, hent.geo])
    (by rw [← hs₁eq, internInode_disk, hent.present])
  have hw₁ : Words s₁ := fun x => by
    rw [← hs₁eq, internInode_fatCache]
    exact hent.words hw x
  have hchains₁ : ChainsOk s₁.geo s₁.fatCache fun x => x = 0 ∨ x = dir.firstCluster := by
    rw [← hs₁eq, internInode_geo, internInode_fatCache]
    exact hent.chains
  -- `write` leaves this entry alone, up to its size
  have hd2 := (Geometry.validCluster_iff.mp horder.valid).1
  have hnotdir : dirId ≠ id := by
    rintro rfl
    rw [hi, Option.some.injEq] at hdir₁
    rw [hdir₁, hk] at hik
    cases hik
  obtain ⟨s₁', f', news, hx, hcases⟩ :=
    write_phases hs₁ hchains₁ hi hik (Or.inl hi0) 0 data
  rcases hcases with ⟨e, heq'⟩ | ⟨s₁'', n, hst, heq'⟩
  · rw [heq'] at hwrite
    cases hwrite
  rw [heq', Prod.mk.injEq] at hwrite
  have hsound : Sound s₁'' := hs₁.of_eq (hst.geo.trans hx.geo) (by rw [hst.present, hx.disk])
  obtain ⟨m, hm⟩ := hst.inode _ (hx.inode hi)
  have hcommit := commit_spec hsound hm hik
  rw [hwrite.2] at hcommit
  have hkept := (hst.kept hx hchains₁ (Or.inl hi0)).trans (hcommit.kept _)
  exact
    { sound := hcommit.sound
      words := fun x => by
        rw [hcommit.fatCache, hst.fatCache]
        exact hx.words hw₁ x
      synced := hcommit.synced
      inode := by rw [hcommit.inodes, hst.inode_of_ne _ hnotdir, hx.inode_of_ne hnotdir, hdir₁]
      headless := hent₁.kept hkept ⟨Or.inr rfl, fun heq => by omega⟩ }

/-- A file that was created and written is found by nobody: neither in this
mount nor in a later one. -/
theorem create_write_not_foundAgain (hdata : data ≠ []) :
    ¬ FoundAgain upper s₂ dirId name data ∧
      ∀ s₃ dirId', Remounted upper s₂ s₃ → SameDirectory s s₃ dirId dirId' →
        ¬ FoundAgain upper s₃ dirId' name data := by
  have h := lost_of_create_write hs hw hdir horder hcreate hwrite
  refine ⟨h.headless.not_foundAgain h.sound h.inode rfl hdata, fun s₃ dirId' hr hsd => ?_⟩
  obtain ⟨j, j', hj, hj', -, hjj⟩ := hsd
  rw [hdir, Option.some.injEq] at hj
  subst hj
  obtain ⟨hg₃, -, hd₃⟩ := hr.frame h.sound h.synced
  exact (h.headless.kept (hr.kept h.sound h.synced h.words) trivial).not_foundAgain
    (h.sound.of_eq hg₃ (by rw [hd₃])) hj' hjj hdata

end newFile

/-! ## A new file on an empty volume -/

/-- The first write to a file takes a free cluster. -/
theorem write_first_ok {s : Fat32} (hg : Good s) (hflat : RootFlat s) {id : Nat} {i : FatInode}
    (hi : s.inodes.get id = some i) (hk : i.isDir = false) (h0 : i.firstCluster = 0)
    {data : List UInt8} (hne : data ≠ []) (hlen : data.length ≤ s.geo.bytesPerCluster)
    (hfree : ∃ c, s.geo.validCluster c = true ∧ s.fatCache c = 0) :
    ∃ s', s.write id 0 data = (.ok data.length, s') := by
  have hpos : 0 < data.length := List.length_pos_iff.mpr hne
  have hB : s.geo.bytesPerCluster < 2 ^ 17 := by
    have := s.geo.sectorsPerCluster_lt
    rw [s.geo.bytesPerCluster_eq]
    omega
  have hlt : 0 + data.length < 2 ^ 32 := by omega
  have hneed : s.clustersFor (0 + data.length) = 1 := by
    rw [clustersFor, if_neg (by omega), Nat.mod_eq_of_lt (by omega), Nat.zero_add]
    exact Nat.div_eq_of_lt_le (by omega) (by omega)
  have hchain : s.clusterChain i.firstCluster = [] := by
    rw [h0, clusterChain_def, chainOf_zero]
  obtain ⟨c, hv, hc⟩ := hfree
  cases halloc : s.allocCluster with
  | none =>
    rw [allocCluster, Option.map_eq_none_iff] at halloc
    obtain ⟨hc2, hclt⟩ := Geometry.validCluster_iff.mp hv
    have hmem : c ∈ List.range' 2 (s.geo.fatLen - 2) := by
      rw [List.mem_range'_1]
      omega
    exact absurd (beq_iff_eq.mpr hc) (List.find?_eq_none.mp halloc c hmem)
  | some p =>
    obtain ⟨n, hn⟩ := (write_ok_iff hg hi hk hlt).mpr
      ⟨{ i with firstCluster := p.1 }, [p.1], by
        rw [growFor, hneed, hchain, List.length_nil, extendChain, halloc]
        rfl, hflat.findSized_ok p.1 s.geo.fatLen⟩
    have hwrite : s.write id 0 data = (.ok n, (s.write id 0 data).2) := Prod.ext hn rfl
    obtain ⟨rfl, -⟩ := wrote_of_ok hg hi hk hlt hwrite
    exact ⟨_, hwrite⟩

/-- A file in the root directory leaves it flat. -/
theorem Entered.rootFlat {H : Nat → Prop} {s s' : Fat32} {a : Nat} {e : RawDirEntry}
    (h : Entered H s s' s.geo.rootCluster a e) (he : e.isDir = false) (hflat : RootFlat s) :
    RootFlat s' := by
  intro b hb hent
  rw [h.geo] at hb
  by_cases hba : b = a
  · rw [hba, h.entry]
    exact he
  rcases h.slot b hb with heq | hold | hfree
  · exact absurd heq hba
  · rw [(h.kept b hold).2 hba] at hent ⊢
    exact hflat b hold hent
  · simp [RawDirEntry.isEntry, hfree] at hent

/-- On an empty volume `create` makes file `A`, and a byte is written to it. -/
theorem emptyMount_create_write :
    ∃ id s₁ s₂, emptyMount.create (fun x => x) 1 [0x41] = (.ok id, s₁) ∧
      s₁.write id 0 [1] = (.ok 1, s₂) := by
  obtain ⟨a, s, hent, hcreate, hgood, hfat⟩ := emptyMount_create (fun x => x) [0x41]
  have hent' : Entered (namesOf emptyMount).heads emptyMount s emptyMount.geo.rootCluster a
      (newFileEntry (fun x => x) [0x41]) := hent
  have hgeo : (s.internInode 0 0 false).2.geo = smallGeometry :=
    (internInode_geo s 0 0 false).trans hent.geo
  have hflat : RootFlat (s.internInode 0 0 false).2 := by
    have hflat₁ := hent'.rootFlat (newFileEntry_isDir _ _) (flat_empty.rootFlat_mount rootFat_lt)
    have hdirs := sameDirs_internInode s 0 0 false
    intro b hb he
    rw [hdirs.geo, hdirs.slotAddrs IsDir.root] at hb
    rw [hdirs.entryAt IsDir.root hb] at he ⊢
    exact hflat₁ b hb he
  obtain ⟨i, hi, hi0, hik⟩ := internInode_get s 0 0 false
  have hfree : smallGeometry.validCluster 3 = true ∧ emptyMount.fatCache 3 = 0 :=
    ⟨by decide, Flat.fatCache_mount rootFat_lt (by decide)⟩
  obtain ⟨s₂, hwrite⟩ := write_first_ok hgood hflat hi hik hi0 (show [1] ≠ [] by simp)
    (by rw [hgeo]; decide) ⟨3, hgeo ▸ hfree.1, hfat ▸ hfree.2⟩
  exact ⟨_, _, s₂, hcreate, hwrite⟩

theorem emptyMount_words : Words emptyMount := fun x => by
  have hlt := leNat_lt (readBytes ((flatVolume smallGeometry rootFat []).fatTable.getD · 0)
    (x * 4) 4)
  rw [readBytes_length] at hlt
  exact hlt

theorem emptyMount_dirInOrder : DirInOrder emptyMount 2 := by
  have hg : Good emptyMount := flat_empty.good_mount rootFat_lt
  exact ⟨by decide, hg.chains.nodup _ (Or.inl IsDir.root), hg.chains.alloc _ (Or.inl IsDir.root)⟩

theorem create_write_not_foundAgain_empty :
    ∃ id s₁ s₂, emptyMount.create (fun x => x) 1 [0x41] = (.ok id, s₁) ∧
      s₁.write id 0 [1] = (.ok 1, s₂) ∧
      ¬ FoundAgain (fun x => x) s₂ 1 [0x41] [1] ∧
        ∀ s₃ dirId', Remounted (fun x => x) s₂ s₃ → SameDirectory emptyMount s₃ 1 dirId' →
          ¬ FoundAgain (fun x => x) s₃ dirId' [0x41] [1] := by
  have hg : Good emptyMount := flat_empty.good_mount rootFat_lt
  obtain ⟨id, s₁, s₂, hcreate, hwrite⟩ := emptyMount_create_write
  exact ⟨id, s₁, s₂, hcreate, hwrite, create_write_not_foundAgain hg.sound emptyMount_words
    emptyMount_root emptyMount_dirInOrder hcreate hwrite (by simp)⟩

/-- Byte 1 written to the new file `A` of an empty volume does not persist. -/
theorem not_persists_empty :
    mount smallGeometry (flatDisk smallGeometry rootFat []) = some emptyMount ∧
      ¬ Persists (fun x => x) emptyMount 1 [0x41] [1] := by
  have hg : Good emptyMount := flat_empty.good_mount rootFat_lt
  refine ⟨flat_empty.mount_eq, fun h => ?_⟩
  obtain ⟨id, s₁, s₂, hcreate, hwrite⟩ := emptyMount_create_write
  have hlost := lost_of_create_write hg.sound emptyMount_words emptyMount_root
    emptyMount_dirInOrder hcreate hwrite
  exact hlost.headless.not_foundAgain hlost.sound hlost.inode rfl (by simp)
    (h id s₁ s₂ hcreate hwrite (by simp)).1

end AeroOS.Fat32
