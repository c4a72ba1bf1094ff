import AeroOS.Fat32.EntryEffects
import AeroOS.Fat32.NewEntries
import AeroOS.Fat32.OutOfClusters

/-!
# FAT32: the dot entries of a new directory

`mkdir` writes `.` and `..` into the new cluster by hand.  `lookup` makes a short
name of what it looks for, and the last dot of `..` is taken for the separator.

* `made_first`: the first slot of a new directory is its `.` entry.
* `lookup_dotdot`: the search for `..` ends there.
* `NewDir.climb`: so no new directory leads back to its parent.
-/

namespace AeroOS.Fat32

open Build Bytes

variable {upper : List UInt8 → List UInt8} {s s' t : Fat32} {c d parent id : Nat}
  {name : List UInt8}

/-! ## The first slot -/

theorem toShortName_dotdot (hup : UpperAscii upper) : toShortName upper [0x2E, 0x2E] = dotName := by
  have h1 : upper [0x2E] = [0x2E] := hup _ (List.forall_mem_singleton.mpr (by decide))
  have h2 : upper [] = [] := hup _ (List.forall_mem_nil _)
  have hsplit := @toShortName_split upper [0x2E] [] (by decide) (by decide)
  rw [h1, h2] at hsplit
  exact hsplit

theorem firstSlot_mem :
    s.geo.clusterAddr c + 0 * 32 ∈ s.geo.slotsOf [c] := by
  have hB := s.geo.sectorsPerCluster_pos
  refine Geometry.mem_slotsOf.mpr ⟨c, List.mem_singleton_self c, 0, ?_, rfl⟩
  rw [s.geo.bytesPerCluster_eq]
  omega

/-- The first slot that a search of a directory looks at. -/
theorem readDirRaw_first (hs : Sound s) (hv : s.geo.validCluster c = true) :
    ∃ rest, s.readDirRaw c = s.entryAt (s.geo.clusterAddr c + 0 * 32) :: rest := by
  have hB := s.geo.sectorsPerCluster_pos
  obtain ⟨l, hl⟩ : ∃ l, s.clusterChain c = c :: l := by
    have hhead : (s.clusterChain c).head? = some c := head?_chainOf hv
    cases hchain : s.clusterChain c with
    | nil =>
      rw [hchain] at hhead
      cases hhead
    | cons x l =>
      rw [hchain] at hhead
      exact ⟨l, by rw [Option.some.inj hhead]⟩
  obtain ⟨n, hn⟩ : ∃ n, s.geo.bytesPerCluster / 32 = n + 1 :=
    ⟨s.geo.bytesPerCluster / 32 - 1, by rw [s.geo.bytesPerCluster_eq]; omega⟩
  rw [readDirRaw_eq hs, slotAddrs, hl, Geometry.slotsOf, List.flatMap_cons, hn,
    List.range_succ_eq_map, List.map_cons, List.cons_append, List.map_cons]
  exact ⟨_, rfl⟩

/-- What `mkdir` leaves: a new cluster that begins with its `.` entry, and the
directory interned. -/
structure NewDir (s s' : Fat32) (parent id c : Nat) : Prop where
  sound : Sound s'
  valid : s'.geo.validCluster c = true
  first : s'.entryAt (s'.geo.clusterAddr c + 0 * 32) = RawDirEntry.new dotName rfl attrDir c
  found : s'.inodes.find? c true = some id
  wasFree : s.fatCache c = 0
  parent : ∀ dir, s.inodes.get parent = some dir → s'.inodes.get parent = some dir

/-- The `.` entry stays in place while the parent gets its entry. -/
theorem made_first (hs : Sound s) (hv : s.geo.validCluster c = true) {e : RawDirEntry}
    (hwrite : (s.makeDir c d).writeDirEntry d e true = (.ok (), t)) :
    t.geo = s.geo ∧
      (t.setBytes t.flushedBytes).entryAt (s.geo.clusterAddr c + 0 * 32) =
        RawDirEntry.new dotName rfl attrDir c := by
  have hs₁ : Sound (s.makeDir c d) := hs.of_eq rfl rfl
  have hin : s.geo.clusterAddr c + 0 * 32 ∈ s.geo.slotsOf [c] := firstSlot_mem
  have hcs : ∀ c' ∈ [c], s.geo.validCluster c' = true := fun c' hc' =>
    (List.mem_singleton.mp hc') ▸ hv
  have hdot : (s.makeDir c d).entryAt (s.geo.clusterAddr c + 0 * 32) =
      RawDirEntry.new dotName rfl attrDir c := by
    have hfresh := ofBytes_freshCluster (g := s.geo) s.disk.bytes (s.geo.clusterAddr c)
      (show 0 < (dotEntries c d).length by simp [dotEntries])
    exact hfresh.trans (RawDirEntry.stored_new _ _ _ _)
  have hused : ((s.makeDir c d).entryAt (s.geo.clusterAddr c + 0 * 32)).isFree = false := by
    rw [hdot]
    rfl
  have hflush : t.geo = s.geo → (t.setBytes t.flushedBytes).entryAt
      (s.geo.clusterAddr c + 0 * 32) = t.entryAt (s.geo.clusterAddr c + 0 * 32) := fun hgeo =>
    t.entryAt_flushed (show _ ∈ t.geo.slotsOf [c] from hgeo ▸ hin)
  rcases writeDirEntry_shape hs₁ d e with ⟨err, -, -, heq⟩ | ⟨c', err, -, -, -, heq⟩ |
    ⟨a, ha, hfree, heq⟩ | ⟨c', last, m, hv', hc', -, -, hm, heq⟩
  · rw [hwrite] at heq
    cases heq
  · rw [hwrite] at heq
    cases heq
  · rw [hwrite] at heq
    obtain ⟨-, rfl⟩ := Prod.mk.inj heq
    refine ⟨rfl, (hflush rfl).trans (Eq.trans ?_ hdot)⟩
    refine entryAt_pack_of_ne ha hin fun hne => ?_
    rw [← hne, hused] at hfree
    cases hfree
  · rw [hwrite] at heq
    obtain ⟨-, rfl⟩ := Prod.mk.inj heq
    refine ⟨rfl, (hflush rfl).trans (Eq.trans ?_ hdot)⟩
    have hne : c' ≠ c := fun heq => by
      have hmade : (s.makeDir c d).fatCache c = fatEoc := if_pos rfl
      rw [heq, hmade] at hc'
      exact absurd hc' (by decide)
    refine entryAt_fresh_of_not_mem (one_fits s.geo e)
      (Geometry.validCluster_iff.mp hv').1 hm hcs hin fun hin' => ?_
    obtain ⟨x, hx, hx', -⟩ := Geometry.mem_of_mem_slotsOf hcs
      (fun y hy => (List.mem_singleton.mp hy) ▸ hv') hin hin'
    exact hne ((List.mem_singleton.mp hx').symm.trans (List.mem_singleton.mp hx))

theorem newDir_of_mkdir (hs : Sound s) (h : s.mkdir upper parent name = (.ok id, s')) :
    ∃ c, NewDir s s' parent id c := by
  obtain ⟨dir, c, t, hdir, -, hv, hc, -, hwrite, hintern⟩ := mkdir_shape hs h
  obtain ⟨hgeo, hfirst⟩ := made_first hs hv hwrite
  have hs₁ : Sound (s.makeDir c dir.firstCluster) := hs.of_eq rfl rfl
  obtain ⟨-, hino, hpres⟩ := writeDirEntry_frame hs₁ hwrite
  have hst : s' = ((t.setBytes t.flushedBytes).internInode c 0 true).2 := by rw [hintern]
  have hgeo' : s'.geo = s.geo := by rw [hst, internInode_geo, setBytes_geo, hgeo]
  have hdisk : s'.disk = (t.setBytes t.flushedBytes).disk := by rw [hst, internInode_disk]
  refine ⟨c,
    { sound := hs.of_eq hgeo' (by rw [hdisk]; exact hpres)
      valid := hgeo'.symm ▸ hv
      first := ?_
      found := ?_
      wasFree := hc
      parent := fun i hi => ?_ }⟩
  · rw [hgeo', entryAt, hdisk]
    exact hfirst
  · have hfind := internInode_find? (t.setBytes t.flushedBytes) c 0 true
    rw [hintern] at hfind
    exact hfind
  · rw [hst]
    exact internInode_get_of_some ((congrArg (fun t => t.get parent) hino).trans hi)

/-! ## The way up -/

/-- The lookup of `..` in a new directory. -/
def dotdot : List UInt8 := [0x2E, 0x2E]

/-- The search for `..` in a new directory finds its `.` entry. -/
theorem NewDir.lookup_dotdot (h : NewDir s s' parent id c) (hup : UpperAscii upper) :
    s'.lookup upper id dotdot = (.ok id, s') := by
  obtain ⟨i, hi, hh, hk⟩ := InodeTable.find?_eq_some h.found
  obtain ⟨rest, hraw⟩ := readDirRaw_first h.sound h.valid
  rw [h.first] at hraw
  have hdir : (RawDirEntry.new dotName rfl attrDir c).isDir = true := by
    change (attrDir &&& attrDir != 0) = true
    decide
  have hlfn : (RawDirEntry.new dotName rfl attrDir c).isLfn = false := by
    change (attrDir &&& attrLfn == attrLfn) = false
    decide
  have hfind : findEntry (s'.readDirRaw i.firstCluster) (toShortName upper dotdot) =
      some (RawDirEntry.new dotName rfl attrDir c) := by
    rw [hh, hraw, dotdot, toShortName_dotdot hup, findEntry, List.find?_cons_of_pos]
    rw [hlfn]
    rfl
  have hhead : (RawDirEntry.new dotName rfl attrDir c).firstCluster = c :=
    RawDirEntry.firstCluster_new (Geometry.validCluster_lt h.valid)
  rw [lookup, hi]
  simp only [hk, Bool.true_eq_false, if_false, hfind, hhead, hdir, internInode_of_find? h.found]

/-- `..` looked up again and again, `n` times. -/
def climb (upper : List UInt8 → List UInt8) : Nat → Fat32 → Nat → Except String Nat × Fat32
  | 0, s, id => (.ok id, s)
  | n + 1, s, id =>
    match s.lookup upper id dotdot with
    | (.error e, s) => (.error e, s)
    | (.ok id, s) => climb upper n s id

theorem NewDir.climb (h : NewDir s s' parent id c) (hup : UpperAscii upper) (n : Nat) :
    Fat32.climb upper n s' id = (.ok id, s') := by
  induction n with
  | zero => rfl
  | succ n ih =>
    simp only [Fat32.climb, h.lookup_dotdot hup]
    exact ih

/-- The new directory is empty, and the dot entries and its entry in the parent lead
where they should. -/
structure Wired (upper : List UInt8 → List UInt8) (s : Fat32) (parent id : Nat)
    (name : List UInt8) : Prop where
  empty : (s.readdir id).1 = .ok []
  dot : (s.lookup upper id [0x2E]).1 = .ok id
  dotdot : (s.lookup upper id dotdot).1 = .ok parent
  entry : (s.lookup upper parent name).1 = .ok id

/-- An entry that is written to a directory with a free slot is seen there. -/
theorem made_seen {e : RawDirEntry} (hs : Sound s) (he : e.stored = e)
    (hroom : ∃ a ∈ s.slotAddrs d, (s.entryAt a).isFree = true)
    (hwrite : s.writeDirEntry d e true = (.ok (), t)) :
    e ∈ (t.setBytes t.flushedBytes).readDirRaw d := by
  obtain ⟨a, ha, -, heq⟩ := writeDirEntry_free hs e hroom
  rw [hwrite] at heq
  obtain ⟨-, rfl⟩ := Prod.mk.inj heq
  rw [readDirRaw_eq ((hs.setBytes _).setBytes _)]
  refine List.mem_map.mpr ⟨a, ha, ?_⟩
  exact (entryAt_flushed (s.setBytes (writeBytes s.disk.bytes a e.pack)) ha).trans
    ((RawDirEntry.ofBytes_writeBytes_pack _ _ _).trans he)

/-- A new directory has room behind its dot entries. -/
theorem makeDir_room (s : Fat32) (hv : s.geo.validCluster c = true) (parent : Nat) :
    ∃ a ∈ (s.makeDir c parent).slotAddrs c, ((s.makeDir c parent).entryAt a).isFree = true := by
  have hB := s.geo.sectorsPerCluster_pos
  have hBeq := s.geo.bytesPerCluster_eq
  have hchain : (s.makeDir c parent).clusterChain c = [c] := chainOf_singleton hv (if_pos rfl)
  refine ⟨s.geo.clusterAddr c + 2 * 32, ?_, ?_⟩
  · rw [slotAddrs, hchain]
    exact Geometry.mem_slotsOf.mpr ⟨c, List.mem_singleton_self c, 2, by
      change 2 < s.geo.bytesPerCluster / 32
      omega, rfl⟩
  · exact isFree_freshCluster (g := s.geo) s.disk.bytes (s.geo.clusterAddr c)
      (show (dotEntries c parent).length ≤ 2 by simp [dotEntries]) (by omega)

theorem newDirEntry_listed (hup : UpperAscii upper) (h83 : Fits83 name) (c : Nat) :
    (newDirEntry upper name c).isListed = true := by
  obtain ⟨h1, h2, h3⟩ := h83.first hup
  have hfirst : (newDirEntry upper name c).name.getD 0 0 = (toShortName upper name).getD 0 0 := rfl
  rw [RawDirEntry.isListed, newDirEntry_plain, RawDirEntry.isFree, hfirst]
  generalize (toShortName upper name).getD 0 0 = b at h1 h2 h3
  have h0 : b ≠ 0x00 := fun h => absurd (h ▸ h1) (by decide)
  have h5 : b ≠ 0xE5 := fun h => absurd (h ▸ h2) (by decide)
  simp [h0, h5, h3]

/-- No new directory leads back to its parent: `..` names the directory itself, and
if that is its own parent it is not empty. -/
theorem not_wired_of_mkdir (hs : Sound s) (hup : UpperAscii upper) (h83 : Fits83 name)
    (h : s.mkdir upper parent name = (.ok id, s')) : ¬ Wired upper s' parent id name := by
  intro hw
  obtain ⟨dir, c, t, hdir, hk, hv, -, -, hwrite, hintern⟩ := mkdir_shape hs h
  have hst : s' = ((t.setBytes t.flushedBytes).internInode c 0 true).2 := by rw [hintern]
  obtain ⟨c', hnew⟩ := newDir_of_mkdir hs h
  have hself : parent = id := by
    have hup := hw.dotdot
    rw [hnew.lookup_dotdot ‹_›] at hup
    exact (Except.ok.inj hup).symm
  subst hself
  have hfind := internInode_find? (t.setBytes t.flushedBytes) c 0 true
  rw [hintern] at hfind
  obtain ⟨i, hi, hh, -⟩ := InodeTable.find?_eq_some hfind
  have hdir' := hnew.parent dir hdir
  rw [hi] at hdir'
  obtain rfl := Option.some.inj hdir'
  rw [hh] at hwrite
  have hs₁ : Sound (s.makeDir c c) := hs.of_eq rfl rfl
  have hmem := made_seen hs₁ (RawDirEntry.stored_new _ _ _ _) (makeDir_room s hv c) hwrite
  have hempty := hw.empty
  rw [readdir_of_dir hi hk, hh, hst, readDirRaw_internInode] at hempty
  have hshown := listEntries_shown ((t.setBytes t.flushedBytes).readDirRaw c)
    ((t.setBytes t.flushedBytes).internInode c 0 true).2
  rw [Except.ok.inj hempty] at hshown
  have hnone := List.map_eq_nil_iff.mp hshown.symm
  exact List.filter_eq_nil_iff.mp hnone _ hmem (newDirEntry_listed hup h83 c)

/-- No new directory is wired as it should be, and `..` never leaves it. -/
theorem mkdir_not_wired (hs : Sound s) (hup : UpperAscii upper) (h83 : Fits83 name)
    (h : s.mkdir upper parent name = (.ok id, s')) :
    ¬ Wired upper s' parent id name ∧ ∀ n, s'.climb upper n id = (.ok id, s') := by
  obtain ⟨c, hnew⟩ := newDir_of_mkdir hs h
  exact ⟨not_wired_of_mkdir hs hup h83 h, hnew.climb hup⟩

/-! ## A directory on an empty volume -/

/-- `mkdir` succeeds for a new name in a directory with a free slot, if a cluster is
free. -/
theorem mkdir_ok (hs : Sound s) {dir : FatInode} (hdir : s.inodes.get parent = some dir)
    (hk : dir.isDir = true)
    (hnone : findEntry (s.readDirRaw dir.firstCluster) (toShortName upper name) = none)
    (horder : DirInOrder s dir.firstCluster) (hnotFull : ¬ Full s)
    (hroom : ∃ a ∈ s.slotAddrs dir.firstCluster, (s.entryAt a).isFree = true) :
    ∃ id s', s.mkdir upper parent name = (.ok id, s') := by
  cases halloc : s.allocCluster with
  | none => exact absurd (allocCluster_eq_none.mp halloc) hnotFull
  | some p =>
    obtain ⟨c, s₁⟩ := p
    obtain ⟨hv, hc, rfl⟩ := allocCluster_spec halloc
    obtain ⟨-, hraw⟩ := makeDir_keeps hs horder hv hc dir.firstCluster
    have hs₁ : Sound (s.makeDir c dir.firstCluster) := hs.of_eq rfl rfl
    have hroom₁ : ∃ a ∈ (s.makeDir c dir.firstCluster).slotAddrs dir.firstCluster,
        ((s.makeDir c dir.firstCluster).entryAt a).isFree = true := by
      obtain ⟨a, ha, hfree⟩ := hroom
      have hmem : s.entryAt a ∈ (s.makeDir c dir.firstCluster).readDirRaw dir.firstCluster := by
        rw [hraw, readDirRaw_eq hs]
        exact List.mem_map_of_mem ha
      rw [readDirRaw_eq hs₁] at hmem
      obtain ⟨b, hb, heq⟩ := List.mem_map.mp hmem
      exact ⟨b, hb, heq ▸ hfree⟩
    obtain ⟨a, -, -, hwrite⟩ := writeDirEntry_free hs₁ (newDirEntry upper name c) hroom₁
    have htaken : Sound (s.setFat c fatEoc) := hs.of_eq rfl rfl
    have hcluster : (s.setFat c fatEoc).writeCluster c
        (freshCluster s.geo (dotEntries c dir.firstCluster)) =
          (true, s.makeDir c dir.firstCluster) :=
      writeCluster_eq htaken hv
        (freshCluster_length (dotEntries_fit s.geo c dir.firstCluster))
    rw [newDirEntry] at hwrite
    rw [mkdir, hdir]
    simp only [hk, Bool.true_eq_false, if_false, hnone, halloc, setFat_geo, freshCluster_two]
    rw [← dotEntries, hcluster]
    simp only [hwrite]
    rw [flushFat_eq (hs₁.setBytes _)]
    exact ⟨_, _, rfl⟩

theorem emptyMount_mkdir (upper : List UInt8 → List UInt8) (name : List UInt8) :
    ∃ id s', emptyMount.mkdir upper 1 name = (.ok id, s') := by
  have hslot : rootSlot smallGeometry 0 ∈ emptyMount.slotAddrs 2 := by
    rw [emptyMount_slotAddrs]
    exact List.mem_map_of_mem (by decide)
  refine mkdir_ok emptyMount_sound emptyMount_root rfl ?_ emptyMount_dirInOrder (fun hfull => ?_)
    ⟨_, hslot, emptyMount_free hslot⟩
  · rw [readDirRaw_eq emptyMount_sound]
    exact findEntry_free fun a ha => emptyMount_free ha
  · exact hfull 3 (by decide) (Flat.fatCache_mount rootFat_lt (by decide))

/-- The name `D`. -/
theorem fits83_D : Fits83 [0x44] :=
  .base (by decide) (by decide) (List.forall_mem_singleton.mpr (by decide))

theorem mkdir_not_wired_D :
    ∃ id s', emptyMount.mkdir (List.map asciiUpper) 1 [0x44] = (.ok id, s') ∧
      ¬ Wired (List.map asciiUpper) s' 1 id [0x44] ∧
      ∀ n, s'.climb (List.map asciiUpper) n id = (.ok id, s') := by
  obtain ⟨id, s', h⟩ := emptyMount_mkdir (List.map asciiUpper) [0x44]
  exact ⟨id, s', h, mkdir_not_wired emptyMount_sound upperAscii_map fits83_D h⟩

/-- A directory `D` made on an empty volume is not wired. -/
theorem not_wired_D : ∃ id s', emptyMount.mkdir (List.map asciiUpper) 1 [0x44] = (.ok id, s') ∧
    ¬ Wired (List.map asciiUpper) s' 1 id [0x44] := by
  obtain ⟨id, s', h⟩ := emptyMount_mkdir (List.map asciiUpper) [0x44]
  exact ⟨id, s', h, not_wired_of_mkdir emptyMount_sound upperAscii_map fits83_D h⟩

end AeroOS.Fat32
