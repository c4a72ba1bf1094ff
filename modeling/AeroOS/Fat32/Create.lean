import AeroOS.Fat32.DirWrite

/-!
# FAT32: `create` and `mkdir`

* `findEntry_spec` and `findEntry_eq_none` are the search by name that the
  operations on directories begin with.
* `create_cases` and `mkdir_cases` take the operations apart: what a failure
  leaves behind, and the steps of a success.
-/

namespace AeroOS.Fat32

open Bytes

/-! ## Searching a directory -/

/-- What a search by name finds is live and has the name. -/
theorem findEntry_spec {f : Nat → RawDirEntry} {l : List Nat} {short : List UInt8}
    {e : RawDirEntry} (h : findEntry (l.map f) short = some e) :
    ∃ a ∈ l, f a = e ∧ (f a).isLive = true ∧ (f a).name = short := by
  rw [findEntry] at h
  obtain ⟨a, ha, rfl⟩ := List.mem_map.mp (List.mem_of_find?_eq_some h)
  have hhit := List.find?_some (p := fun e : RawDirEntry =>
    !(e.isFree || e.isLfn) && e.name == short) h
  simp only [Bool.and_eq_true, beq_iff_eq] at hhit
  refine ⟨a, ha, rfl, ?_, hhit.2⟩
  simpa [RawDirEntry.isLive] using hhit.1

/-- No live entry has a name that a search did not find. -/
theorem findEntry_eq_none {f : Nat → RawDirEntry} {l : List Nat} {short : List UInt8}
    (h : findEntry (l.map f) short = none) {b : Nat} (hb : b ∈ l)
    (hlive : (f b).isLive = true) : (f b).name ≠ short := by
  intro hname
  have hnone := List.find?_eq_none.mp h (f b) (List.mem_map_of_mem hb)
  simp only [RawDirEntry.isLive, Bool.and_eq_true, Bool.not_eq_true'] at hlive
  simp [hlive.1, hlive.2, hname] at hnone

/-- Nothing is found when no live entry has the name. -/
theorem findEntry_of_names {f : Nat → RawDirEntry} {l : List Nat} {short : List UInt8}
    (h : ∀ a ∈ l, (f a).isLive = true → (f a).name ≠ short) :
    findEntry (l.map f) short = none := by
  refine List.find?_eq_none.mpr fun e he hhit => ?_
  obtain ⟨a, ha, rfl⟩ := List.mem_map.mp he
  rw [Bool.and_eq_true, beq_iff_eq] at hhit
  exact h a ha (by simpa [RawDirEntry.isLive] using hhit.1) hhit.2

/-- Nothing is found in a directory whose slots are free. -/
theorem findEntry_free {f : Nat → RawDirEntry} {l : List Nat} {short : List UInt8}
    (h : ∀ a ∈ l, (f a).isFree = true) : findEntry (l.map f) short = none :=
  findEntry_of_names fun a ha hlive => by simp [RawDirEntry.isLive, h a ha] at hlive

/-! ## `create` -/

section create

variable {upper : List UInt8 → List UInt8} {H : Nat → Prop} {s : Fat32} (hs : Sound s)
  (hH : ChainsOk s.geo s.fatCache H) {dirId : Nat} {dir : FatInode}
  (hdir : s.inodes.get dirId = some dir) (hd : H dir.firstCluster) (name : List UInt8)

/-- The entry that `create` writes. -/
def newFileEntry (upper : List UInt8 → List UInt8) (name : List UInt8) : RawDirEntry :=
  RawDirEntry.new (toShortName upper name) (toShortName_length upper name) attrArchive 0

theorem newFileEntry_isDir (upper : List UInt8 → List UInt8) (name : List UInt8) :
    (newFileEntry upper name).isDir = false := by
  change (attrArchive &&& attrDir != 0) = false
  decide

theorem newFileEntry_plain (upper : List UInt8 → List UInt8) (name : List UInt8) :
    (newFileEntry upper name).isLfn = false := by
  change (attrArchive &&& attrLfn == attrLfn) = false
  decide

include hs hH hdir hd

/-- `create` fails, with no more than a cluster lost, or enters a file with
first cluster 0 in the directory and interns it. -/
theorem create_cases :
    (∃ e, s.create upper dirId name = (.error e, s)) ∨
    (∃ c e, s.geo.validCluster c = true ∧ s.fatCache c = 0 ∧
      s.create upper dirId name = (.error e, s.setFat c fatEoc)) ∨
    (dir.isDir = true ∧
      findEntry (s.readDirRaw dir.firstCluster) (toShortName upper name) = none ∧
      ∃ a s', Entered H s s' dir.firstCluster a (newFileEntry upper name) ∧
        s.create upper dirId name =
          (.ok (s'.internInode 0 0 false).1, (s'.internInode 0 0 false).2)) := by
  rw [create, hdir]
  simp only
  split
  · exact Or.inl ⟨_, rfl⟩
  rename_i hk
  cases hfind : findEntry (s.readDirRaw dir.firstCluster) (toShortName upper name) with
  | some e => exact Or.inl ⟨_, rfl⟩
  | none =>
    have hstored : (newFileEntry upper name).stored = newFileEntry upper name :=
      RawDirEntry.stored_new _ _ _ _
    have hcases := writeDirEntry_cases hs hH hd hstored
    rw [newFileEntry] at hcases
    simp only
    rcases hcases with ⟨err, heq⟩ | ⟨c, err, hv, hc, heq⟩ | ⟨a, s', hent, heq⟩
    · rw [heq]
      exact Or.inl ⟨_, rfl⟩
    · rw [heq]
      exact Or.inr (Or.inl ⟨c, _, hv, hc, rfl⟩)
    · rw [heq]
      simp only
      rw [flushFat_eq (hs.of_eq hent.geo hent.present)]
      exact Or.inr (Or.inr ⟨by simpa using hk, trivial, a, _, hent.flush, rfl⟩)

omit hH hd in
/-- `create` succeeds for a new name in a directory with a free slot, and takes
no cluster. -/
theorem create_ok (hk : dir.isDir = true)
    (hnone : findEntry (s.readDirRaw dir.firstCluster) (toShortName upper name) = none)
    (hfree : ∃ a ∈ s.slotAddrs dir.firstCluster, (s.entryAt a).isFree = true) :
    ∃ m, s.create upper dirId name =
      (.ok ((s.setBytes m).internInode 0 0 false).1,
        ((s.setBytes m).internInode 0 0 false).2) := by
  obtain ⟨a, -, -, hwrite⟩ := writeDirEntry_free hs (newFileEntry upper name) hfree
  rw [newFileEntry] at hwrite
  rw [create, hdir]
  simp only [hk, Bool.true_eq_false, if_false]
  rw [hnone]
  simp only
  rw [hwrite]
  simp only
  rw [flushFat_eq (hs.setBytes _), setBytes_setBytes]
  exact ⟨_, rfl⟩

end create

/-! ## `mkdir` -/

section mkdir

variable {upper : List UInt8 → List UInt8} {s : Fat32} (hs : Sound s)

theorem dotName_length : dotName.length = 11 := rfl

theorem dotdotName_length : dotdotName.length = 11 := rfl

/-- The entries of a new directory. -/
def dotEntries (cluster parent : Nat) : List RawDirEntry :=
  [RawDirEntry.new dotName dotName_length attrDir cluster,
    RawDirEntry.new dotdotName dotdotName_length attrDir parent]

theorem dotEntries_fit (g : Geometry) (cluster parent : Nat) :
    (dotEntries cluster parent).length * 32 ≤ g.bytesPerCluster := by
  have := g.sectorsPerCluster_pos
  rw [g.bytesPerCluster_eq]
  simp only [dotEntries, List.length_cons, List.length_nil]
  omega

/-- The entry that `mkdir` writes into the parent. -/
def newDirEntry (upper : List UInt8 → List UInt8) (name : List UInt8) (cluster : Nat) :
    RawDirEntry :=
  RawDirEntry.new (toShortName upper name) (toShortName_length upper name) attrDir cluster

theorem newDirEntry_isDir (upper : List UInt8 → List UInt8) (name : List UInt8) (c : Nat) :
    (newDirEntry upper name c).isDir = true := by
  change (attrDir &&& attrDir != 0) = true
  decide

theorem newDirEntry_plain (upper : List UInt8 → List UInt8) (name : List UInt8) (c : Nat) :
    (newDirEntry upper name c).isLfn = false := by
  change (attrDir &&& attrLfn == attrLfn) = false
  decide

/-- Cluster `c` taken for a new directory under `parent`. -/
def makeDir (s : Fat32) (c parent : Nat) : Fat32 :=
  (s.setFat c fatEoc).setBytes (writeBytes s.disk.bytes (s.geo.clusterAddr c)
    (freshCluster s.geo (dotEntries c parent)))

include hs

/-- `mkdir` fails at once, or makes a directory of a free cluster and goes on
to enter it in its parent. -/
theorem mkdir_cases {dirId : Nat} {dir : FatInode} (hdir : s.inodes.get dirId = some dir)
    (name : List UInt8) :
    (∃ e, s.mkdir upper dirId name = (.error e, s)) ∨
    ∃ c, s.geo.validCluster c = true ∧ s.fatCache c = 0 ∧ dir.isDir = true ∧
      findEntry (s.readDirRaw dir.firstCluster) (toShortName upper name) = none ∧
      ((∃ e s', (s.makeDir c dir.firstCluster).writeDirEntry dir.firstCluster
            (newDirEntry upper name c) true = (.error e, s') ∧
          s.mkdir upper dirId name = (.error e, s')) ∨
        ∃ s', (s.makeDir c dir.firstCluster).writeDirEntry dir.firstCluster
            (newDirEntry upper name c) true = (.ok (), s') ∧
          (Sound s' → s.mkdir upper dirId name =
            (.ok ((s'.setBytes s'.flushedBytes).internInode c 0 true).1,
              ((s'.setBytes s'.flushedBytes).internInode c 0 true).2))) := by
  rw [mkdir, hdir]
  simp only
  split
  · exact Or.inl ⟨_, rfl⟩
  rename_i hk
  cases hfind : findEntry (s.readDirRaw dir.firstCluster) (toShortName upper name) with
  | some e => exact Or.inl ⟨_, rfl⟩
  | none =>
    cases halloc : s.allocCluster with
    | none => exact Or.inl ⟨_, rfl⟩
    | some p =>
      obtain ⟨c, s₁⟩ := p
      obtain ⟨hv, hc, rfl⟩ := allocCluster_spec halloc
      have hlen := freshCluster_length (dotEntries_fit s.geo c dir.firstCluster)
      have hs₁ : Sound (s.setFat c fatEoc) := hs.of_eq rfl rfl
      have hwrite : (s.setFat c fatEoc).writeCluster c
          (freshCluster s.geo (dotEntries c dir.firstCluster)) =
            (true, s.makeDir c dir.firstCluster) :=
        writeCluster_eq hs₁ hv hlen
      refine Or.inr ⟨c, hv, hc, by simpa using hk, rfl, ?_⟩
      simp only [setFat_geo, freshCluster_two]
      rw [← dotEntries, hwrite]
      simp only
      rw [← newDirEntry]
      cases hdw : (s.makeDir c dir.firstCluster).writeDirEntry dir.firstCluster
          (newDirEntry upper name c) true with
      | mk r s' =>
        cases r with
        | error e => exact Or.inl ⟨e, s', rfl, rfl⟩
        | ok u =>
          refine Or.inr ⟨s', rfl, fun hs' => ?_⟩
          simp only
          rw [flushFat_eq hs']

end mkdir

end AeroOS.Fat32
