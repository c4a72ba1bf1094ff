import AeroOS.Fat32.NoCrossLink
import AeroOS.Fat32.EntryEffects
import AeroOS.Fat32.TruncateLaw

/-!
# FAT32: volumes that the operations keep well formed

* `LinksOk`: every entry of the table is free, an end mark or the number of a cluster.
  `Good.ended` reads the ends of the chains off it.
* `Tidy` adds to `InOrder` that the table is linked and that the files fit in their
  chains.  `Tidy.wellFormed` is what it is for.
* `create_linksOk`, .., `truncate_linksOk`: the operations keep the table linked.
  `truncate_end` is the state behind `truncate`.
-/

namespace AeroOS.Fat32

open Bytes

/-! ## The values in the table -/

/-- A value for an entry of the table: free, an end mark, or a cluster. -/
def LinkValue (g : Geometry) (v : Nat) : Prop :=
  v = 0 ∨ fatEoc - 1 ≤ v ∨ g.validCluster v = true

/-- The entries of the table are free, end marks or numbers of clusters. -/
def LinksOk (s : Fat32) : Prop :=
  ∀ c, s.geo.validCluster c = true → LinkValue s.geo (s.fatCache c)

theorem linkValue_free (g : Geometry) : LinkValue g fatFree := Or.inl rfl

theorem linkValue_eoc (g : Geometry) : LinkValue g fatEoc := Or.inr (Or.inl (Nat.sub_le _ _))

theorem linkValue_cluster {g : Geometry} {c : Nat} (hc : g.validCluster c = true) :
    LinkValue g c := Or.inr (Or.inr hc)

namespace LinksOk

variable {s s' : Fat32}

theorem of_eq (h : LinksOk s) (hgeo : s'.geo = s.geo) (hfat : s'.fatCache = s.fatCache) :
    LinksOk s' := by
  rw [LinksOk, hgeo, hfat]
  exact h

theorem setFat (h : LinksOk s) (c : Nat) {v : Nat} (hv : LinkValue s.geo v) :
    LinksOk (s.setFat c v) := by
  intro x hx
  by_cases hxc : x = c
  · rw [hxc, setFat_self]
    exact hv
  · rw [setFat_of_ne s c v hxc]
    exact h x hx

theorem linkFat (h : LinksOk s) (last : Nat) {c : Nat} (hc : s.geo.validCluster c = true) :
    LinksOk (s.linkFat last c) :=
  ((h.setFat c (linkValue_eoc s.geo)).setFat last (linkValue_cluster hc)).setFat c
    (linkValue_eoc s.geo)

theorem freeClusters (h : LinksOk s) (l : List Nat) : LinksOk (s.freeClusters l) := by
  intro x hx
  rw [freeClusters_geo] at hx ⊢
  rw [fatCache_freeClusters]
  split_ifs
  · exact linkValue_free s.geo
  · exact h x hx

theorem extendChain (h : LinksOk s) (id n : Nat) (inode : FatInode) (chain : List Nat) :
    LinksOk (extendChain id n s inode chain).2 := by
  induction n generalizing s inode chain with
  | zero =>
    rw [Fat32.extendChain]
    exact h
  | succ n ih =>
    rw [Fat32.extendChain]
    cases halloc : s.allocCluster with
    | none => exact h
    | some p =>
      obtain ⟨c, s₁⟩ := p
      obtain ⟨hv, -, rfl⟩ := allocCluster_spec halloc
      have h₁ := h.setFat c (linkValue_eoc s.geo)
      cases chain.getLast? with
      | none => exact ih (s := (s.setFat c fatEoc).setFirstCluster id c) (h₁.of_eq rfl rfl) _ _
      | some last =>
        exact ih (s := (s.setFat c fatEoc).setFat last c)
          (h₁.setFat last (linkValue_cluster hv)) _ _

theorem cutFile (h : LinksOk s) (id : Nat) (chain : List Nat) (newSize : Nat) :
    LinksOk (s.cutFile id chain newSize) := by
  rw [Fat32.cutFile]
  split
  swap
  · exact h
  generalize max (s.clustersFor newSize) (if newSize = 0 then 0 else 1) = keep
  have hfree := h.freeClusters (chain.drop keep)
  simp only
  split
  · exact (hfree.setFat (chain.getD 0 0) (linkValue_free _)).of_eq rfl rfl
  · exact hfree.setFat (chain.getD (keep - 1) 0) (linkValue_eoc _)

theorem writeDirEntry (h : LinksOk s) (hs : Sound s) (d : Nat) (e : RawDirEntry) :
    LinksOk (s.writeDirEntry d e true).2 := by
  rcases writeDirEntry_shape hs d e with ⟨err, -, -, heq⟩ | ⟨c, err, -, -, -, heq⟩ |
    ⟨a, -, -, heq⟩ | ⟨c, last, m, hv, -, -, -, -, heq⟩
  · rw [heq]
    exact h
  · rw [heq]
    exact h.setFat c (linkValue_eoc s.geo)
  · rw [heq]
    exact h.of_eq rfl rfl
  · rw [heq]
    exact (h.linkFat last hv).of_eq rfl rfl

theorem freeEntry (h : LinksOk s) (f : Nat) : LinksOk (s.freeEntry f) := by
  rw [Fat32.freeEntry]
  split
  · exact h.freeClusters _
  · exact h

end LinksOk

/-- In a linked table a chain without a cycle has an end mark. -/
theorem Good.ended {s : Fat32} (hg : Good s) (hl : LinksOk s) {h : Nat} (hh : (namesOf s).heads h) :
    ∀ x ∈ (s.clusterChain h).getLast?, fatEoc - 1 ≤ s.fatCache x := by
  intro x hx
  have hgl : (s.clusterChain h).getLast? = some x := hx
  have hmem := List.mem_of_getLast? hgl
  have hnodup : (chainOf s.geo s.fatCache h).Nodup := hg.chains.nodup h hh
  rcases hl x (s.valid_clusterChain h x hmem) with h0 | heoc | hnext
  · exact absurd h0 (hg.chains.alloc h hh x hmem)
  · exact heoc
  · by_contra hlt
    have hsome : nextCluster s.fatCache x = some (s.fatCache x) :=
      if_neg fun hor => hor.elim hlt (hg.chains.alloc h hh x hmem)
    have := Chain.next_getLast?_walk hnodup (chainOf_length_lt hnodup) hgl hsome
    rw [hnext] at this
    cases this

/-! ## The invariant -/

/-- A volume in order, with a linked table, and with every file in its chain. -/
structure Tidy (s : Fat32) : Prop extends InOrder s where
  links : LinksOk s
  inodeFits : ∀ id i, s.inodes.get id = some i → i.isDir = false →
    i.size ≤ (s.clusterChain i.firstCluster).length * s.geo.bytesPerCluster
  slotFits : ∀ a, IsFileSlot s a → (s.entryAt a).fileSize ≤
    (s.clusterChain (s.entryAt a).firstCluster).length * s.geo.bytesPerCluster

theorem Tidy.wellFormed {s : Fat32} (h : Tidy s) : WellFormed s where
  sound := h.good.sound
  names := h.good.names
  valid := h.good.chains.valid
  acyclic := h.good.chains.nodup
  ended _ hh := h.good.ended h.links hh
  disjoint := h.good.chains.disj
  inodeFits := h.inodeFits
  slotFits := h.slotFits

theorem WellFormed.tidy {s : Fat32} (h : WellFormed s) (hself : (namesOf s).NoSelf)
    (hl : LinksOk s) : Tidy s :=
  ⟨⟨h.good, hself⟩, hl, h.inodeFits, h.slotFits⟩

/-- A file without a cluster is empty. -/
theorem Tidy.inode_empty {s : Fat32} (h : Tidy s) {id : Nat} {i : FatInode}
    (hi : s.inodes.get id = some i) (hk : i.isDir = false) (h0 : i.firstCluster = 0) :
    i.size = 0 := by
  have hfit := h.inodeFits id i hi hk
  rw [h0, clusterChain_def, chainOf_zero, List.length_nil, Nat.zero_mul] at hfit
  exact Nat.le_zero.mp hfit

theorem Tidy.slot_empty {s : Fat32} (h : Tidy s) {a : Nat} (ha : IsFileSlot s a)
    (h0 : (s.entryAt a).firstCluster = 0) : (s.entryAt a).fileSize = 0 := by
  have hfit := h.slotFits a ha
  rw [h0, clusterChain_def, chainOf_zero, List.length_nil, Nat.zero_mul] at hfit
  exact Nat.le_zero.mp hfit

/-! ## What the operations leave of the table -/

section links

variable {upper : List UInt8 → List UInt8} {s : Fat32} (hg : Good s) (hl : LinksOk s)

include hg hl

theorem create_linksOk (dirId : Nat) (name : List UInt8) :
    LinksOk (s.create upper dirId name).2 := by
  rw [create]
  split
  · exact hl
  split
  · exact hl
  split
  · exact hl
  rename_i dir _ _ _ _
  have hw := hl.writeDirEntry hg.sound dir.firstCluster (newFileEntry upper name)
  simp only
  rw [← newFileEntry]
  rcases hres : s.writeDirEntry dir.firstCluster (newFileEntry upper name) true with ⟨r, t⟩
  rw [hres] at hw
  obtain ⟨hgeo, -, hpres⟩ := writeDirEntry_frame hg.sound hres
  cases r with
  | error e => exact hw
  | ok u =>
    simp only
    rw [flushFat_eq (hg.sound.of_eq hgeo hpres)]
    exact hw.of_eq (internInode_geo ..) (internInode_fatCache ..)

theorem mkdir_linksOk (dirId : Nat) (name : List UInt8) :
    LinksOk (s.mkdir upper dirId name).2 := by
  cases hdir : s.inodes.get dirId with
  | none =>
    rw [mkdir, hdir]
    exact hl
  | some dir =>
  rcases @mkdir_cases upper _ hg.sound _ _ hdir name with
    ⟨e, heq⟩ | ⟨c, hv, -, -, -, hcases⟩
  · rw [heq]
    exact hl
  have hs₁ : Sound (s.makeDir c dir.firstCluster) := hg.sound.of_eq rfl rfl
  have hl₁ : LinksOk (s.makeDir c dir.firstCluster) :=
    (hl.setFat c (linkValue_eoc s.geo)).of_eq rfl rfl
  have hw := hl₁.writeDirEntry hs₁ dir.firstCluster (newDirEntry upper name c)
  rcases hcases with ⟨e, t, hres, heq⟩ | ⟨t, hres, heq⟩
  · rw [heq]
    rw [hres] at hw
    exact hw
  · obtain ⟨hgeo, -, hpres⟩ := writeDirEntry_frame hs₁ hres
    rw [heq (hs₁.of_eq hgeo hpres)]
    rw [hres] at hw
    exact hw.of_eq (internInode_geo ..) (internInode_fatCache ..)

theorem unlink_linksOk (dirId : Nat) (name : List UInt8) :
    LinksOk (s.unlink upper dirId name).2 := by
  rcases @unlink_cases upper _ hg.sound dirId name with
    ⟨e, heq⟩ | ⟨dir, a, -, -, -, ⟨-, heq⟩ | ⟨r, -, heq⟩⟩
  · rw [heq]
    exact hl
  · rw [heq]
    exact hl.freeEntry _
  · rw [heq]
    refine (hl.freeEntry (s.entryAt a).firstCluster).of_eq ?_ ?_
    · rw [erase, dropVictim_geo, setBytes_geo, setBytes_geo]
    · rw [erase, dropVictim_fatCache, setBytes_fatCache, setBytes_fatCache]

theorem write_linksOk {id offset : Nat} {buf : List UInt8} {i : FatInode}
    (hi : s.inodes.get id = some i) (hk : i.isDir = false)
    (hlt : offset + buf.length < 2 ^ 32) : LinksOk (s.write id offset buf).2 := by
  rw [write_eq hg hi hk hlt]
  have hgrow : LinksOk (s.growFor id i (offset + buf.length)).2 := hl.extendChain _ _ _ _
  rcases hres : s.growFor id i (offset + buf.length) with ⟨r, s₁⟩
  rw [hres] at hgrow
  cases r with
  | error e => exact hgrow
  | ok p =>
    simp only
    have hdata : LinksOk (wroteData s₁ id p.2 i.size offset buf) :=
      hgrow.of_eq (wroteData_geo ..) (wroteData_fatCache ..)
    split
    · exact hdata
    · exact hdata
    · exact hdata.of_eq rfl rfl

end links

section truncate

variable {s : Fat32} (hw : WellFormed s) {id : Nat} {i : FatInode}
  (hi : s.inodes.get id = some i) (hk : i.isDir = false)

include hw hi hk

/-- The state in which `truncate` leaves the volume: the file is cut, the table flushed, and
the size goes into the first slot of the walk that has the first cluster. -/
theorem truncate_end (size : Nat) : ∃ f' s₂,
    s₂ = (s.cutFile id (s.clusterChain i.firstCluster) (size % 2 ^ 32)).setSize id
      (size % 2 ^ 32) ∧
    s₂.inodes.get id = some { firstCluster := f', size := size % 2 ^ 32, isDir := false } ∧
    SameDirs s s₂ ∧
    s.truncate id size = (.ok (), (s.firstSized f').elim (s₂.setBytes s₂.flushedBytes)
      fun b => (s₂.setBytes s₂.flushedBytes).setEntrySize b (size % 2 ^ 32)) := by
  obtain ⟨f', hcut⟩ := cutFile_cutTo hw.good.chains (heads_of_inode hi) id (size % 2 ^ 32)
  have htrunc := truncate_eq hi hk size
  have hdirs := hcut.sameDirs hw hi hk
  have hi₂ := (hcut.inodes hi hk (size % 2 ^ 32)).1
  generalize hs₂ : (s.cutFile id (s.clusterChain i.firstCluster) (size % 2 ^ 32)).setSize id
    (size % 2 ^ 32) = s₂ at htrunc hdirs hi₂
  have hdisk : s₂.disk = s.disk := by rw [← hs₂, setSize_disk, hcut.disk]
  have hsound : Sound s₂ := hw.sound.of_eq hdirs.geo (by rw [hdisk])
  refine ⟨f', s₂, rfl, hi₂, hdirs, ?_⟩
  have hsame := hdirs.flushed
  have hfind : Fat32.findSized (s₂.setBytes s₂.flushedBytes) f'
      (s₂.setBytes s₂.flushedBytes).maxDepth (s₂.setBytes s₂.flushedBytes).geo.rootCluster =
        .ok (s.firstSized f') := by
    rw [maxDepth, hsame.geo, hsame.findSized f' _ IsDir.root]
    exact walk_finishes hw.good f'
  rw [htrunc, commit, flushFat_eq hsound]
  simp only
  rw [updateDirEntrySize_eq (hsound.setBytes _)
    (show (s₂.setBytes s₂.flushedBytes).inodes.get id = _ from hi₂) rfl, hfind]
  cases s.firstSized f' with
  | none => rfl
  | some b => rfl

theorem truncate_linksOk (hl : LinksOk s) (size : Nat) : LinksOk (s.truncate id size).2 := by
  obtain ⟨f', s₂, hs₂, -, -, heq⟩ := truncate_end hw hi hk size
  have hcut : LinksOk s₂ := by
    rw [hs₂]
    exact (hl.cutFile id (s.clusterChain i.firstCluster) (size % 2 ^ 32)).of_eq rfl rfl
  rw [heq]
  cases s.firstSized f' with
  | none => exact hcut.of_eq rfl rfl
  | some b => exact hcut.of_eq rfl rfl

end truncate

end AeroOS.Fat32
