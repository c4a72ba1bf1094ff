import AeroOS.Fat32.SizeEntry
import AeroOS.Fat32.WriteLaw

/-!
# FAT32: what is left of a file after `truncate`

* `TruncateLaw` is what a reader expects: the old bytes up to the new size, zeros behind
  them, the clusters that are not needed free, and every other file as before.
* `truncated` follows `truncate` on a well-formed volume, where it always succeeds.
* `truncateLaw_iff`: the law holds when the size fits 32 bits, and the file shrinks or
  grows over zeros within its last cluster.  `truncate` does not allocate, and does not clear.
-/

namespace AeroOS.Fat32

open Bytes

/-! ## The law -/

/-- The other inodes, and the other files on the disk, keep their chains and contents.
On the disk that is every file but one, which has the first cluster of the inode. -/
structure KeepsOthers (s s' : Fat32) (id : Nat) : Prop where
  inode : ∀ id' i', id' ≠ id → s.inodes.get id' = some i' → i'.isDir = false →
    s'.inodes.get id' = some i' ∧
      s'.clusterChain i'.firstCluster = s.clusterChain i'.firstCluster ∧
        s'.readAll id' = s.readAll id'
  slot : ∃ own, ∀ a, IsFileSlot s a →
    a ≠ own ∨ (s.inodes.get id).map (·.firstCluster) ≠ some (s.entryAt a).firstCluster →
      s'.clusterChain (s.entryAt a).firstCluster = s.clusterChain (s.entryAt a).firstCluster ∧
        s'.slotContents a = s.slotContents a

/-- What a file of these bytes is at another size. -/
def resized (old : List UInt8) (size : Nat) : List UInt8 :=
  old.take size ++ List.replicate (size - old.length) 0

theorem resized_length (old : List UInt8) (size : Nat) : (resized old size).length = size := by
  rw [resized, List.length_append, List.length_take, List.length_replicate]
  omega

/-- What a reader expects of `truncate`: the file has the size, reads as `resized` says,
gives back the clusters that begin behind its end, and the others are kept. -/
def TruncateLaw (s : Fat32) (id size : Nat) : Prop :=
  ∀ s', s.truncate id size = (.ok (), s') →
    s'.size id = size ∧
    (∃ old, s.readAll id = some old ∧ s'.readAll id = some (resized old size)) ∧
    (∀ i, s.inodes.get id = some i → ∀ k c, (s.clusterChain i.firstCluster)[k]? = some c →
      size ≤ k * s.geo.bytesPerCluster → s'.fatCache c = fatFree) ∧
    KeepsOthers s s' id

/-- The size fits 32 bits, and if the file grows then within its last cluster and over
zeros. -/
def Resizes (s : Fat32) (i : FatInode) (size : Nat) : Prop :=
  size < 2 ^ 32 ∧ (i.size < size →
    size ≤ (s.clusterChain i.firstCluster).length * s.geo.bytesPerCluster ∧
      ∀ p, i.size ≤ p → p < size →
        fileView s.geo (s.clusterChain i.firstCluster) s.disk.bytes p = 0)

/-! ## What `truncate` does -/

/-- What `truncate` leaves behind: `s₁` is the state after the cut. -/
structure Truncated (s s' : Fat32) (id n : Nat) (i : FatInode) (s₁ : Fat32) (f' : Nat) :
    Prop where
  cut : CutTo (namesOf s).heads s s₁ id i.firstCluster n f'
  committed : Committed (s₁.setSize id n) s' f'
  entry : ∀ d a, IsDir s d → a ∈ s.slotAddrs d → s'.entryAt a = s.entryAt a ∨
    ((s.entryAt a).firstCluster = f' ∧ s'.entryAt a = { s.entryAt a with fileSize := n })

section truncate

variable {s : Fat32} (hw : WellFormed s) {id : Nat} {i : FatInode}
  (hi : s.inodes.get id = some i) (hk : i.isDir = false)

include hw hi hk

/-- The cut does not touch the directories. -/
theorem CutTo.sameDirs {s₁ : Fat32} {n f' : Nat}
    (h : CutTo (namesOf s).heads s s₁ id i.firstCluster n f') :
    SameDirs s (s₁.setSize id n) where
  geo := h.geo
  chain := (h.kept hw.good.described hi hk n).chain
  bytes _ _ _ _ _ _ := by rw [setSize_disk, h.disk]

/-- On a well-formed volume `truncate` succeeds. -/
theorem truncated (size : Nat) : ∃ s' s₁ f', s.truncate id size = (.ok (), s') ∧
    Truncated s s' id (size % 2 ^ 32) i s₁ f' := by
  have hg := hw.good
  obtain ⟨f', hcut⟩ := cutFile_cutTo hg.chains (heads_of_inode hi) id (size % 2 ^ 32)
  have htrunc := truncate_eq hi hk size
  generalize s.cutFile id (s.clusterChain i.firstCluster) (size % 2 ^ 32) = s₁ at hcut htrunc
  generalize hn : size % 2 ^ 32 = n at hcut htrunc
  have hlt : n % 2 ^ 32 = n := by omega
  have hdirs := hcut.sameDirs hw hi hk
  have hi₂ := (hcut.inodes hi hk n).1
  have hdisk : (s₁.setSize id n).disk = s.disk := by rw [setSize_disk, hcut.disk]
  generalize hs₂eq : s₁.setSize id n = s₂ at htrunc hdirs hi₂ hdisk
  have hs₂ : Sound s₂ := hg.sound.of_eq hdirs.geo (by rw [hdisk])
  have hcomm := commit_spec hs₂ hi₂ rfl
  -- the search for the size field finds what it would have found before
  have hfind : Fat32.findSized (s₂.setBytes s₂.flushedBytes) f'
      (s₂.setBytes s₂.flushedBytes).maxDepth (s₂.setBytes s₂.flushedBytes).geo.rootCluster =
        .ok (s.firstSized f') := by
    have hsame := hdirs.flushed
    rw [maxDepth, hsame.geo, hsame.findSized f' _ IsDir.root]
    exact walk_finishes hg f'
  have hentry : ∀ {cs a}, a ∈ s.geo.slotsOf cs →
      (s₂.setBytes s₂.flushedBytes).entryAt a = s.entryAt a := fun {cs a} ha => by
    rw [@entryAt_flushed s₂ a cs (hdirs.geo.symm ▸ ha), entryAt, entryAt, hdisk]
  have hend : s₂.commit id = (.ok (), (s.firstSized f').elim (s₂.setBytes s₂.flushedBytes)
      fun b => (s₂.setBytes s₂.flushedBytes).setEntrySize b n) := by
    rw [commit, flushFat_eq hs₂]
    simp only
    rw [updateDirEntrySize_eq (hs₂.setBytes _)
      (show (s₂.setBytes s₂.flushedBytes).inodes.get id = _ from hi₂) rfl, hfind]
    cases s.firstSized f' with
    | none => rfl
    | some b => rfl
  rw [hend] at htrunc hcomm
  refine ⟨_, s₁, f', htrunc, hcut, hs₂eq ▸ hcomm, fun d a _ ha => ?_⟩
  have ha : a ∈ s.geo.slotsOf (s.clusterChain d) := ha
  cases hfirst : s.firstSized f' with
  | none => exact Or.inl (hentry ha)
  | some b =>
    obtain ⟨hbf, pre, post, hwalk, -⟩ := firstSized_eq_some.mp hfirst
    obtain ⟨d', -, hb⟩ := (mem_walk hg).mp
      (show b ∈ s.walk by rw [hwalk]; exact List.mem_append_right _ List.mem_cons_self)
    have hb' : b ∈ s.geo.slotsOf (s.clusterChain d') := (mem_sizeSlots.mp hb).1
    rw [Option.elim_some]
    by_cases hab : a = b
    · right
      rw [hab, setEntrySize_entryAt, hentry hb', hlt]
      exact ⟨hbf, rfl⟩
    · left
      rw [← hentry ha]
      exact setEntrySize_entryAt_of_ne (hdirs.geo.symm ▸ hb') (hdirs.geo.symm ▸ ha) hab

end truncate

/-! ## The file itself -/

theorem le_keptClusters_mul (s : Fat32) {n : Nat} (hn : n < 2 ^ 32) :
    n ≤ s.keptClusters n * s.geo.bytesPerCluster :=
  (s.le_clustersFor_mul hn).trans (Nat.mul_le_mul_right _ (Nat.le_max_left _ _))

theorem keptClusters_le {s : Fat32} {n k : Nat} (hn : n < 2 ^ 32)
    (hk : n ≤ k * s.geo.bytesPerCluster) : s.keptClusters n ≤ k := by
  by_cases h0 : n = 0
  · rw [h0, keptClusters, clustersFor, if_pos rfl, if_pos rfl, Nat.max_self]
    exact Nat.zero_le k
  have hB := s.geo.bytesPerCluster_pos
  have hB' : s.geo.bytesPerCluster < 2 ^ 17 := by
    have := s.geo.sectorsPerCluster_lt
    rw [s.geo.bytesPerCluster_eq]
    omega
  have hk1 : 1 ≤ k := by
    by_contra hno
    rw [Nat.lt_one_iff.mp (Nat.lt_of_not_le hno), Nat.zero_mul] at hk
    exact h0 (Nat.le_zero.mp hk)
  rw [keptClusters, clustersFor, if_neg h0, if_neg h0, Nat.mod_eq_of_lt (by omega)]
  refine max_le (Nat.le_of_lt_succ ((Nat.div_lt_iff_lt_mul hB).mpr ?_)) hk1
  rw [Nat.succ_mul]
  omega

section file

variable {s s' s₁ : Fat32} {id n f' : Nat} {i : FatInode}
  (hi : s.inodes.get id = some i) (hk : i.isDir = false)
  (h : Truncated s s' id n i s₁ f')

include h

theorem Truncated.geo : s'.geo = s.geo := h.committed.geo.trans h.cut.geo

theorem Truncated.clusterChain (x : Nat) : s'.clusterChain x = s₁.clusterChain x := by
  rw [clusterChain_def, clusterChain_def, h.committed.geo, h.committed.fatCache, setSize_geo,
    setSize_fatCache]

/-- The clusters that begin behind the end are free. -/
theorem Truncated.freed (hn : n < 2 ^ 32) {k c : Nat}
    (hc : (s.clusterChain i.firstCluster)[k]? = some c) (hle : n ≤ k * s.geo.bytesPerCluster) :
    s'.fatCache c = fatFree := by
  rw [h.committed.fatCache, setSize_fatCache]
  refine h.cut.freed c (List.mem_iff_getElem?.mpr ⟨k - s.keptClusters n, ?_⟩)
  rw [List.getElem?_drop, Nat.add_sub_cancel' (keptClusters_le hn hle), hc]

/-- The slot that gets the size is that of the file.  Or it is that of an empty file, and
the size is zero. -/
theorem Truncated.entryAt_of_file (hw : WellFormed s) {a : Nat} (ha : IsFileSlot s a)
    (hne : i.firstCluster ≠ (s.entryAt a).firstCluster ∨ n = 0 ∧ i.firstCluster = 0) :
    s'.entryAt a = s.entryAt a := by
  obtain ⟨d, hd, had⟩ := ha.1
  rcases h.entry d a hd had with heq | ⟨hhead, heq⟩
  · exact heq
  have hzero : n = 0 ∧ (s.entryAt a).firstCluster = 0 := by
    rcases h.cut.chains with ⟨hf, -⟩ | ⟨hn, -, hf, -⟩
    · obtain ⟨hn, h0⟩ := hne.resolve_left fun hne => hne (hhead.trans hf).symm
      exact ⟨hn, hhead.trans (hf.trans h0)⟩
    · exact ⟨hn, hhead.trans hf⟩
  have hfit := hw.slotFits a ha
  rw [hzero.2, clusterChain_def, chainOf_zero, List.length_nil, Nat.zero_mul] at hfit
  rw [heq, hzero.1, ← Nat.le_zero.mp hfit]

include hi hk

theorem Truncated.inode :
    s'.inodes.get id = some { firstCluster := f', size := n, isDir := false } := by
  rw [h.committed.inodes]
  exact (h.cut.inodes hi hk n).1

theorem Truncated.inode_of_ne {x : Nat} (hx : x ≠ id) : s'.inodes.get x = s.inodes.get x := by
  rw [h.committed.inodes]
  exact (h.cut.inodes hi hk n).2 x hx

/-- The clusters of files keep their bytes. -/
theorem Truncated.bytes (hw : WellFormed s) {c x : Nat} (hv : s.geo.validCluster c = true)
    (hfile : ∀ d, IsDir s d → c ∉ s.clusterChain d) (hin : s.geo.InCluster c x) :
    s'.disk.bytes x = s.disk.bytes x := by
  have hdirs := h.cut.sameDirs hw hi hk
  refine (h.committed.bytes c x (Geometry.validCluster_iff.mp hv).1 (fun d hd => ?_)
    (hdirs.geo.symm ▸ hin)).trans (by rw [setSize_disk, h.cut.disk])
  have hd' : IsDir s d := hdirs.isDir_of (fun x j hj hjk => ?_) hd
  · rw [hdirs.chain d hd']
    exact hfile d hd'
  · by_cases hx : x = id
    · rw [hx, (h.cut.inodes hi hk n).1] at hj
      cases hj
      cases hjk
    · rwa [← (h.cut.inodes hi hk n).2 x hx]

/-- A size for which there are clusters gives the view of the old chain, as far as the
size goes. -/
theorem Truncated.readAll_eq (hw : WellFormed s) (hn : n < 2 ^ 32)
    (hfit : n ≤ (s.clusterChain i.firstCluster).length * s.geo.bytesPerCluster) :
    s'.readAll id = some (readBytes (fileView s.geo (s.clusterChain i.firstCluster)
      s.disk.bytes) 0 n) := by
  have hchain := (h.clusterChain f').trans h.cut.chain
  have hkept := s.le_keptClusters_mul hn
  have hfit' : n ≤ ((s.clusterChain i.firstCluster).take (s.keptClusters n)).length *
      s.geo.bytesPerCluster := by
    rw [List.length_take]
    rcases Nat.le_total (s.keptClusters n) (s.clusterChain i.firstCluster).length with hle | hle
    · rwa [Nat.min_eq_left hle]
    · rwa [Nat.min_eq_right hle]
  rw [Fat32.readAll_eq h.committed.sound (h.inode hi hk) rfl
    (by rw [h.geo, hchain]; exact hfit') (show n < 2 ^ 64 by omega)]
  simp only [h.geo, hchain, Option.some.injEq]
  refine readBytes_congr fun p _ hp => ?_
  rw [fileView_congr (m := s.disk.bytes) (by omega) fun c hc x hin => ?_]
  · conv_rhs => rw [← List.take_append_drop (s.keptClusters n) (s.clusterChain i.firstCluster)]
    exact (fileView_append _ (by omega)).symm
  · have hmem := List.mem_of_mem_take hc
    exact h.bytes hi hk hw (s.valid_clusterChain _ c hmem)
      (fun d hd => hw.good.file_disjoint_dir hi hk hd c hmem) hin

/-! ## The others -/

/-- A chain of another head keeps its clusters and its bytes. -/
theorem Truncated.keeps_chain (hw : WellFormed s) {x : Nat} (hx : (namesOf s).heads x)
    (hne : x ≠ i.firstCluster ∨ x = 0)
    (hfile : ∀ d, IsDir s d → ∀ c ∈ s.clusterChain x, c ∉ s.clusterChain d) :
    s'.clusterChain x = s.clusterChain x ∧
      ∀ c ∈ s.clusterChain x, ∀ y, s.geo.InCluster c y → s'.disk.bytes y = s.disk.bytes y := by
  constructor
  · rw [h.clusterChain]
    by_cases hx0 : x = 0
    · rw [hx0, clusterChain_def, clusterChain_def, chainOf_zero, chainOf_zero]
    · exact h.cut.others x hx (hne.resolve_right hx0)
  · exact fun c hc y hin =>
      h.bytes hi hk hw (s.valid_clusterChain x c hc) (fun d hd => hfile d hd c hc) hin

/-- The others keep chains and contents, unless an empty file was to grow. -/
theorem Truncated.keepsOthers (hw : WellFormed s) (hempty : i.firstCluster = 0 → n = 0) :
    KeepsOthers s s' id where
  inode id' i' hne hi' hk' := by
    have hget := h.inode_of_ne hi hk hne
    have hhead : i'.firstCluster ≠ i.firstCluster ∨ i'.firstCluster = 0 := by
      by_contra hcon
      rw [not_or, not_not] at hcon
      exact hne (hw.names.ino_unique ⟨i', hi', rfl, rfl⟩ ⟨i, hi, hcon.1.symm, rfl⟩ hcon.2)
    have hkeep := h.keeps_chain hi hk hw (heads_of_inode hi') hhead fun d hd c hc =>
      hw.good.file_disjoint_dir hi' hk' hd c hc
    exact ⟨hget.trans hi', hkeep.1,
      readAll_congr hw.sound h.committed.sound h.geo hi' hget hkeep⟩
  slot := by
    have hkeep : ∀ a, IsFileSlot s a →
        i.firstCluster ≠ (s.entryAt a).firstCluster ∨ i.firstCluster = 0 →
        s'.clusterChain (s.entryAt a).firstCluster = s.clusterChain (s.entryAt a).firstCluster ∧
          s'.slotContents a = s.slotContents a := by
      intro a ha hne
      have hchain := h.keeps_chain hi hk hw ha.heads
        (hne.elim (fun hne => Or.inl hne.symm) fun h0 => by
          by_cases heq : (s.entryAt a).firstCluster = 0
          · exact Or.inr heq
          · exact Or.inl (h0 ▸ heq)) fun d hd => hw.slot_disjoint_dir ha hd
      exact ⟨hchain.1, hw.slotContents_congr ha h.geo (h.entryAt_of_file hw ha
        (hne.imp_right fun h0 => ⟨hempty h0, h0⟩)) hchain⟩
    by_cases hown : ∃ own, IsFileSlot s own ∧ i.firstCluster = (s.entryAt own).firstCluster
    · -- the slot with the first cluster of the file is the only one, if there is a cluster
      obtain ⟨own, hown, hfirst⟩ := hown
      refine ⟨own, fun a ha hne => hkeep a ha ?_⟩
      rw [or_iff_not_imp_left, not_not]
      intro heq
      by_contra h0
      obtain ⟨d, hslot⟩ := ha.slot
      obtain ⟨d', hslot'⟩ := hown.slot
      rw [← heq] at hslot
      rw [← hfirst] at hslot'
      rcases hne with hne | hne
      · exact hne (hw.names.slot_unique hslot hslot' h0)
      · exact hne (by rw [hi, Option.map_some, heq])
    · exact ⟨0, fun a ha _ => hkeep a ha (Or.inl fun heq => hown ⟨a, ha, heq⟩)⟩

end file

/-! ## The exact condition -/

theorem readLoop_le {s : Fat32} {chain : List Nat} {offset stop pos total k : Nat}
    {buf buf' : List UInt8} (h : s.readLoop chain offset stop pos buf total = .ok (k, buf')) :
    k ≤ total + (chain.length * s.geo.bytesPerCluster - pos) := by
  induction hn : stop - pos using Nat.strongRecOn generalizing pos buf total with
  | ind n ih =>
    rw [readLoop] at h
    split at h
    swap
    · obtain ⟨rfl, -⟩ := Prod.mk.inj (Except.ok.inj h)
      exact Nat.le_add_right _ _
    rename_i hlt
    simp only at h
    split at h
    · obtain ⟨rfl, -⟩ := Prod.mk.inj (Except.ok.inj h)
      exact Nat.le_add_right _ _
    rename_i hidx
    have hmod := Nat.mod_lt pos s.geo.bytesPerCluster_pos
    have hdiv := Nat.div_add_mod pos s.geo.bytesPerCluster
    -- this turn does not leave the cluster, which is one of the chain
    have hcluster : s.geo.bytesPerCluster * (pos / s.geo.bytesPerCluster) +
        s.geo.bytesPerCluster ≤ chain.length * s.geo.bytesPerCluster := by
      rw [← Nat.mul_succ, Nat.mul_comm]
      exact Nat.mul_le_mul_right _ (Nat.lt_of_not_le hidx)
    split at h
    · cases h
    · have := ih _ (by omega) h rfl
      omega

/-- Nothing is read behind the last cluster. -/
theorem readAll_length_le {s : Fat32} {id : Nat} {i : FatInode} {bs : List UInt8}
    (hi : s.inodes.get id = some i) (h : s.readAll id = some bs) :
    bs.length ≤ (s.clusterChain i.firstCluster).length * s.geo.bytesPerCluster := by
  have hread : ∀ {k buf}, s.read id 0 (List.replicate (s.size id) 0) = .ok (k, buf) →
      k ≤ (s.clusterChain i.firstCluster).length * s.geo.bytesPerCluster := by
    intro k buf hread
    rw [read, hi] at hread
    simp only at hread
    split_ifs at hread
    · obtain ⟨rfl, -⟩ := Prod.mk.inj (Except.ok.inj hread)
      exact Nat.zero_le _
    · obtain ⟨rfl, -⟩ := Prod.mk.inj (Except.ok.inj hread)
      exact Nat.zero_le _
    · have := readLoop_le hread
      omega
  rw [readAll] at h
  split at h
  · rename_i hok
    rw [← Option.some.inj h, List.length_take]
    exact (Nat.min_le_left _ _).trans (hread hok)
  · cases h

/-- A range of a store is a shorter range at another size if what is added is zero. -/
theorem readBytes_eq_resized {m : Store} {n size : Nat} :
    readBytes m 0 size = resized (readBytes m 0 n) size ↔
      (n < size → ∀ p, n ≤ p → p < size → m p = 0) := by
  rw [resized, readBytes_length]
  rcases Nat.lt_or_ge n size with hlt | hge
  · obtain ⟨r, rfl⟩ : ∃ r, size = n + r := ⟨size - n, by omega⟩
    rw [List.take_of_length_le (by simp), readBytes_add, List.append_cancel_left_eq,
      Nat.add_sub_cancel_left, Nat.zero_add, List.eq_replicate_iff, readBytes_length]
    constructor
    · rintro ⟨-, hzero⟩ - p hp hps
      exact hzero _ (List.mem_map.mpr ⟨p - n, by simp; omega, by rw [Nat.add_sub_cancel' hp]⟩)
    · intro hzero
      refine ⟨rfl, fun b hb => ?_⟩
      obtain ⟨j, hj, rfl⟩ := List.mem_map.mp hb
      have := List.mem_range.mp hj
      exact hzero hlt _ (by omega) (by omega)
  · have htake := readBytes_drop_take m 0 (n := n) (i := 0) (k := size) (by omega)
    rw [List.drop_zero, Nat.zero_add] at htake
    rw [htake, Nat.sub_eq_zero_of_le hge, List.replicate_zero, List.append_nil]
    simp [Nat.not_lt.mpr hge]

section law

variable {s : Fat32} (hw : WellFormed s) {id : Nat} {i : FatInode}
  (hi : s.inodes.get id = some i) (hk : i.isDir = false) {size : Nat}

include hw hi hk

theorem truncateLaw_of_resizes (h : Resizes s i size) : TruncateLaw s id size := by
  obtain ⟨hlt, hgrow⟩ := h
  obtain ⟨s', s₁, f', htrunc, h⟩ := truncated hw hi hk size
  rw [Nat.mod_eq_of_lt hlt] at h
  have hfit : size ≤ (s.clusterChain i.firstCluster).length * s.geo.bytesPerCluster := by
    rcases Nat.lt_or_ge i.size size with hgt | hle
    · exact (hgrow hgt).1
    · exact hle.trans (hw.inodeFits id i hi hk)
  intro s'' htrunc'
  obtain rfl : s' = s'' := (Prod.mk.inj (htrunc.symm.trans htrunc')).2
  refine ⟨?_, ⟨_, hw.readAll_eq hi hk, ?_⟩, ?_, ?_⟩
  · rw [Fat32.size, h.inode hi hk]
    rfl
  · rw [h.readAll_eq hi hk hw hlt hfit, Option.some.injEq]
    exact readBytes_eq_resized.mpr fun hgt => (hgrow hgt).2
  · intro j hj k c hc hle
    obtain rfl := Option.some.inj (hi.symm.trans hj)
    exact h.freed hlt hc hle
  · refine h.keepsOthers hi hk hw fun h0 => ?_
    rw [h0, clusterChain_def, chainOf_zero, List.length_nil, Nat.zero_mul] at hfit
    exact Nat.le_zero.mp hfit

theorem resizes_of_truncateLaw (hlaw : TruncateLaw s id size) : Resizes s i size := by
  obtain ⟨s', s₁, f', htrunc, h⟩ := truncated hw hi hk size
  obtain ⟨hsize, ⟨old, hold, hnew⟩, -⟩ := hlaw s' htrunc
  have hmod : size % 2 ^ 32 = size := by
    rw [Fat32.size, h.inode hi hk] at hsize
    exact hsize
  have hlt : size < 2 ^ 32 := by omega
  rw [hmod] at h
  refine ⟨hlt, fun hgrow => ?_⟩
  have hfit : size ≤ (s.clusterChain i.firstCluster).length * s.geo.bytesPerCluster := by
    have hlen := readAll_length_le (h.inode hi hk) hnew
    rw [resized_length, h.geo, h.clusterChain, h.cut.chain, List.length_take] at hlen
    exact hlen.trans (Nat.mul_le_mul_right _ (Nat.min_le_right _ _))
  refine ⟨hfit, ?_⟩
  rw [hw.readAll_eq hi hk, Option.some.injEq] at hold
  rw [h.readAll_eq hi hk hw hlt hfit, Option.some.injEq, ← hold] at hnew
  exact readBytes_eq_resized.mp hnew hgrow

/-- On a well-formed volume `truncate` obeys the law if and only if the size fits 32 bits,
and the file shrinks, or grows within its last cluster and over zeros. -/
theorem truncateLaw_iff : TruncateLaw s id size ↔ Resizes s i size :=
  ⟨resizes_of_truncateLaw hw hi hk, truncateLaw_of_resizes hw hi hk⟩

end law

theorem truncateLaw_iff_two_clusters :
    TruncateLaw twoClusterVolume 2 513 ↔ Resizes twoClusterVolume ⟨3, 1024, false⟩ 513 :=
  truncateLaw_iff twoClusterVolume_wellFormed twoClusterVolume_inode rfl

/-- A file that fills its two clusters grows by a byte: `truncate` succeeds and sets the
size, but there is no cluster for the byte. -/
theorem not_truncateLaw_two_clusters :
    WellFormed twoClusterVolume ∧
      twoClusterVolume.inodes.get 2 = some { firstCluster := 3, size := 1024, isDir := false } ∧
      ¬ TruncateLaw twoClusterVolume 2 1025 := by
  refine ⟨twoClusterVolume_wellFormed, twoClusterVolume_inode, fun hlaw => ?_⟩
  have hres := resizes_of_truncateLaw twoClusterVolume_wellFormed twoClusterVolume_inode rfl hlaw
  have hfit := (hres.2 (show 1024 < 1025 by decide)).1
  rw [show twoClusterVolume.clusterChain 3 = [3, 4] from twoClusterFat_chain] at hfit
  exact absurd hfit (by decide)

end AeroOS.Fat32
