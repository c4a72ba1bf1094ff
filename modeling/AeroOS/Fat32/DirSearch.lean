import AeroOS.Lib.Search
import AeroOS.Fat32.Dir
import AeroOS.Fat32.PartitionBounds

/-!
# FAT32: the depth of the directory search

`update_size_recursive` follows the links on the disk from directory to
directory and keeps no record of where it has been.

* `expand` is what one call does: it ends, or goes on to the subdirectories.
* `updateSizeRecursive_outcome`: the recursion is a search with that expansion.
* `finishes_iff`: it finishes within as many nested calls as there are clusters,
  if and only if it enters no directory again below itself.  Otherwise no stack
  is deep enough.
-/

namespace AeroOS.Fat32

open Bytes Search

/-- The clusters that the table has entries for. -/
def Geometry.clusterCount (g : Geometry) : Nat := g.fatLen - 2

section search

variable (s : Fat32)

/-- The cluster can be read, and no entry in it names the target. -/
def clusterPasses (target c : Nat) : Bool :=
  (s.readCluster c).any fun buf =>
    (List.range s.slotCount).all fun i => !(sizeSlot buf i && slotCluster buf i == target)

/-- The subdirectories in a cluster. -/
def clusterSubdirs (c : Nat) : List Nat :=
  (s.readCluster c).elim [] fun buf => (List.range s.slotCount).filterMap (slotSubdir buf)

/-- The subdirectories of a directory. -/
def subdirs (d : Nat) : List Nat := (s.clusterChain d).flatMap s.clusterSubdirs

/-- The directories that the call for a directory goes on to.  It ends where the
directory names the target or cannot be read. -/
def expand (target d : Nat) : Option (List Nat) :=
  if (s.clusterChain d).all (s.clusterPasses target) then some (s.subdirs d) else none

/-- The call from the root with this depth ends before the stack does. -/
def Finishes (target newSize depth : Nat) : Prop :=
  (updateSizeRecursive depth s s.geo.rootCluster target newSize).1 ≠ .error "stack overflow"

end search

variable {s s' : Fat32} {target newSize depth d : Nat} {cs subs : List Nat}

/-! ## One directory -/

theorem updateSizeClusters_pass (h : cs.all (s.clusterPasses target) = true) :
    s.updateSizeClusters target newSize cs subs =
      (.ok (some (subs ++ cs.flatMap s.clusterSubdirs)), s) := by
  induction cs generalizing subs with
  | nil => rw [updateSizeClusters, List.flatMap_nil, List.append_nil]
  | cons c cs ih =>
    rw [List.all_cons, Bool.and_eq_true] at h
    obtain ⟨hc, hcs⟩ := h
    rw [clusterPasses, Option.any_eq_true] at hc
    obtain ⟨buf, hread, hbuf⟩ := hc
    have hnone : (List.range s.slotCount).find?
        (fun i => sizeSlot buf i && slotCluster buf i == target) = none := by
      rw [List.find?_eq_none]
      intro i hi hhit
      have := List.all_eq_true.mp hbuf i hi
      rw [hhit] at this
      cases this
    rw [updateSizeClusters, hread]
    simp only [hnone]
    rw [ih hcs, List.flatMap_cons, clusterSubdirs, hread, Option.elim_some, List.append_assoc]

/-- Where a directory does not pass, the call for it is the last. -/
theorem updateSizeClusters_stop (h : cs.all (s.clusterPasses target) = false) :
    (s.updateSizeClusters target newSize cs subs).1 = .ok none ∨
      ∃ e, (s.updateSizeClusters target newSize cs subs).1 = .error e ∧ e ≠ "stack overflow" := by
  induction cs generalizing subs with
  | nil => cases h
  | cons c cs ih =>
    rw [updateSizeClusters]
    cases hread : s.readCluster c with
    | none => exact Or.inr ⟨_, rfl, by decide⟩
    | some buf =>
      simp only
      cases hfind : (List.range s.slotCount).find?
          (fun i => sizeSlot buf i && slotCluster buf i == target) with
      | some i =>
        simp only
        cases s.writeCluster c (patch buf (i * 32 + 28) (leBytes 4 newSize)) with
        | mk ok t =>
          cases ok with
          | false => exact Or.inr ⟨_, rfl, by decide⟩
          | true => exact Or.inl rfl
      | none =>
        have hc : s.clusterPasses target c = true := by
          rw [clusterPasses, hread, Option.any_some, List.all_eq_true]
          intro i hi
          have := List.find?_eq_none.mp hfind i hi
          rw [Bool.not_eq_true] at this
          rw [this]
          rfl
        rw [List.all_cons, hc, Bool.true_and] at h
        exact ih h

/-! ## The recursion -/

/-- How a call ended. -/
def outcome : Except String Bool → Outcome
  | .ok true => .stop
  | .ok false => .pass
  | .error e => if e = "stack overflow" then .deep else .stop

theorem outcome_eq_deep {r : Except String Bool} :
    outcome r = .deep ↔ r = .error "stack overflow" := by
  cases r with
  | ok b => cases b <;> simp [outcome]
  | error e => by_cases he : e = "stack overflow" <;> simp [outcome, he]

/-- The recursion is a search, which changes nothing before it ends. -/
theorem updateSizeRecursive_outcome (s : Fat32) (target newSize depth d : Nat) :
    outcome (updateSizeRecursive depth s d target newSize).1 =
        search (s.expand target) depth d ∧
      (search (s.expand target) depth d ≠ .stop →
        (updateSizeRecursive depth s d target newSize).2 = s) := by
  induction depth generalizing d with
  | zero => exact ⟨rfl, fun _ => rfl⟩
  | succ depth ih =>
    rw [updateSizeRecursive, search, expand]
    cases hpass : (s.clusterChain d).all (s.clusterPasses target) with
    | false =>
      refine ⟨?_, fun h => absurd rfl h⟩
      rcases hr : s.updateSizeClusters target newSize (s.clusterChain d) [] with ⟨r, t⟩
      have hstop := @updateSizeClusters_stop s target newSize _ [] hpass
      rw [hr] at hstop
      rcases hstop with rfl | ⟨e, rfl, he⟩
      · rfl
      · simp [outcome, he]
    | true =>
      rw [updateSizeClusters_pass hpass, if_pos rfl, List.nil_append, ← subdirs]
      simp only
      induction s.subdirs d with
      | nil => exact ⟨rfl, fun _ => rfl⟩
      | cons e l ihl =>
        obtain ⟨he, hsame⟩ := ih e
        rw [firstTrue, inOrder]
        rcases hr : updateSizeRecursive depth s e target newSize with ⟨r, t⟩
        rw [hr] at he hsame
        rw [← he] at hsame ⊢
        cases r with
        | error msg =>
          simp only [outcome] at hsame ⊢
          split_ifs with hmsg
          · rw [if_pos hmsg] at hsame
            exact ⟨rfl, fun _ => hsame (by decide)⟩
          · exact ⟨rfl, fun h => absurd rfl h⟩
        | ok found =>
          cases found with
          | true => exact ⟨rfl, fun h => absurd rfl h⟩
          | false =>
            have ht : t = s := hsame (by simp [outcome])
            subst ht
            exact ihl

/-- Only a directory with a cluster has subdirectories. -/
theorem mem_clusters_of_calls {x e : Nat} (h : Calls (s.expand target) x e) :
    x ∈ List.range' 2 s.geo.clusterCount := by
  obtain ⟨l₁, l₂, hexp, -⟩ := h
  unfold expand at hexp
  split_ifs at hexp
  have hsub : s.subdirs x = l₁ ++ e :: l₂ := Option.some.inj hexp
  have hv : s.geo.validCluster x = true := by
    by_contra hno
    rw [subdirs, clusterChain_def, chainOf_eq_nil (by simpa using hno), List.flatMap_nil] at hsub
    simp at hsub
  rw [List.mem_range'_1, Geometry.clusterCount]
  have := Geometry.validCluster_iff.mp hv
  omega

/-- The search finishes within as many nested calls below the first as there are
clusters, if and only if it does not enter a directory again below itself; and
if it does, it never finishes. -/
theorem finishes_iff (s : Fat32) (target newSize : Nat) :
    (s.Finishes target newSize (s.geo.clusterCount + 1) ↔
        ¬ ComesBack (s.expand target) s.geo.rootCluster) ∧
      (ComesBack (s.expand target) s.geo.rootCluster →
        ∀ depth, ¬ s.Finishes target newSize depth) := by
  have hdeep : ∀ depth, s.Finishes target newSize depth ↔
      search (s.expand target) depth s.geo.rootCluster ≠ .deep := fun depth => by
    rw [Finishes, ← (updateSizeRecursive_outcome s target newSize depth _).1, ne_eq, ne_eq,
      outcome_eq_deep]
  refine ⟨?_, fun hback depth => ?_⟩
  · have hends : search (s.expand target) ((List.range' 2 s.geo.clusterCount).length + 1)
        s.geo.rootCluster ≠ .deep ↔ ¬ ComesBack (s.expand target) s.geo.rootCluster :=
      search_ends_iff fun x e h => mem_clusters_of_calls h
    rw [List.length_range'] at hends
    rw [hdeep, hends]
  · rw [hdeep]
    exact fun h => h (hback.deep depth)

/-- Where the search after the flush does not finish, `commit` does not. -/
theorem commit_deep (hs : Sound s) {id : Nat} {i : FatInode} (hi : s.inodes.get id = some i)
    (hk : i.isDir = false)
    (hdeep : ¬ (s.setBytes s.flushedBytes).Finishes i.firstCluster i.size s.maxDepth) :
    (s.commit id).1 = .error "stack overflow" := by
  have hend := not_not.mp hdeep
  rw [commit, flushFat_eq hs]
  simp only
  rw [updateDirEntrySize, setBytes_inodes, hi]
  simp only [hk, Bool.false_eq_true, if_false]
  rcases hr : updateSizeRecursive (s.setBytes s.flushedBytes).maxDepth
    (s.setBytes s.flushedBytes) (s.setBytes s.flushedBytes).geo.rootCluster i.firstCluster
    i.size with ⟨r, t⟩
  have hfst : r = .error "stack overflow" := (congrArg Prod.fst hr).symm.trans hend
  rw [hfst]

/-! ## A directory below itself -/

/-- What the search sees of a cluster is what the cluster holds. -/
theorem cluster_congr {c : Nat} (hread : s'.readCluster c = s.readCluster c)
    (hgeo : s'.geo = s.geo) :
    s'.clusterPasses target c = s.clusterPasses target c ∧
      s'.clusterSubdirs c = s.clusterSubdirs c := by
  have hcount : s'.slotCount = s.slotCount := congrArg (fun g => g.bytesPerCluster / 32) hgeo
  rw [clusterPasses, clusterPasses, clusterSubdirs, clusterSubdirs, hread, hcount]
  exact ⟨rfl, rfl⟩

/-- A directory that is its first own subdirectory. -/
theorem comesBack_of_self (rest : List Nat)
    (hpass : (s.clusterChain d).all (s.clusterPasses target) = true)
    (hsub : s.subdirs d = d :: rest) : ComesBack (s.expand target) d := by
  have hexp : s.expand target d = some ([] ++ d :: rest) := by
    rw [expand, if_pos hpass, hsub]
    rfl
  exact ⟨d, .refl, .single ⟨[], rest, hexp, fun _ hx => nomatch hx⟩⟩

/-- The table of a volume with a root directory and a file of one cluster. -/
def loopTable : List UInt8 :=
  leBytes 4 0 ++ leBytes 4 0 ++ leBytes 4 fatEoc ++ leBytes 4 fatEoc ++ Build.zeros 496

/-- A root directory with a subdirectory `D`, which is the root directory again,
and a file `A`. -/
def loopEntries : List RawDirEntry :=
  [RawDirEntry.new (0x44 :: List.replicate 10 0x20) rfl attrDir 2, entryA 3 512]

/-- A disk with this volume. -/
def loopDisk : Ata.Disk where
  present := true
  bytes a :=
    (roomyRecord ++ roomyBpb ++ (loopTable ++ loopEntries.flatMap RawDirEntry.pack)).getD a 0

/-- The volume, mounted. -/
def loopVolume : Fat32 where
  geo := roomyGeometry
  fatCache := fatOfBytes (readBytes loopDisk.bytes (512 * 2) (1 * 512))
  inodes := InodeTable.empty.insert { firstCluster := 2, size := 0, isDir := true }
  disk := loopDisk

theorem init_loopDisk : init loopDisk = some (roomyPartition, loopVolume) := by
  have htable : Ata.readSectors loopDisk roomyGeometry.fatStart roomyGeometry.fatBytes =
      some (readBytes loopDisk.bytes (512 * 2) (1 * 512)) :=
    Ata.readSectors_eq (k := 1) rfl (by decide) (by decide)
  have hstored : Build.Stored loopDisk.bytes 0 (roomyRecord ++ roomyBpb) := fun k hk => by
    rw [loopDisk, Nat.zero_add]
    exact List.getD_append _ _ _ _ hk
  rw [init_roomy rfl hstored, mount, htable]
  rfl

theorem loopVolume_sound : Sound loopVolume := ⟨rfl, by decide, by decide⟩

theorem loopVolume_fat : loopVolume.fatCache 2 = fatEoc ∧ loopVolume.fatCache 3 = fatEoc := by
  decide +kernel

theorem loopVolume_root : loopVolume.clusterPasses 0 2 = true ∧
    loopVolume.clusterSubdirs 2 = [2] ∧
      ((findEntry (loopVolume.readDirClusters [2]) nameA).map fun e =>
        (e.firstCluster, e.fileSize, e.isDir)) = some (3, 512, false) := by
  decide +kernel

/-- The volume once the file `A` has been looked up. -/
def loopLookedUp : Fat32 := (loopVolume.internInode 3 512 false).2

/-- The volume once the file has been cut to nothing. -/
def loopEmptied : Fat32 :=
  (((loopLookedUp.freeClusters [3]).setFat 3 fatFree).setFirstCluster 2 0).setSize 2 0

theorem loopEmptied_geo : loopEmptied.geo = roomyGeometry := rfl

theorem loopEmptied_sound : Sound loopEmptied :=
  ⟨rfl, by rw [loopEmptied_geo]; decide, by rw [loopEmptied_geo]; decide⟩

/-- The same volume with its table flushed, as the search of its directories
finds it. -/
def loopCut : Fat32 := loopEmptied.setBytes loopEmptied.flushedBytes

theorem loopCut_geo : loopCut.geo = roomyGeometry := rfl

theorem loopCut_sound : Sound loopCut := loopEmptied_sound.setBytes _

theorem loopCut_comesBack : ComesBack (loopCut.expand 0) 2 := by
  have hchain : loopCut.clusterChain 2 = [2] :=
    chainOf_singleton (by rw [loopCut_geo]; decide) loopVolume_fat.1
  have hvalid : roomyGeometry.validCluster 2 = true := by decide
  have hread : loopCut.readCluster 2 = loopVolume.readCluster 2 := by
    rw [readCluster_eq loopCut_sound hvalid, readCluster_eq loopVolume_sound hvalid]
    refine congrArg some (readBytes_congr fun x hx _ => ?_)
    exact flushedBytes_out _ ((Geometry.dataAddr_le_clusterAddr 2).trans hx)
  obtain ⟨hpass, hsub, -⟩ := loopVolume_root
  obtain ⟨hpass', hsub'⟩ := @cluster_congr _ _ 0 _ hread rfl
  refine comesBack_of_self [] ?_ ?_
  · rw [hchain, List.all_cons, List.all_nil, Bool.and_true, hpass']
    exact hpass
  · rw [subdirs, hchain, List.flatMap_cons, List.flatMap_nil, List.append_nil, hsub']
    exact hsub

/-- On the disk with the loop, cutting the file `A` to nothing never returns. -/
theorem not_finishes_loop :
    init loopDisk = some (roomyPartition, loopVolume) ∧
      loopVolume.lookup id 1 [0x41] = (.ok 2, loopLookedUp) ∧
      (loopLookedUp.truncate 2 0).1 = .error "stack overflow" ∧
      ∀ depth, ¬ loopCut.Finishes 0 0 depth := by
  have hnever := (finishes_iff loopCut 0 0).2 loopCut_comesBack
  refine ⟨init_loopDisk, ?_, ?_, hnever⟩
  · have hino : loopVolume.inodes.get 1 =
        some { firstCluster := 2, size := 0, isDir := true } := rfl
    have hname : toShortName id [0x41] = nameA := by decide
    have hchain : loopVolume.clusterChain 2 = [2] := chainOf_singleton (by decide) loopVolume_fat.1
    obtain ⟨-, -, hfind⟩ := loopVolume_root
    obtain ⟨e, he, hkey⟩ := Option.map_eq_some_iff.mp hfind
    obtain ⟨h1, h2⟩ := Prod.mk.inj hkey
    obtain ⟨h2, h3⟩ := Prod.mk.inj h2
    rw [lookup, hino]
    simp only [Bool.true_eq_false, if_false]
    rw [hname, readDirRaw, hchain, he]
    simp only [h1, h2, h3]
    rfl
  · have hi : loopLookedUp.inodes.get 2 =
        some { firstCluster := 3, size := 512, isDir := false } := by decide
    have hchain : loopLookedUp.clusterChain 3 = [3] :=
      chainOf_singleton (by decide) loopVolume_fat.2
    have hino : loopEmptied.inodes.get 2 = some { firstCluster := 0, size := 0, isDir := false } := by
      decide
    rw [truncate_eq hi rfl, hchain]
    exact commit_deep loopEmptied_sound hino rfl (hnever loopEmptied.maxDepth)

end AeroOS.Fat32
