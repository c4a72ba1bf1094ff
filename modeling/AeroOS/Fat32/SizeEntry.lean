import AeroOS.Fat32.DirSearch
import AeroOS.Fat32.Removal
import AeroOS.Fat32.Scans

/-!
# FAT32: the entry whose size is updated

An inode does not say which entry it was read from.  `update_dir_entry_size` goes
through the tree from the root and takes the first entry with the inode's first cluster.

* `walk` are the slots in the order of that search, `mem_walk` says which they are.
* `walk_finishes`: on a volume whose names are in order the search ends.
* `updateDirEntrySize_first`: it changes the size in the first slot of the walk with
  the cluster, and nothing else.
* `updatesOnly_iff`: when that is the slot of the file.
-/

namespace AeroOS.Fat32

open Bytes Search

/-! ## The walk -/

section walk

variable (s : Fat32)

/-- The subdirectories that the search goes on to, in the order of their slots. -/
def subdirsBelow (d : Nat) : List Nat := (s.slotAddrs d).filterMap fun a => (s.entryAt a).subdir?

/-- The slots that a search of this depth looks at, from directory `d` on. -/
def walkBelow : Nat → Nat → List Nat
  | 0, _ => []
  | depth + 1, d => s.sizeSlots d ++ (s.subdirsBelow d).flatMap (walkBelow depth)

/-- The slots in the order in which `update_dir_entry_size` looks at them. -/
def walk : List Nat := s.walkBelow s.maxDepth s.geo.rootCluster

/-- The first slot of the walk with first cluster `f`. -/
def firstSized (f : Nat) : Option Nat := s.walk.find? fun a => (s.entryAt a).firstCluster == f

/-- The search goes on from a directory of the volume to one below it. -/
def Down (d e : Nat) : Prop := IsDir s d ∧ e ∈ s.subdirsBelow d

end walk

variable {s : Fat32} {target depth d e a b : Nat}

theorem find?_sizeSlots (target d : Nat) :
    ((s.slotAddrs d).find? fun a => sizeHit target (s.entryAt a)) =
      (s.sizeSlots d).find? fun a => (s.entryAt a).firstCluster == target := by
  rw [sizeSlots, List.find?_filter]
  refine (List.find?_congr fun a _ => ?_).symm
  rw [sizeHit, Bool.decide_and, Bool.decide_eq_true, Bool.decide_eq_true]

theorem firstFound_ok {f : Nat → Except String (Option Nat)} {g : Nat → Option Nat}
    (hf : ∀ d r, f d = .ok r → r = g d) {l : List Nat} {r : Option Nat}
    (h : firstFound f l = .ok r) : r = l.findSome? g := by
  induction l with
  | nil => exact (Except.ok.inj h).symm
  | cons d l ih =>
    rw [firstFound] at h
    rw [List.findSome?_cons]
    cases hd : f d with
    | error e =>
      rw [hd] at h
      cases h
    | ok x =>
      rw [hd] at h
      rw [← hf d x hd]
      cases x with
      | none => exact ih h
      | some a => exact (Except.ok.inj h).symm

/-- A search that ends has found the first slot of its walk. -/
theorem findSized_ok {r : Option Nat} (h : Fat32.findSized s target depth d = .ok r) :
    r = (s.walkBelow depth d).find? fun a => (s.entryAt a).firstCluster == target := by
  induction depth generalizing d r with
  | zero => cases h
  | succ depth ih =>
    rw [Fat32.findSized, find?_sizeSlots] at h
    rw [walkBelow, List.find?_append]
    cases hfind : (s.sizeSlots d).find? fun a => (s.entryAt a).firstCluster == target with
    | some a =>
      rw [hfind] at h
      exact (Except.ok.inj h).symm
    | none =>
      rw [hfind] at h
      rw [Option.none_or, List.find?_flatMap]
      exact firstFound_ok (fun _ _ hx => ih hx) h

theorem findSized_error {msg : String} (h : Fat32.findSized s target depth d = .error msg) :
    msg = "stack overflow" := by
  induction depth generalizing d with
  | zero => exact (Except.error.inj h).symm
  | succ depth ih =>
    rw [Fat32.findSized] at h
    split at h
    · cases h
    · generalize (s.slotAddrs d).filterMap (fun a => (s.entryAt a).subdir?) = l at h
      induction l with
      | nil => cases h
      | cons x l ihl =>
        rw [firstFound] at h
        split at h
        · rename_i hx
          cases h
          exact ih hx
        · cases h
        · exact ihl h

/-! ## The tree -/

theorem Down.slot (h : s.Down d e) : ∃ a, (namesOf s).slot d a e true ∧ e ≠ 0 := by
  obtain ⟨hd, he⟩ := h
  obtain ⟨a, ha, hsub⟩ := List.mem_filterMap.mp he
  obtain ⟨hentry, hk, rfl⟩ := RawDirEntry.subdir?_eq_some hsub
  refine ⟨a, ⟨hd, ha, hentry, rfl, hk⟩, fun h0 => ?_⟩
  rw [RawDirEntry.subdir?, h0] at hsub
  simp at hsub

theorem Down.isDir (h : s.Down d e) : IsDir s e := isDir_of_mem_subdirs h.1 h.2

section good

variable (hg : Good s)

include hg

/-- The directories that the search goes to are a tree. -/
theorem down_rooted : Tree.Rooted s.Down s.geo.rootCluster where
  unique := by
    intro d d' e h h'
    obtain ⟨a, hslot, h0⟩ := h.slot
    obtain ⟨a', hslot', -⟩ := h'.slot
    obtain rfl := hg.names.slot_unique hslot hslot' h0
    exact hg.slot_dir (Or.inl h.1) (Or.inl h'.1) hslot.2.1 hslot'.2.1
  top d h := by
    obtain ⟨a, hslot, h0⟩ := h.slot
    exact hg.names.slot_root hslot h0 rfl

/-- The calls of the search go down. -/
theorem down_of_calls (hd : IsDir s d) (h : Calls (s.expand target) d e) : s.Down d e := by
  obtain ⟨l₁, l₂, hexp, -⟩ := h
  unfold expand at hexp
  split_ifs at hexp with hpass
  have hsub := @updateSizeClusters_pass s target 0 _ [] hpass
  rw [updateSizeClusters_eq hg.sound target 0 (s.valid_clusterChain d)] at hsub
  cases hfind : (s.geo.slotsOf (s.clusterChain d)).find? fun a => sizeHit target (s.entryAt a) with
  | some a =>
    rw [hfind] at hsub
    cases hsub
  | none =>
    rw [hfind] at hsub
    have hlist : s.subdirsBelow d = s.subdirs d :=
      Option.some.inj (Except.ok.inj (Prod.mk.inj hsub).1)
    rw [Down, hlist, Option.some.inj hexp]
    exact ⟨hd, List.mem_append_right _ List.mem_cons_self⟩

/-- The search does not come back to a directory. -/
theorem not_comesBack (target : Nat) : ¬ ComesBack (s.expand target) s.geo.rootCluster := by
  rintro ⟨x, hreach, hback⟩
  have hx : IsDir s x ∧ Tree.Reach s.Down s.geo.rootCluster x := by
    clear hback
    induction hreach with
    | refl => exact ⟨IsDir.root, Relation.ReflTransGen.refl⟩
    | tail _ hcall ih =>
      have hdown := down_of_calls hg ih.1 hcall
      exact ⟨hdown.isDir, Relation.ReflTransGen.tail ih.2 hdown⟩
  have hloop : ∀ {y}, Relation.TransGen (Calls (s.expand target)) x y →
      IsDir s y ∧ Relation.TransGen s.Down x y := by
    intro y hy
    induction hy with
    | single hcall =>
      have hdown := down_of_calls hg hx.1 hcall
      exact ⟨hdown.isDir, Relation.TransGen.single hdown⟩
    | tail _ hcall ih =>
      have hdown := down_of_calls hg ih.1 hcall
      exact ⟨hdown.isDir, Relation.TransGen.tail ih.2 hdown⟩
  exact (down_rooted hg).acyclic hx.2 (hloop hback).2

theorem walk_finishes (target : Nat) :
    Fat32.findSized s target s.maxDepth s.geo.rootCluster = .ok (s.firstSized target) := by
  have hends : search (s.expand target) s.maxDepth s.geo.rootCluster ≠ .deep := by
    have hiff := @search_ends_iff _ (s.expand target) s.geo.rootCluster (List.range s.geo.fatLen)
      fun x e h => by
        have := List.mem_range'_1.mp (mem_clusters_of_calls h)
        rw [Geometry.clusterCount] at this
        exact List.mem_range.mpr (by omega)
    rw [List.length_range] at hiff
    exact hiff.mpr (not_comesBack hg target)
  have houtcome := (updateSizeRecursive_outcome s target 0 s.maxDepth s.geo.rootCluster).1
  rw [updateSizeRecursive_eq hg.sound] at houtcome
  cases hfind : Fat32.findSized s target s.maxDepth s.geo.rootCluster with
  | ok r => rw [findSized_ok hfind, firstSized, walk]
  | error msg =>
    rw [hfind, findSized_error hfind] at houtcome
    exact absurd (houtcome.symm.trans (outcome_eq_deep.mpr rfl)) hends

/-- The slots of the walk are those in use, without a leading dot, of the directories
that the search comes to. -/
theorem mem_walk : a ∈ s.walk ↔
    ∃ d, Tree.Reach s.Down s.geo.rootCluster d ∧ a ∈ s.sizeSlots d := by
  have hbelow : ∀ {n d}, IsDir s d → a ∈ s.walkBelow n d →
      ∃ e, Tree.Reach s.Down d e ∧ a ∈ s.sizeSlots e := by
    intro n
    induction n with
    | zero => exact fun _ h => absurd h List.not_mem_nil
    | succ n ih =>
      intro d hd h
      rw [walkBelow, List.mem_append, List.mem_flatMap] at h
      rcases h with h | ⟨e, he, h⟩
      · exact ⟨d, Relation.ReflTransGen.refl, h⟩
      · have hdown : s.Down d e := ⟨hd, he⟩
        obtain ⟨x, hx, hmem⟩ := ih hdown.isDir h
        exact ⟨x, Relation.ReflTransGen.head hdown hx, hmem⟩
  have hpath : ∀ {l : List Nat} {n d x}, (d :: l).IsChain s.Down →
      (d :: l).getLast (List.cons_ne_nil d l) = x → l.length < n → a ∈ s.sizeSlots x →
        a ∈ s.walkBelow n d := by
    intro l
    induction l with
    | nil =>
      rintro (_ | n) d x - hlast hlt hmem
      · cases hlt
      · obtain rfl : d = x := hlast
        exact List.mem_append_left _ hmem
    | cons e l ih =>
      rintro (_ | n) d x hchain hlast hlt hmem
      · cases hlt
      · obtain ⟨hdown, hrest⟩ := List.isChain_cons_cons.mp hchain
        rw [List.getLast_cons (List.cons_ne_nil e l)] at hlast
        exact List.mem_append_right _ (List.mem_flatMap.mpr
          ⟨e, hdown.2, ih hrest hlast (Nat.lt_of_succ_lt_succ hlt) hmem⟩)
  constructor
  · exact fun h => hbelow IsDir.root h
  · rintro ⟨d, hreach, hmem⟩
    obtain ⟨l, hchain, hlast, hlen⟩ := (down_rooted hg).exists_path hreach
      (show ∀ x y, s.Down x y → x ∈ List.range s.geo.fatLen from fun x y h => by
        obtain ⟨b, hslot, -⟩ := h.slot
        obtain ⟨c, hc, -⟩ := Geometry.mem_slotsOf.mp hslot.2.1
        have hv : s.geo.validCluster x = true := by
          by_contra hno
          rw [clusterChain_def, chainOf_eq_nil (by simpa using hno)] at hc
          exact List.not_mem_nil hc
        exact List.mem_range.mpr (Geometry.validCluster_iff.mp hv).2)
    rw [List.length_range] at hlen
    exact hpath hchain hlast (Nat.lt_succ_of_le hlen) hmem

theorem walk_slot (h : a ∈ s.walk) :
    ∃ d, (namesOf s).slot d a (s.entryAt a).firstCluster (s.entryAt a).isDir := by
  obtain ⟨d, hreach, hmem⟩ := (mem_walk hg).mp h
  have hd : IsDir s d := by
    rcases Relation.ReflTransGen.cases_tail hreach with heq | ⟨x, -, hdown⟩
    · exact heq ▸ IsDir.root
    · exact hdown.isDir
  obtain ⟨ha, hsized⟩ := List.mem_filter.mp hmem
  exact ⟨d, hd, ha, RawDirEntry.isEntry_of_isSized hsized, rfl, rfl⟩

/-! ## The update -/

/-- `update_dir_entry_size` writes the size to the first slot of the walk with the cluster. -/
theorem updateDirEntrySize_first {id : Nat} {i : FatInode} (hi : s.inodes.get id = some i)
    (hk : i.isDir = false) : s.updateDirEntrySize id =
      (.ok (), (s.firstSized i.firstCluster).elim s fun b => s.setEntrySize b i.size) := by
  rw [updateDirEntrySize_eq hg.sound hi hk, walk_finishes hg]
  cases s.firstSized i.firstCluster with
  | none => rfl
  | some b => rfl

end good

/-- Slot `b` is the first in the walk with first cluster `f`. -/
def FirstOfWalk (s : Fat32) (f b : Nat) : Prop :=
  (s.entryAt b).firstCluster = f ∧
    ∃ pre post, s.walk = pre ++ b :: post ∧ ∀ c ∈ pre, (s.entryAt c).firstCluster ≠ f

/-- The slot has the size of the inode. -/
def HasSize (s : Fat32) (i : FatInode) (a : Nat) : Prop := (s.entryAt a).fileSize = i.size % 2 ^ 32

/-- `update_dir_entry_size` changes the size in slot `a`, and nothing else. -/
def UpdatesOnly (s : Fat32) (id a : Nat) : Prop :=
  ∃ i, s.inodes.get id = some i ∧ s.updateDirEntrySize id = (.ok (), s.setEntrySize a i.size)

/-- Slot `a` is the first in the walk with the inode's cluster.  Or it has the size
already, and so has the one that is. -/
def ReachesEntry (s : Fat32) (i : FatInode) (a : Nat) : Prop :=
  FirstOfWalk s i.firstCluster a ∨
    HasSize s i a ∧ ∀ b, FirstOfWalk s i.firstCluster b → HasSize s i b

theorem firstSized_eq_some {f : Nat} : s.firstSized f = some b ↔ FirstOfWalk s f b := by
  rw [firstSized, List.find?_eq_some_iff_append, FirstOfWalk, beq_iff_eq]
  simp

/-- The size is written where it is already. -/
theorem setEntrySize_eq_self {n : Nat} :
    s.setEntrySize a n = s ↔ (s.entryAt a).fileSize = n % 2 ^ 32 := by
  constructor
  · intro h
    have hentry := s.setEntrySize_entryAt a n
    rw [h] at hentry
    rw [hentry]
  · intro h
    have hbytes : readBytes s.disk.bytes (a + 28) 4 = leBytes 4 n := by
      refine leNat_inj (by rw [readBytes_length, leBytes_length]) ?_
      rw [leNat_leBytes]
      exact h
    rw [setEntrySize, ← hbytes, writeBytes_readBytes]
    rfl

/-- Two slots get the same size in two states only where both have it. -/
theorem setEntrySize_inj {cs ds : List Nat} {n : Nat} (ha : a ∈ s.geo.slotsOf cs)
    (hb : b ∈ s.geo.slotsOf ds) (hne : a ≠ b) :
    s.setEntrySize b n = s.setEntrySize a n ↔ s.setEntrySize a n = s ∧ s.setEntrySize b n = s := by
  constructor
  · intro h
    have hentry : ∀ {x y : Nat} {xs ys : List Nat}, x ∈ s.geo.slotsOf xs → y ∈ s.geo.slotsOf ys →
        x ≠ y → s.setEntrySize y n = s.setEntrySize x n → s.setEntrySize x n = s := by
      intro x y xs ys hx hy hxy heq
      have hkeep := setEntrySize_entryAt_of_ne (n := n) hy hx hxy
      rw [heq, setEntrySize_entryAt] at hkeep
      rw [setEntrySize_eq_self, ← hkeep]
    exact ⟨hentry ha hb hne h, hentry hb ha hne.symm h.symm⟩
  · rintro ⟨ha', hb'⟩
    rw [ha', hb']

/-- On a volume whose names and chains are in order, the update changes the size in a
slot and nothing else if and only if its search reaches that slot, or has nothing to
change. -/
theorem updatesOnly_iff (hg : Good s) {id : Nat} {i : FatInode} (hi : s.inodes.get id = some i)
    (hk : i.isDir = false) (ha : a ∈ s.slotAddrs d) : UpdatesOnly s id a ↔ ReachesEntry s i a := by
  have hlaw : UpdatesOnly s id a ↔
      ((s.firstSized i.firstCluster).elim s fun b => s.setEntrySize b i.size) =
        s.setEntrySize a i.size := by
    constructor
    · rintro ⟨i', hi', heq⟩
      obtain rfl := Option.some.inj (hi.symm.trans hi')
      rw [updateDirEntrySize_first hg hi hk] at heq
      exact (Prod.mk.inj heq).2
    · intro heq
      exact ⟨i, hi, by rw [updateDirEntrySize_first hg hi hk, heq]⟩
  rw [hlaw, ReachesEntry]
  simp only [← firstSized_eq_some, HasSize, ← setEntrySize_eq_self]
  cases hfirst : s.firstSized i.firstCluster with
  | none =>
    rw [Option.elim_none, eq_comm]
    simp
  | some b =>
    rw [Option.elim_some]
    by_cases hab : a = b
    · subst hab
      simp
    · obtain ⟨-, pre, post, hwalk, -⟩ := firstSized_eq_some.mp hfirst
      obtain ⟨d', -, hb⟩ := (mem_walk hg).mp
        (show b ∈ s.walk by rw [hwalk]; exact List.mem_append_right _ List.mem_cons_self)
      rw [setEntrySize_inj ha (mem_sizeSlots.mp hb).1 hab]
      simp [Ne.symm hab]

/-- For a file with a cluster the slot has to be in the walk, and to name it. -/
theorem firstOfWalk_iff (hg : Good s) {f : Nat} (h0 : f ≠ 0) :
    FirstOfWalk s f a ↔ a ∈ s.walk ∧ (s.entryAt a).firstCluster = f := by
  constructor
  · rintro ⟨hf, pre, post, hwalk, -⟩
    exact ⟨by rw [hwalk]; exact List.mem_append_right _ List.mem_cons_self, hf⟩
  · rintro ⟨hmem, hf⟩
    cases hfirst : s.firstSized f with
    | none =>
      have hno := List.find?_eq_none.mp hfirst a hmem
      rw [hf] at hno
      simp at hno
    | some b =>
      have hb := firstSized_eq_some.mp hfirst
      obtain ⟨pre, post, hwalk, -⟩ := hb.2
      obtain ⟨d, hslot⟩ := walk_slot hg hmem
      obtain ⟨d', hslot'⟩ := walk_slot hg
        (show b ∈ s.walk by rw [hwalk]; exact List.mem_append_right _ List.mem_cons_self)
      rw [hf] at hslot
      rw [hb.1] at hslot'
      rwa [hg.names.slot_unique hslot hslot' h0]

/-! ## A name with a leading dot -/

/-- The entry of file `.A` of 1024 bytes in clusters 3 and 4. -/
def dottedEntry : RawDirEntry :=
  { RawDirEntry.new (0x2E :: 0x41 :: List.replicate 9 0x20) rfl attrArchive 3 with
    fileSize := 1024 }

theorem flat_dotted : Flat smallGeometry twoClusterFat [dottedEntry] :=
  flat_file (by simp [dottedEntry, RawDirEntry.stored, RawDirEntry.new]) (by decide) rfl
    (Nat.le_refl _)

/-- The volume with `.A` as its only file, cut to 513 bytes in the inode. -/
def dottedVolume : Fat32 :=
  ((flatVolume smallGeometry twoClusterFat [dottedEntry]).internInode 3 513 false).2

theorem dottedVolume_slot :
    (namesOf (flatVolume smallGeometry twoClusterFat [dottedEntry])).slot 2
      (rootSlot smallGeometry 0) 3 false := by
  have hentry := flat_dotted.entryAt_slot (i := 0) (by decide)
  have hmem := flat_dotted.mem_slotAddrs.mpr ⟨0, by decide, rfl⟩
  refine ⟨IsDir.root, hmem, ?_, ?_, ?_⟩
  · rw [hentry]
    decide
  · rw [hentry]
    rfl
  · rw [hentry]
    decide

theorem dottedVolume_wellFormed : WellFormed dottedVolume :=
  flat_dotted.wellFormed.intern dottedVolume_slot fun _ => by
    have hchain : (flatVolume smallGeometry twoClusterFat [dottedEntry]).clusterChain 3 = [3, 4] :=
      twoClusterFat_chain
    rw [hchain]
    decide

theorem updatesOnly_iff_dotted : UpdatesOnly dottedVolume 2 (rootSlot smallGeometry 0) ↔
    ReachesEntry dottedVolume ⟨3, 513, false⟩ (rootSlot smallGeometry 0) :=
  updatesOnly_iff dottedVolume_wellFormed.good rfl rfl dottedVolume_slot.2.1

/-- Names with a leading dot are passed over: the size of `.A`, the only file, is not
written. -/
theorem not_updatesOnly_dotted :
    WellFormed dottedVolume ∧ dottedVolume.inodes.get 2 = some ⟨3, 513, false⟩ ∧
      dottedVolume.entryAt (rootSlot smallGeometry 0) = dottedEntry ∧
      ¬ UpdatesOnly dottedVolume 2 (rootSlot smallGeometry 0) := by
  have hentry : dottedVolume.entryAt (rootSlot smallGeometry 0) = dottedEntry :=
    flat_dotted.entryAt_slot (i := 0) (by decide)
  have hg := dottedVolume_wellFormed.good
  have hslot : (namesOf dottedVolume).slot 2 (rootSlot smallGeometry 0) 3 false := by
    refine ⟨IsDir.root, dottedVolume_slot.2.1, ?_, ?_, ?_⟩
    · rw [hentry]
      decide
    · rw [hentry]
      rfl
    · rw [hentry]
      decide
  have hnone : dottedVolume.firstSized 3 = none := by
    refine List.find?_eq_none.mpr fun b hb hhit => ?_
    obtain ⟨d, hslot'⟩ := walk_slot hg hb
    rw [beq_iff_eq.mp hhit] at hslot'
    obtain rfl := hg.names.slot_unique hslot hslot' (by decide)
    obtain ⟨d', -, hsized⟩ := (mem_walk hg).mp hb
    refine (mem_sizeSlots.mp hsized).2.2.2 ?_
    rw [hentry]
    rfl
  refine ⟨dottedVolume_wellFormed, rfl, hentry, ?_⟩
  rintro ⟨i, hi, heq⟩
  obtain rfl : (⟨3, 513, false⟩ : FatInode) = i := Option.some.inj hi
  rw [updateDirEntrySize_first hg hi rfl] at heq
  have hsame := (Prod.mk.inj heq).2
  rw [hnone, Option.elim_none] at hsame
  have hsize := setEntrySize_eq_self.mp hsame.symm
  rw [hentry] at hsize
  exact absurd hsize (by decide)

end AeroOS.Fat32
