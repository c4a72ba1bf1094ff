import AeroOS.Fat32.DirEffects
import AeroOS.Fat32.Format

/-!
# FAT32: the three scans of a directory

Each scan of a directory has its own test for the slots that are in use.

* `readSlots`: the slots of `read_dir_raw` that pass `is_free` and `is_lfn`, as
  `lookup`, `readdir`, `create`, `mkdir` and `unlink` search them;
* `removeSlots`: the slots whose name `remove_dir_entry` looks at;
* `sizeSlots`: the slots whose first cluster `update_size_recursive` looks at.

The equations `findSlot_eq`, `removeDirEntry_eq_find?` and
`updateSizeClusters_eq_find?` say that each function takes the first match among
its slots.  `scansAgree_iff` says when the three are the same slots.
-/

namespace AeroOS.Fat32

open Bytes

variable {s : Fat32} {d a : Nat} {f : Nat → RawDirEntry} {l : List Nat}

/-! ## The slots of each scan -/

/-- The slots that `is_free` and `is_lfn` let through. -/
def readSlots (s : Fat32) (d : Nat) : List Nat :=
  (s.slotAddrs d).filter fun a => (s.entryAt a).isLive

/-- The slots that `remove_dir_entry` compares with the name. -/
def removeSlots (f : Nat → RawDirEntry) : List Nat → List Nat
  | [] => []
  | a :: as =>
    if (f a).first == 0x00 then []
    else if (f a).first == 0xE5 || (f a).attr == attrLfn then removeSlots f as
    else a :: removeSlots f as

/-- The slots that `update_size_recursive` compares with the cluster. -/
def sizeSlots (s : Fat32) (d : Nat) : List Nat :=
  (s.slotAddrs d).filter fun a => (s.entryAt a).isSized

theorem findSlot_eq (short : List UInt8) :
    s.findSlot d short = (s.readSlots d).find? fun a => (s.entryAt a).name == short := by
  rw [findSlot, readSlots, List.find?_filter]
  refine List.find?_congr fun a _ => ?_
  rw [RawDirEntry.isLive, Bool.not_or, Bool.decide_and, Bool.decide_eq_true, Bool.decide_eq_true]

theorem removeFind_eq (short : List UInt8) :
    removeFind f short l = (removeSlots f l).find? fun a => (f a).name == short := by
  induction l with
  | nil => rfl
  | cons a as ih =>
    rw [removeFind, removeSlots]
    by_cases h0 : ((f a).first == 0x00) = true
    · rw [if_pos h0, if_pos h0]
      rfl
    rw [if_neg h0, if_neg h0]
    by_cases hskip : ((f a).first == 0xE5 || (f a).attr == attrLfn) = true
    · rw [if_pos hskip, hskip, Bool.true_or, if_pos rfl, ih]
    · rw [if_neg hskip, Bool.eq_false_iff.mpr hskip, Bool.false_or, List.find?_cons, ih]
      cases hname : (f a).name == short with
      | true => rw [bne, hname, Bool.not_true, if_neg (by decide)]
      | false => rw [bne, hname, Bool.not_false, if_pos rfl]

/-- `remove_dir_entry` erases the first of its slots with the name. -/
theorem removeDirEntry_eq_find? (hs : Sound s) (short : List UInt8) :
    s.removeDirEntry d short =
      ((removeSlots s.entryAt (s.slotAddrs d)).find? fun a => (s.entryAt a).name == short).elim
        (.error "file not found", s)
        fun a => (.ok (), s.setBytes (writeBytes s.disk.bytes a [0xE5])) := by
  rw [removeDirEntry_eq hs, removeFind_eq]
  cases (removeSlots s.entryAt (s.slotAddrs d)).find? fun a => (s.entryAt a).name == short with
  | none => rfl
  | some a => rfl

/-- `update_size_recursive` writes to the first of its slots with the cluster. -/
theorem updateSizeClusters_eq_find? (hs : Sound s) (target n : Nat) :
    s.updateSizeClusters target n (s.clusterChain d) [] =
      ((s.sizeSlots d).find? fun a => (s.entryAt a).firstCluster == target).elim
        (.ok (some ((s.slotAddrs d).filterMap fun a => (s.entryAt a).subdir?)), s)
        fun a => (.ok none, s.setBytes (writeBytes s.disk.bytes (a + 28) (leBytes 4 n))) := by
  have hfind : ((s.sizeSlots d).find? fun a => (s.entryAt a).firstCluster == target) =
      (s.geo.slotsOf (s.clusterChain d)).find? fun a => sizeHit target (s.entryAt a) := by
    rw [sizeSlots, List.find?_filter]
    refine List.find?_congr fun a _ => ?_
    rw [sizeHit, Bool.decide_and, Bool.decide_eq_true, Bool.decide_eq_true]
  rw [updateSizeClusters_eq hs target n (s.valid_clusterChain d), hfind]
  cases (s.geo.slotsOf (s.clusterChain d)).find? fun a => sizeHit target (s.entryAt a) with
  | none => rfl
  | some a => rfl

/-! ## When they are the same -/

/-- The three scans take the same slots for entries, those with a leading dot
apart. -/
def ScansAgree (s : Fat32) (d : Nat) : Prop :=
  ∀ a ∈ s.slotAddrs d, (s.entryAt a).first ≠ 0x2E →
    (a ∈ s.readSlots d ↔ a ∈ removeSlots s.entryAt (s.slotAddrs d)) ∧
      (a ∈ s.readSlots d ↔ a ∈ s.sizeSlots d)

/-- The long-name attribute is written in one way, and nothing is behind the end
mark, slots with a leading dot apart. -/
structure PlainSlots (s : Fat32) (d : Nat) : Prop where
  lfn : ∀ a ∈ s.slotAddrs d, (s.entryAt a).isFree = false → (s.entryAt a).first ≠ 0x2E →
    (s.entryAt a).isLfn = true → (s.entryAt a).attr = attrLfn
  ended : ∀ a ∈ s.slotAddrs d, (s.entryAt a).isLive = true → (s.entryAt a).first ≠ 0x2E →
    a ∈ (s.slotAddrs d).takeWhile fun b => (s.entryAt b).first != 0x00

/-- The end mark ends the scan of `remove_dir_entry`. -/
theorem mem_removeSlots : a ∈ removeSlots f l ↔
    a ∈ l.takeWhile (fun b => (f b).first != 0x00) ∧ (f a).isFree = false ∧
      (f a).attr ≠ attrLfn := by
  induction l with
  | nil => simp [removeSlots]
  | cons b bs ih =>
    rw [removeSlots, List.takeWhile_cons]
    by_cases h0 : (f b).first = 0
    · simp [h0]
    · have hne : ((f b).first != 0x00) = true := bne_iff_ne.mpr h0
      rw [if_neg (by simpa using h0), if_pos hne, List.mem_cons]
      by_cases hskip : (f b).first = 0xE5 ∨ (f b).attr = attrLfn
      · rw [if_pos (by simpa using hskip), ih]
        refine and_congr_left fun hin => (or_iff_right ?_).symm
        rintro rfl
        rw [RawDirEntry.isFree_eq] at hin
        rcases hskip with h | h
        · simp [h] at hin
        · exact hin.2 h
      · rw [if_neg (by simpa using hskip), List.mem_cons, ih]
        obtain ⟨h5, hl⟩ := not_or.mp hskip
        constructor
        · rintro (rfl | h)
          · exact ⟨Or.inl rfl, by simp [RawDirEntry.isFree_eq, h0, h5], hl⟩
          · exact ⟨Or.inr h.1, h.2⟩
        · rintro ⟨rfl | h, hin⟩
          · exact Or.inl rfl
          · exact Or.inr ⟨h, hin⟩

theorem RawDirEntry.isLive_iff (e : RawDirEntry) :
    e.isLive = true ↔ e.isFree = false ∧ e.isLfn = false := by
  simp [isLive]

theorem RawDirEntry.isSized_iff (e : RawDirEntry) :
    e.isSized = true ↔ e.isFree = false ∧ e.attr ≠ attrLfn ∧ e.first ≠ 0x2E := by
  simp [isSized, and_assoc]

theorem RawDirEntry.isLfn_of_attr {e : RawDirEntry} (h : e.attr = attrLfn) : e.isLfn = true := by
  rw [isLfn, h]
  decide

theorem mem_readSlots : a ∈ s.readSlots d ↔
    a ∈ s.slotAddrs d ∧ (s.entryAt a).isFree = false ∧ (s.entryAt a).isLfn = false := by
  rw [readSlots, List.mem_filter, RawDirEntry.isLive_iff]

theorem mem_sizeSlots : a ∈ s.sizeSlots d ↔ a ∈ s.slotAddrs d ∧
    (s.entryAt a).isFree = false ∧ (s.entryAt a).attr ≠ attrLfn ∧ (s.entryAt a).first ≠ 0x2E := by
  rw [sizeSlots, List.mem_filter, RawDirEntry.isSized_iff]

/-- The scans agree on a directory if and only if its slots are plain. -/
theorem scansAgree_iff (s : Fat32) (d : Nat) : ScansAgree s d ↔ PlainSlots s d := by
  constructor
  · intro h
    refine ⟨fun a ha hfree hdot hlfn => ?_, fun a ha hlive hdot => ?_⟩
    · by_contra hattr
      have hsized := mem_sizeSlots.mpr ⟨ha, hfree, hattr, hdot⟩
      obtain ⟨-, -, hno⟩ := mem_readSlots.mp ((h a ha hdot).2.mpr hsized)
      rw [hlfn] at hno
      cases hno
    · have hread := mem_readSlots.mpr ⟨ha, (RawDirEntry.isLive_iff _).mp hlive⟩
      exact (mem_removeSlots.mp ((h a ha hdot).1.mp hread)).1
  · intro h a ha hdot
    have hlfn : (s.entryAt a).isFree = false →
        ((s.entryAt a).isLfn = false ↔ (s.entryAt a).attr ≠ attrLfn) := fun hfree => by
      constructor
      · intro hno hattr
        rw [RawDirEntry.isLfn_of_attr hattr] at hno
        cases hno
      · intro hattr
        by_contra hyes
        exact hattr (h.lfn a ha hfree hdot (by simpa using hyes))
    rw [mem_readSlots, mem_removeSlots, mem_sizeSlots]
    constructor
    · constructor
      · rintro ⟨-, hfree, hno⟩
        have hlive := (RawDirEntry.isLive_iff _).mpr ⟨hfree, hno⟩
        exact ⟨h.ended a ha hlive hdot, hfree, (hlfn hfree).mp hno⟩
      · rintro ⟨-, hfree, hattr⟩
        exact ⟨ha, hfree, (hlfn hfree).mpr hattr⟩
    · constructor
      · rintro ⟨-, hfree, hno⟩
        exact ⟨ha, hfree, (hlfn hfree).mp hno, hdot⟩
      · rintro ⟨-, hfree, hattr, -⟩
        exact ⟨ha, hfree, (hlfn hfree).mpr hattr⟩

/-- A directory whose first slot has the end mark, with the file `A` behind it. -/
def gapEntries : List RawDirEntry := [endMarkEntry, entryA 0 0]

/-- `lookup` finds a file behind the end mark, `remove_dir_entry` does not. -/
theorem not_scansAgree_gap : ¬ ScansAgree (flatVolume smallGeometry rootFat gapEntries) 2 := by
  have hflat : Flat smallGeometry rootFat gapEntries :=
    flat_rootOnly (by decide) <| List.forall_mem_cons.mpr ⟨⟨rfl, rfl, rfl, rfl⟩,
      List.forall_mem_singleton.mpr ⟨rfl, rfl, rfl, rfl⟩⟩
  have hslots : (flatVolume smallGeometry rootFat gapEntries).slotAddrs 2 =
      (List.range (15 + 1)).map (rootSlot smallGeometry) := hflat.slotAddrs_root
  intro h
  have ha := hflat.mem_slotAddrs.mpr ⟨1, by decide, rfl⟩
  have h0 := hflat.entryAt_slot (i := 0) (by decide)
  have h1 := hflat.entryAt_slot (i := 1) (by decide)
  have hread := mem_readSlots.mpr ⟨ha, by rw [h1]; decide, by rw [h1]; decide⟩
  have hrem := ((h _ ha (by rw [h1]; decide)).1.mp hread)
  have hend : (((flatVolume smallGeometry rootFat gapEntries).entryAt
      (rootSlot smallGeometry 0)).first == 0x00) = true := by
    rw [h0]
    decide
  rw [hslots, List.range_succ_eq_map, List.map_cons, removeSlots, if_pos hend] at hrem
  exact absurd hrem List.not_mem_nil

end AeroOS.Fat32
