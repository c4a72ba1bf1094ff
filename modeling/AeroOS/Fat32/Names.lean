import AeroOS.Fat32.Ownership
import AeroOS.Fat32.Slots

/-!
# FAT32: who names which chain

`Names` is the abstract view of a volume: which directories it has, which
slot of which directory names which head, which inode has which head.
`Names.Ok` says that a chain has one name on the disk and one inode.

* `IsDir` are the directories that can be reached from the root and from the
  inode table; `namesOf` is the view of a state over them.
* `Covers` connects a state to a view that has at least its names.
  `Described.good` is the rule that every operation uses: give a view that
  covers the new state and is in order.
-/

namespace AeroOS.Fat32

/-- The names on a volume.  `slot d a h k` says that the slot at address `a` of
directory `d` names head `h`, as a directory when `k` is true. -/
structure Names where
  root : Nat
  dir : Nat → Prop
  slot : Nat → Nat → Nat → Bool → Prop
  ino : Nat → Nat → Bool → Prop

namespace Names

/-- The heads that are named. -/
def heads (v : Names) (h : Nat) : Prop :=
  v.dir h ∨ (∃ d a k, v.slot d a h k) ∨ ∃ id k, v.ino id h k

/-- Every directory that is named is a directory, no file is one, and no two
slots and no two inodes name one chain. -/
structure Ok (v : Names) : Prop where
  root_dir : v.dir v.root
  slot_dir : ∀ {d a h}, v.slot d a h true → v.dir h
  ino_dir : ∀ {id h}, v.ino id h true → v.dir h
  slot_file : ∀ {d a h}, v.slot d a h false → h ≠ 0 → ¬ v.dir h
  ino_file : ∀ {id h}, v.ino id h false → h ≠ 0 → ¬ v.dir h
  slot_unique : ∀ {d d' a a' h k k'}, v.slot d a h k → v.slot d' a' h k' → h ≠ 0 → a = a'
  slot_root : ∀ {d a h k}, v.slot d a h k → h ≠ 0 → h ≠ v.root
  ino_unique : ∀ {id id' h k k'}, v.ino id h k → v.ino id' h k' → h ≠ 0 → id = id'

/-- No directory names itself. -/
def NoSelf (v : Names) : Prop := ∀ {d a h k}, v.slot d a h k → h ≠ 0 → h ≠ d

/-- The names of `v` are names of `w`. -/
structure Le (v w : Names) : Prop where
  root : v.root = w.root
  dir : ∀ {h}, v.dir h → w.dir h
  slot : ∀ {d a h k}, v.slot d a h k → w.slot d a h k
  ino : ∀ {id h k}, v.ino id h k → w.ino id h k

variable {v w : Names}

theorem Le.heads (h : Le v w) {x : Nat} (hx : v.heads x) : w.heads x := by
  rcases hx with hx | ⟨d, a, k, hx⟩ | ⟨id, k, hx⟩
  · exact Or.inl (h.dir hx)
  · exact Or.inr (Or.inl ⟨d, a, k, h.slot hx⟩)
  · exact Or.inr (Or.inr ⟨id, k, h.ino hx⟩)

theorem NoSelf.mono (hw : NoSelf w) (h : Le v w) : NoSelf v := fun hs => hw (h.slot hs)

/-- Fewer names are in order, as long as they are closed. -/
theorem Ok.mono (hw : Ok w) (h : Le v w) (hroot : v.dir v.root)
    (hslot : ∀ {d a h}, v.slot d a h true → v.dir h) (hino : ∀ {id h}, v.ino id h true → v.dir h) :
    Ok v where
  root_dir := hroot
  slot_dir := hslot
  ino_dir := hino
  slot_file hs h0 hd := hw.slot_file (h.slot hs) h0 (h.dir hd)
  ino_file hi h0 hd := hw.ino_file (h.ino hi) h0 (h.dir hd)
  slot_unique hs hs' h0 := hw.slot_unique (h.slot hs) (h.slot hs') h0
  slot_root hs h0 := h.root ▸ hw.slot_root (h.slot hs) h0
  ino_unique hi hi' h0 := hw.ino_unique (h.ino hi) (h.ino hi') h0

end Names

/-! ## The names of a state -/

/-- An entry that some loop of the code takes for a file or a directory, `.`
and `..` apart: the slot is in use and its attribute is not that of a long
name. -/
def RawDirEntry.isEntry (e : RawDirEntry) : Bool :=
  !e.isFree && e.attr != attrLfn && e.name != dotName && e.name != dotdotName

theorem RawDirEntry.isEntry_of_dot {e : RawDirEntry} (h : e.name = dotName ∨ e.name = dotdotName) :
    e.isEntry = false := by
  rcases h with h | h <;> simp [isEntry, h]

/-- An entry that a search by name can find is one, unless it is `.` or `..`. -/
theorem RawDirEntry.isEntry_of_isLive {e : RawDirEntry} (h : e.isLive = true)
    (h1 : e.name ≠ dotName) (h2 : e.name ≠ dotdotName) : e.isEntry = true := by
  simp only [isLive, Bool.and_eq_true, Bool.not_eq_true'] at h
  have hattr : e.attr ≠ attrLfn := by
    intro heq
    have hlfn := h.2
    rw [isLfn, heq] at hlfn
    exact absurd hlfn (by decide)
  simp [isEntry, h.1, hattr, h1, h2]

/-- The directories that can be reached from the root and the inode table. -/
inductive IsDir (s : Fat32) : Nat → Prop where
  | root : IsDir s s.geo.rootCluster
  | inode {id : Nat} {i : FatInode} (hi : s.inodes.get id = some i) (hd : i.isDir = true) :
      IsDir s i.firstCluster
  | slot {d a : Nat} (hd : IsDir s d) (ha : a ∈ s.slotAddrs d)
      (he : (s.entryAt a).isEntry = true) (hk : (s.entryAt a).isDir = true) :
      IsDir s (s.entryAt a).firstCluster

/-- The view of a state. -/
def namesOf (s : Fat32) : Names where
  root := s.geo.rootCluster
  dir := IsDir s
  slot d a h k := IsDir s d ∧ a ∈ s.slotAddrs d ∧ (s.entryAt a).isEntry = true ∧
    (s.entryAt a).firstCluster = h ∧ (s.entryAt a).isDir = k
  ino id h k := ∃ i, s.inodes.get id = some i ∧ i.firstCluster = h ∧ i.isDir = k

/-- The view `v` has the inodes of the state, and every name that the state has
in the directories of `v`. -/
structure Covers (s : Fat32) (v : Names) : Prop where
  root : v.root = s.geo.rootCluster
  slot : ∀ d a, v.dir d → a ∈ s.slotAddrs d → (s.entryAt a).isEntry = true →
    v.slot d a (s.entryAt a).firstCluster (s.entryAt a).isDir
  ino : ∀ id h k, v.ino id h k ↔
    ∃ i, s.inodes.get id = some i ∧ i.firstCluster = h ∧ i.isDir = k

theorem covers_namesOf (s : Fat32) : Covers s (namesOf s) where
  root := rfl
  slot _ _ hd ha he := ⟨hd, ha, he, rfl, rfl⟩
  ino _ _ _ := Iff.rfl

/-- A view in order that covers a state has all its directories. -/
theorem Covers.dir_of_isDir {s : Fat32} {v : Names} (hc : Covers s v) (hv : v.Ok) {d : Nat}
    (hd : IsDir s d) : v.dir d := by
  induction hd with
  | root => exact hc.root ▸ hv.root_dir
  | @inode id i hi hk => exact hv.ino_dir ((hc.ino id _ true).mpr ⟨i, hi, rfl, hk⟩)
  | @slot d a _ ha he hk ih =>
    have := hc.slot d a ih ha he
    rw [hk] at this
    exact hv.slot_dir this

theorem Covers.le {s : Fat32} {v : Names} (hc : Covers s v) (hv : v.Ok) :
    Names.Le (namesOf s) v where
  root := hc.root.symm
  dir := hc.dir_of_isDir hv
  slot := by
    rintro d a h k ⟨hd, ha, he, rfl, rfl⟩
    exact hc.slot d a (hc.dir_of_isDir hv hd) ha he
  ino h := (hc.ino _ _ _).mpr h

/-- A view in order that covers the state, with the chains of its heads in
order. -/
structure Described (s : Fat32) (v : Names) : Prop where
  sound : Sound s
  covers : Covers s v
  ok : v.Ok
  chains : ChainsOk s.geo s.fatCache v.heads

/-- A volume in order: its names are, and so are the chains of its heads. -/
structure Good (s : Fat32) : Prop where
  sound : Sound s
  names : (namesOf s).Ok
  chains : ChainsOk s.geo s.fatCache (namesOf s).heads

/-- To show that a state is in order it is enough to give a view that is. -/
theorem Described.good {s : Fat32} {v : Names} (h : Described s v) : Good s where
  sound := h.sound
  names := by
    refine h.ok.mono (h.covers.le h.ok) IsDir.root ?_ ?_
    · rintro d a h ⟨hd, ha, he, rfl, hk⟩
      exact IsDir.slot hd ha he hk
    · rintro id h ⟨i, hi, rfl, hk⟩
      exact IsDir.inode hi hk
  chains := h.chains.mono fun _ hx => Or.inr ((h.covers.le h.ok).heads hx)

theorem Good.described {s : Fat32} (h : Good s) : Described s (namesOf s) :=
  ⟨h.sound, covers_namesOf s, h.names, h.chains⟩

theorem heads_of_inode {s : Fat32} {id : Nat} {i : FatInode} (hi : s.inodes.get id = some i) :
    (namesOf s).heads i.firstCluster :=
  Or.inr (Or.inr ⟨id, i.isDir, i, hi, rfl, rfl⟩)

namespace Good

variable {s : Fat32} (hg : Good s)

include hg

/-- The chain of a regular file meets no directory. -/
theorem file_disjoint_dir {id : Nat} {i : FatInode} (hi : s.inodes.get id = some i)
    (hk : i.isDir = false) {d : Nat} (hd : IsDir s d) :
    ∀ x ∈ s.clusterChain i.firstCluster, x ∉ s.clusterChain d := by
  intro x hx
  have h0 : i.firstCluster ≠ 0 := by
    intro h0
    rw [h0, clusterChain_def, chainOf_zero] at hx
    exact absurd hx List.not_mem_nil
  have hne : i.firstCluster ≠ d := by
    rintro rfl
    exact hg.names.ino_file ⟨i, hi, rfl, hk⟩ h0 hd
  exact hg.chains.disj _ d (heads_of_inode hi) (Or.inl hd) hne x hx

/-- The chains of two inodes do not meet. -/
theorem inodes_disjoint {id id' : Nat} {i i' : FatInode} (hi : s.inodes.get id = some i)
    (hi' : s.inodes.get id' = some i') (hne : id ≠ id') :
    ∀ x ∈ s.clusterChain i.firstCluster, x ∉ s.clusterChain i'.firstCluster := by
  intro x hx
  have h0 : i.firstCluster ≠ 0 := by
    intro h0
    rw [h0, clusterChain_def, chainOf_zero] at hx
    exact absurd hx List.not_mem_nil
  have hhead : i.firstCluster ≠ i'.firstCluster := fun heq =>
    hne (hg.names.ino_unique ⟨i, hi, rfl, rfl⟩ ⟨i', hi', heq.symm, rfl⟩ h0)
  exact hg.chains.disj _ _ (heads_of_inode hi) (heads_of_inode hi') hhead x hx

end Good

end AeroOS.Fat32
