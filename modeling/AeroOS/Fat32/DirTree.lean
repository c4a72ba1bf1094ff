import AeroOS.Fat32.EntryEffects
import AeroOS.Fat32.NewEntries

/-!
# FAT32: the directories of a volume and their entries

What `lookup` and `create` do to the tree of directories, also where it is reached by
the entries `.` and `..`.

* `Walkable` are the directories that a walk comes to, and `Holds` their entries.
* `lookup_holds`: a search keeps the tree.
* `create_holds`: `create` adds one entry if `CanCreate`, and keeps the tree if not.
-/

namespace AeroOS.Fat32

open Bytes

variable {upper : List UInt8 → List UInt8} {s s' : Fat32} {d dirId : Nat} {e : RawDirEntry}
  {name : List UInt8}

/-! ## The tree -/

/-- The directories that a walk comes to: the root, those of the inode table, and those
that their entries name, with `.` and `..`. -/
inductive Walkable (s : Fat32) : Nat → Prop where
  | root : Walkable s s.geo.rootCluster
  | inode {id : Nat} {i : FatInode} (hi : s.inodes.get id = some i) (hk : i.isDir = true) :
      Walkable s i.firstCluster
  | entry {d : Nat} {e : RawDirEntry} (hd : Walkable s d) (he : e ∈ s.usedEntries d)
      (hl : e.isLfn = false) (hk : e.isDir = true) : Walkable s e.firstCluster

/-- Directory `d` of the volume has the entry `e`. -/
def Holds (s : Fat32) (d : Nat) (e : RawDirEntry) : Prop := Walkable s d ∧ e ∈ s.usedEntries d

/-- The chains of the directories have neither cycles nor free clusters and do not meet. -/
structure TreeInOrder (s : Fat32) : Prop where
  sound : Sound s
  chains : ChainsOk s.geo s.fatCache fun d => d = 0 ∨ Walkable s d

/-- A step that leads to no further directory. -/
theorem Walkable.of_step (hgeo : s'.geo = s.geo)
    (hino : ∀ id i, s'.inodes.get id = some i → i.isDir = true → Walkable s i.firstCluster)
    (hent : ∀ d e, Walkable s d → e ∈ s'.usedEntries d → e.isDir = true → e ∈ s.usedEntries d)
    (h : Walkable s' d) : Walkable s d := by
  induction h with
  | root =>
    rw [hgeo]
    exact .root
  | inode hi hk => exact hino _ _ hi hk
  | entry _ he hl hk ih => exact .entry ih (hent _ _ ih he hk) hl hk

/-- The same directories with the same entries. -/
theorem holds_congr (hd : ∀ d, Walkable s' d ↔ Walkable s d)
    (he : ∀ d, Walkable s d → s'.usedEntries d = s.usedEntries d) : Holds s' = Holds s := by
  funext d e
  rw [eq_iff_iff, Holds, Holds, hd]
  constructor
  · rintro ⟨h, hmem⟩
    exact ⟨h, he d h ▸ hmem⟩
  · rintro ⟨h, hmem⟩
    exact ⟨h, (he d h).symm ▸ hmem⟩

/-! ## Interning -/

theorem usedEntries_internInode (s : Fat32) (h size : Nat) (k : Bool) (d : Nat) :
    (s.internInode h size k).2.usedEntries d = s.usedEntries d :=
  usedEntries_congr (readDirRaw_internInode s h size k d)

/-- Interning a file, or a directory that a walk comes to. -/
theorem walkable_internInode {h : Nat} {k : Bool} (hk : k = true → Walkable s h) (size d : Nat) :
    Walkable (s.internInode h size k).2 d ↔ Walkable s d := by
  constructor
  · apply Walkable.of_step (internInode_geo s h size k)
    · intro id i hi hdir
      rcases internInode_get_cases hi with hi | rfl
      · exact .inode hi hdir
      · exact hk hdir
    · intro d e _ he _
      rwa [usedEntries_internInode] at he
  · apply Walkable.of_step (internInode_geo s h size k).symm
    · intro id i hi hdir
      exact .inode (internInode_get_of_some hi) hdir
    · intro d e _ he _
      rwa [usedEntries_internInode]

theorem holds_internInode {h : Nat} {k : Bool} (hk : k = true → Walkable s h) (size : Nat) :
    Holds (s.internInode h size k).2 = Holds s :=
  holds_congr (walkable_internInode hk size) fun d _ => usedEntries_internInode s h size k d

theorem TreeInOrder.internInode (ht : TreeInOrder s) {h : Nat} {k : Bool}
    (hk : k = true → Walkable s h) (size : Nat) : TreeInOrder (s.internInode h size k).2 where
  sound := ht.sound.of_eq (internInode_geo ..) (by rw [internInode_disk])
  chains := by
    rw [internInode_geo, internInode_fatCache]
    simp only [walkable_internInode hk size]
    exact ht.chains

/-! ## `lookup` -/

/-- A search keeps the tree. -/
theorem lookup_holds (ht : TreeInOrder s) (dirId : Nat) (name : List UInt8) :
    TreeInOrder (s.lookup upper dirId name).2 ∧ Holds (s.lookup upper dirId name).2 = Holds s := by
  rw [lookup]
  cases hdir : s.inodes.get dirId with
  | none => exact ⟨ht, rfl⟩
  | some dir =>
    simp only
    split
    · exact ⟨ht, rfl⟩
    rename_i hk
    cases hfind : findEntry (s.readDirRaw dir.firstCluster) (toShortName upper name) with
    | none => exact ⟨ht, rfl⟩
    | some e =>
      have hhit := List.find?_some hfind
      simp only [Bool.and_eq_true, Bool.not_eq_true', Bool.or_eq_false_iff] at hhit
      have hused : e ∈ s.usedEntries dir.firstCluster := by
        refine List.mem_filter.2 ⟨List.mem_of_find?_eq_some hfind, ?_⟩
        rw [hhit.1.1]
        rfl
      have hnamed : e.isDir = true → Walkable s e.firstCluster :=
        .entry (.inode hdir (by simpa using hk)) hused hhit.1.2
      exact ⟨ht.internInode hnamed e.fileSize, holds_internInode hnamed e.fileSize⟩

/-! ## `create` -/

/-- An entry can be written to the directory: a slot is free, or its chain can be extended. -/
def HasRoom (s : Fat32) (d : Nat) : Prop :=
  (∃ e ∈ s.readDirRaw d, e.isFree = true) ∨ s.clusterChain d ≠ [] ∧ ¬ Full s

theorem writeDirEntry_ok_iff (hs : Sound s) (d : Nat) (e : RawDirEntry) :
    (s.writeDirEntry d e true).1 = .ok () ↔ HasRoom s d := by
  have hslots : (∃ e ∈ s.readDirRaw d, e.isFree = true) ↔
      ∃ a ∈ s.slotAddrs d, (s.entryAt a).isFree = true := by
    rw [readDirRaw_eq hs]
    simp only [List.mem_map, exists_exists_and_eq_and]
  rw [HasRoom, hslots]
  rcases writeDirEntry_shape hs d e with ⟨err, hfull, hused, heq⟩ | ⟨c, err, -, -, hnil, heq⟩ |
    ⟨a, ha, hfree, heq⟩ | ⟨c, last, m, hv, hc, hgl, -, -, heq⟩
  · rw [heq]
    refine iff_of_false (fun h => nomatch h) ?_
    rintro (⟨a, ha, hfree⟩ | ⟨-, hroom⟩)
    · rw [hused a ha] at hfree
      cases hfree
    · exact hroom hfull
  · rw [heq]
    refine iff_of_false (fun h => nomatch h) ?_
    rintro (⟨a, ha, -⟩ | ⟨hne, -⟩)
    · rw [slotAddrs, hnil] at ha
      cases ha
    · exact hne hnil
  · rw [heq]
    exact iff_of_true rfl (Or.inl ⟨a, ha, hfree⟩)
  · rw [heq]
    refine iff_of_true rfl (Or.inr ⟨?_, fun hfull => hfull c hv hc⟩)
    intro hnil
    rw [hnil] at hgl
    cases hgl

/-- A file of that name can be made in the directory with inode `dirId`, and be seen: its
short name is new there and does not mark a free slot. -/
def CanCreate (upper : List UInt8 → List UInt8) (s : Fat32) (dirId : Nat) (name : List UInt8) :
    Prop :=
  ∃ dir, s.inodes.get dirId = some dir ∧ dir.isDir = true ∧
    findEntry (s.readDirRaw dir.firstCluster) (toShortName upper name) = none ∧
    HasRoom s dir.firstCluster ∧ (newFileEntry upper name).isFree = false

/-- An entry of a file in a directory is one more in the tree. -/
theorem Entered.holds {a : Nat} (ht : TreeInOrder s) (hd : Walkable s d)
    (h : Entered (fun d => d = 0 ∨ Walkable s d) s s' d a e) (hplain : e.isLfn = false)
    (hfile : e.isDir = false) (hnew : findEntry (s.readDirRaw d) e.name = none) {x : Nat}
    {y : RawDirEntry} :
    Holds s' x y ↔ Holds s x y ∨ x = d ∧ y = e ∧ e.isFree = false := by
  have hs' : Sound s' := ht.sound.of_eq h.geo h.present
  have hself : ∀ y, y ∈ s'.usedEntries d ↔ y ∈ s.usedEntries d ∨ y = e ∧ e.isFree = false := by
    intro y
    have hjoined := h.joined ht.sound hs' (Or.inr hd) (ht.chains.nodup d (Or.inr hd)) hplain hnew
    rw [hjoined.used.mem_iff, List.mem_append]
    cases hfree : e.isFree <;> simp [or_comm]
  have hother : ∀ f, Walkable s f → f ≠ d → s'.usedEntries f = s.usedEntries f := by
    intro f hf hne
    have hslots : s'.slotAddrs f = s.slotAddrs f := by
      rw [slotAddrs, slotAddrs, h.others f (Or.inr hf) hne, h.geo]
    rw [usedEntries, usedEntries, readDirRaw_eq hs', readDirRaw_eq ht.sound, hslots]
    congr 1
    apply List.map_congr_left
    intro b hb
    exact h.other_slot (Or.inr hd) (Or.inr hf) hne hb
  have hused : ∀ f y, Walkable s f →
      (y ∈ s'.usedEntries f ↔ y ∈ s.usedEntries f ∨ f = d ∧ y = e ∧ e.isFree = false) := by
    intro f y hf
    by_cases hfd : f = d
    · subst hfd
      rw [hself]
      simp
    · rw [hother f hf hfd]
      simp [hfd]
  have hwalk : ∀ f, Walkable s' f ↔ Walkable s f := by
    intro f
    constructor
    · apply Walkable.of_step h.geo
      · intro id i hi hk
        exact .inode (h.inodes ▸ hi) hk
      · intro f y hf hy hk
        rcases (hused f y hf).1 hy with hy | ⟨-, rfl, -⟩
        · exact hy
        · rw [hfile] at hk
          cases hk
    · intro hf
      induction hf with
      | root => exact h.geo ▸ .root
      | inode hi hk => exact .inode (h.inodes.symm ▸ hi) hk
      | entry hf he hl hk ih => exact .entry ih ((hused _ _ hf).2 (Or.inl he)) hl hk
  rw [Holds, Holds, hwalk]
  constructor
  · rintro ⟨hx, hy⟩
    exact ((hused x y hx).1 hy).imp_left fun hy => ⟨hx, hy⟩
  · rintro (⟨hx, hy⟩ | ⟨rfl, hy⟩)
    · exact ⟨hx, (hused x y hx).2 (Or.inl hy)⟩
    · exact ⟨hd, (hused x y hd).2 (Or.inr ⟨rfl, hy⟩)⟩

/-- A new name is made if there is room. -/
theorem create_ok_iff (hs : Sound s) {dir : FatInode} (hdir : s.inodes.get dirId = some dir)
    (hk : dir.isDir = true)
    (hnone : findEntry (s.readDirRaw dir.firstCluster) (toShortName upper name) = none) :
    (∃ id, (s.create upper dirId name).1 = .ok id) ↔ HasRoom s dir.firstCluster := by
  rw [← writeDirEntry_ok_iff hs dir.firstCluster (newFileEntry upper name), create, hdir]
  simp only [hk, Bool.true_eq_false, if_false, hnone]
  rw [← newFileEntry]
  cases hwrite : s.writeDirEntry dir.firstCluster (newFileEntry upper name) true with
  | mk r t =>
    cases r with
    | error err =>
      apply iff_of_false
      · rintro ⟨_, h⟩
        cases h
      · intro h
        cases h
    | ok u =>
      obtain ⟨hgeo, -, hpres⟩ := writeDirEntry_frame hs hwrite
      simp only [flushFat_eq (hs.of_eq hgeo hpres)]
      exact iff_of_true ⟨_, rfl⟩ trivial

/-- A cluster that is lost is in no directory. -/
theorem holds_setFat (hs : Sound s) {c : Nat} (hc : s.fatCache c = 0) :
    Holds (s.setFat c fatEoc) = Holds s := by
  have hused : ∀ d, (s.setFat c fatEoc).usedEntries d = s.usedEntries d := by
    intro d
    have hs' : Sound (s.setFat c fatEoc) := hs.of_eq rfl rfl
    rw [usedEntries, usedEntries, readDirRaw_eq hs', readDirRaw_eq hs, slotAddrs_setFat_of_free hc]
    rfl
  have hwalk : ∀ {t u : Fat32} {d : Nat}, u.geo = t.geo → u.inodes = t.inodes →
      (∀ d, u.usedEntries d = t.usedEntries d) → Walkable u d → Walkable t d := by
    intro t u d hgeo hino hsame h
    apply h.of_step hgeo
    · intro id i hi hk
      exact .inode (hino ▸ hi) hk
    · intro d e _ he _
      rwa [← hsame]
  exact holds_congr (fun d => ⟨hwalk rfl rfl hused, hwalk rfl rfl fun d => (hused d).symm⟩)
    fun d _ => hused d

/-- `create` makes a file that is seen, or leaves the tree as it is. -/
theorem create_holds (ht : TreeInOrder s) (dirId : Nat) (name : List UInt8) :
    (CanCreate upper s dirId name →
      ∃ id s', s.create upper dirId name = (.ok id, s') ∧ Holds s' ≠ Holds s) ∧
    (¬ CanCreate upper s dirId name → Holds (s.create upper dirId name).2 = Holds s) := by
  cases hdir : s.inodes.get dirId with
  | none =>
    constructor
    · rintro ⟨dir, hdir', -⟩
      rw [hdir] at hdir'
      cases hdir'
    · intro _
      rw [create, hdir]
  | some dir =>
    have hcan : ∀ h : CanCreate upper s dirId name, dir.isDir = true ∧
        findEntry (s.readDirRaw dir.firstCluster) (toShortName upper name) = none ∧
          HasRoom s dir.firstCluster ∧ (newFileEntry upper name).isFree = false := by
      rintro ⟨dir', hdir', h⟩
      rw [hdir] at hdir'
      exact Option.some.inj hdir' ▸ h
    by_cases hk : dir.isDir = true
    swap
    · refine ⟨fun h => absurd (hcan h).1 hk, fun _ => ?_⟩
      rw [create, hdir]
      simp only [hk, if_true]
    have hwalk : Walkable s dir.firstCluster := .inode hdir hk
    rcases create_cases ht.sound ht.chains hdir (Or.inr hwalk) name with
      ⟨err, heq⟩ | ⟨c, err, hv, hc, heq⟩ | ⟨-, hnone, a, t, hent, heq⟩
    · refine ⟨fun h => ?_, fun _ => by rw [heq]⟩
      obtain ⟨id, hok⟩ := (create_ok_iff ht.sound hdir hk (hcan h).2.1).2 (hcan h).2.2.1
      rw [heq] at hok
      cases hok
    · refine ⟨fun h => ?_, fun _ => ?_⟩
      · obtain ⟨id, hok⟩ := (create_ok_iff ht.sound hdir hk (hcan h).2.1).2 (hcan h).2.2.1
        rw [heq] at hok
        cases hok
      · rw [heq]
        exact holds_setFat ht.sound hc
    · have hholds : ∀ {x y}, Holds (t.internInode 0 0 false).2 x y ↔ Holds s x y ∨
          x = dir.firstCluster ∧ y = newFileEntry upper name ∧
            (newFileEntry upper name).isFree = false := by
        intro x y
        rw [holds_internInode (fun h => Bool.noConfusion h)]
        exact hent.holds ht hwalk (newFileEntry_plain upper name) (newFileEntry_isDir upper name)
          hnone
      rw [heq]
      constructor
      · intro h
        refine ⟨_, _, rfl, fun hsame => ?_⟩
        have hnew := hholds.2 (Or.inr ⟨rfl, rfl, (hcan h).2.2.2⟩)
        rw [hsame] at hnew
        exact (findEntry_ne_none _ _).2 ⟨_, hnew.2, newFileEntry_plain upper name, rfl⟩ hnone
      · intro h
        funext x y
        rw [eq_iff_iff, hholds, or_iff_left_iff_imp]
        rintro ⟨-, -, hused⟩
        refine absurd ⟨dir, hdir, hk, hnone, ?_, hused⟩ h
        exact (create_ok_iff ht.sound hdir hk hnone).1 ⟨_, congrArg Prod.fst heq⟩

/-! ## An empty volume -/

/-- A walk comes to the root directory only. -/
theorem walkable_emptyMount (h : Walkable emptyMount d) : d = 2 := by
  induction h with
  | root => rfl
  | inode hi _ => exact (mount_inode flat_empty.mount_eq hi).2.1
  | entry hd he hl hk ih =>
    subst ih
    rw [usedEntries_eq emptyMount_sound, List.mem_map] at he
    obtain ⟨a, ha, rfl⟩ := he
    obtain ⟨ha, hused⟩ := List.mem_filter.1 ha
    rw [emptyMount_free ha] at hused
    cases hused

theorem emptyMount_treeInOrder : TreeInOrder emptyMount where
  sound := emptyMount_sound
  chains := by
    apply emptyMount_dirInOrder.chains.mono
    intro d hd
    exact Or.inr (hd.imp_right walkable_emptyMount)

end AeroOS.Fat32
