import AeroOS.Fat32.Removal
import AeroOS.Fs.Tmpfs

/-!
# Removing a directory

`unlink` of both filesystems takes away one entry and what it names, and looks
at nothing below.

* `Tmpfs.allReachable_unlink`: in memory the inodes below a directory stay in
  the table.  Whether they can still be reached depends on their other entries;
  in a tree they have none.
* `unlink_loses_nothing_iff` puts this beside the result for FAT32.
-/

namespace AeroOS.Fs

open Run

namespace Tmpfs

/-- Every inode can be reached from the root. -/
def AllReachable (s : Tmpfs) : Prop := ∀ id ∈ s.inodes, Tree.Reach s.Edge rootInode id

/-- What the entry names has no entry for an inode that is reached through it alone. -/
def Spares (s : Tmpfs) (dir : Nat) (name : Path) : Prop :=
  ∀ gone, s.Child dir name gone → ∀ c ∈ s.inodes, s.Edge gone c → c ≠ gone →
    Tree.Reach (Tree.Without s.Edge gone) rootInode c

/-- What the entry names has no entries. -/
def EmptyBelow (s : Tmpfs) (dir : Nat) (name : Path) : Prop :=
  ∀ gone, s.Child dir name gone → ∀ c, ¬ s.Edge gone c

section unlink

variable {s s' : Tmpfs} {dir gone : Nat} {name : Path}

theorem Child.unique {d c c' : Nat} {n : Path} (h : s.Child d n c) (h' : s.Child d n c') :
    c = c' := by
  obtain ⟨i, hi, hc⟩ := h
  obtain ⟨i', hi', hc'⟩ := h'
  obtain rfl := Option.some.inj (hi.symm.trans hi')
  exact Option.some.inj (hc.symm.trans hc')

variable (hr : Removed s s' dir name gone)

include hr

theorem Removed.without {d c : Nat} (h : s'.Edge d c) : Tree.Without s.Edge gone d c := by
  obtain ⟨n, hn⟩ := h
  obtain ⟨hc, -, hne⟩ := hr.child.1 hn
  exact ⟨⟨n, hc⟩, hne⟩

theorem Removed.edge {d c : Nat} (h : Tree.Without s.Edge gone d c) (hne : c ≠ gone) :
    s'.Edge d c := by
  obtain ⟨⟨n, hc⟩, hd⟩ := h
  refine ⟨n, hr.child.2 ⟨hc, ?_, hd⟩⟩
  rintro ⟨rfl, rfl⟩
  exact hne (hc.unique hr.was)

theorem Removed.reach {x : Nat} (h : Tree.Reach (Tree.Without s.Edge gone) rootInode x)
    (hne : x ≠ gone) : Tree.Reach s'.Edge rootInode x := by
  induction h with
  | refl => exact Relation.ReflTransGen.refl
  | tail _ hab ih => exact Relation.ReflTransGen.tail (ih hab.2) (hr.edge hab hne)

theorem Removed.allReachable (hall : AllReachable s) : AllReachable s' ↔ s.Spares dir name := by
  constructor
  · intro hall' gone' hgone c hc hedge hne
    obtain rfl := hgone.unique hr.was
    exact Relation.ReflTransGen.mono (fun _ _ => hr.without) _ _ (hall' c (hr.mem.2 ⟨hc, hne⟩))
  · intro hspare x hx
    obtain ⟨hmem, hne⟩ := hr.mem.1 hx
    refine hr.reach (Tree.reach_without (S := (· ∈ s.inodes)) ?_ ?_ (hall x hmem) hmem hne) hne
    · rintro a b ⟨n, hn⟩
      exact hn.mem
    · exact fun b hb hedge hbne => hspare gone hr.was b hb hedge hbne

end unlink

/-- In a tree what is reached through an entry is reached through it alone. -/
theorem Inv.spares_iff {s : Tmpfs} (h : Inv s) (hall : AllReachable s) {dir : Nat} {name : Path} :
    s.Spares dir name ↔ s.EmptyBelow dir name := by
  constructor
  · rintro hspare gone hgone c ⟨n, hc⟩
    have hmem := h.present hc
    refine h.rooted.not_reach_child ⟨n, hc⟩ (hspare gone hgone c hmem ⟨n, hc⟩ ?_)
    rintro rfl
    exact h.rooted.irrefl (hall c hmem) ⟨n, hc⟩
  · exact fun hempty gone hgone c _ hedge _ => absurd hedge (hempty gone hgone c)

theorem allReachable_unlink {s s' : Tmpfs} (hall : AllReachable s) {dir : Nat} {name : Path}
    (h : s.unlink dir name = (.ok (), s')) : AllReachable s' ↔ s.Spares dir name := by
  rcases unlink_cases s dir name with ⟨e, heq⟩ | ⟨s'', gone, heq, hr⟩
  · rw [heq] at h
    cases h
  · rw [heq] at h
    obtain rfl := (Prod.mk.inj h).2
    exact hr.allReachable hall

end Tmpfs

open Fat32 in
/-- After a successful `unlink` from a state in which everything can be reached, everything
can be reached again just when nothing hangs on what was removed.  In memory: each inode
below it is reached in another way, which in a tree means that there is none.  On a FAT32
volume in order: no entry that is cut off has a chain. -/
theorem unlink_loses_nothing_iff (upper : List UInt8 → List UInt8) :
    (∀ (s s' : Tmpfs) (dir : Nat) (name : Path), Tmpfs.AllReachable s →
      s.unlink dir name = (.ok (), s') →
        (Tmpfs.AllReachable s' ↔ s.Spares dir name) ∧
          (Tmpfs.Inv s → (Tmpfs.AllReachable s' ↔ s.EmptyBelow dir name))) ∧
    ∀ (s s' : Fat32) (dirId : Nat) (name : List UInt8), InOrder s → AllReachable s →
      s.unlink upper dirId name = (.ok (), s') →
        (AllReachable s' ↔ CutsNothing upper s dirId name) := by
  refine ⟨fun s s' dir name hall h => ?_, fun s s' dirId name hs hall h =>
    allReachable_unlink hs hall h⟩
  have hiff := Tmpfs.allReachable_unlink hall h
  exact ⟨hiff, fun hinv => hiff.trans (hinv.spares_iff hall)⟩

namespace Tmpfs

/-! ## A directory with a file in it -/

/-- A directory name. -/
def dirName : Path := [0x64]

/-- A filesystem with a directory, which has a file. -/
def nested : Tmpfs := (new.exec (.mkdir rootInode dirName)).exec (.create 2 fileName)

theorem nested_steps : Steps NoWrap new nested := by
  have hdir : Steps NoWrap new (new.exec (.mkdir rootInode dirName)) :=
    (Reaches.refl new).snoc (e := .mkdir rootInode dirName) (show 2 + 1 < 2 ^ 64 by decide) rfl
  refine hdir.snoc (e := .create 2 fileName) ?_ rfl
  show (new.exec (.mkdir rootInode dirName)).nextInode + 1 < 2 ^ 64
  decide +kernel

theorem nested_inv : Inv nested :=
  nested_steps.invariant (fun _ _ _ hs hstep heq => heq ▸ (hs.exec hstep).1) Inv.new

theorem nested_child : nested.Child rootInode dirName 2 ∧ nested.Child 2 fileName 3 :=
  ⟨⟨_, rfl, by decide +kernel⟩, ⟨_, rfl, by decide +kernel⟩⟩

theorem nested_allReachable : AllReachable nested := by
  intro id hid
  have hkeys : nested.inodes.keys = [1, 2, 3] := by decide +kernel
  rw [← Std.ExtTreeMap.mem_keys, hkeys] at hid
  have h2 : Tree.Reach nested.Edge rootInode 2 := Relation.ReflTransGen.single ⟨_, nested_child.1⟩
  have h3 : Tree.Reach nested.Edge rootInode 3 := h2.tail ⟨_, nested_child.2⟩
  rcases List.mem_cons.1 hid with rfl | hid
  · exact Relation.ReflTransGen.refl
  rcases List.mem_cons.1 hid with rfl | hid
  · exact h2
  · obtain rfl := List.mem_singleton.1 hid
    exact h3

/-- The directory is removed, and the file stays in the table for ever. -/
theorem not_allReachable_nested :
    Steps NoWrap new nested ∧ AllReachable nested ∧
      (nested.unlink rootInode dirName).1 = .ok () ∧
        ¬ AllReachable (nested.unlink rootInode dirName).2 := by
  have hok : (nested.unlink rootInode dirName).1 = .ok () := by decide +kernel
  refine ⟨nested_steps, nested_allReachable, hok, fun hall' => ?_⟩
  have hspare := (allReachable_unlink nested_allReachable (Prod.ext hok rfl)).1 hall'
  exact (nested_inv.spares_iff nested_allReachable).1 hspare 2 nested_child.1 3 ⟨_, nested_child.2⟩

theorem nested_emptyBelow : nested.EmptyBelow 2 fileName := by
  rintro gone hgone c ⟨n, i, hi, hc⟩
  obtain rfl := hgone.unique nested_child.2
  have hnone : (nested.inodes[3]?).map (·.children.isEmpty) = some true := by decide +kernel
  rw [hi, Option.map_some, Option.some.injEq, Std.ExtTreeMap.isEmpty_iff] at hnone
  simp [hnone] at hc

end Tmpfs

/-- Removing the file of each volume loses nothing. -/
theorem unlink_loses_nothing_iff_file :
    Tmpfs.AllReachable (Tmpfs.nested.unlink 2 Tmpfs.fileName).2 ∧
      Fat32.AllReachable (Fat32.oneFileMount.unlink id 1 [0x41]).2 := by
  have hok : (Tmpfs.nested.unlink 2 Tmpfs.fileName).1 = .ok () := by decide +kernel
  have hok' : (Fat32.oneFileMount.unlink id 1 [0x41]).1 = .ok () := by decide +kernel
  have heq' : Fat32.oneFileMount.unlink id 1 [0x41] =
      (.ok (), (Fat32.oneFileMount.unlink id 1 [0x41]).2) := by
    rw [← hok']
  obtain ⟨hmem, hfat⟩ := unlink_loses_nothing_iff id
  exact ⟨((hmem _ _ _ _ Tmpfs.nested_allReachable (Prod.ext hok rfl)).2 Tmpfs.nested_inv).2
      Tmpfs.nested_emptyBelow,
    (hfat Fat32.oneFileMount _ 1 [0x41] Fat32.oneFileMount_clean.inOrder Fat32.oneFileMount_allReachable
      heq').2 Fat32.oneFileMount_cutsNothing⟩

end AeroOS.Fs
