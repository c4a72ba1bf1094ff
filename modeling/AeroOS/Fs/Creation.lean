import AeroOS.Fat32.DirTree
import AeroOS.Fs.Resolution

/-!
# Files that `open` creates

`open` of the mount table looks a path up and, if it may, creates the file that it did
not find.  What counts as the files is a function of the state.

* `Tame`: a filesystem whose searches keep the files, and whose `create` makes a file
  just when it can.
* `Creates` is the condition on the state under which `open` makes a file.
  `openPath_creates` and `openPath_keeps` are the two cases.
* `tame_boot`: the filesystems of the boot are tame.
-/

namespace AeroOS.Fs

open Build

/-! ## Tame filesystems -/

section tame

variable {σ α : Type} {W : σ → Prop} {f : σ → α}

/-- While the state is in order, searches keep it so and keep the files `f`; `create`
makes a file if it can, and keeps the files if not. -/
structure Tame (W : σ → Prop) (f : σ → α) (ops : FileOps σ) (can : σ → Nat → Path → Prop) :
    Prop where
  lookup : ∀ s id n, W s → W (ops.lookup s id n).2 ∧ f (ops.lookup s id n).2 = f s
  makes : ∀ s id n, W s → can s id n → ∃ x s', ops.create s id n = (.ok x, s') ∧ f s' ≠ f s
  keeps : ∀ s id n, W s → ¬ can s id n → f (ops.create s id n).2 = f s

namespace Vfs

variable {v : Vfs σ} {can : Nat → σ → Nat → Path → Prop} {s : σ}

theorem walk_tame {ops : FileOps σ} {can : σ → Nat → Path → Prop} (h : Tame W f ops can)
    (hs : W s) (cs : List Path) (id : Nat) :
    W (walk ops cs id s).2 ∧ f (walk ops cs id s).2 = f s := by
  induction cs generalizing id s with
  | nil => exact ⟨hs, rfl⟩
  | cons c cs ih =>
    obtain ⟨hs', hf⟩ := h.lookup s id c hs
    rw [walk]
    split
    · exact ⟨hs, rfl⟩
    · cases hl : ops.lookup s id c with
      | mk r t =>
        rw [hl] at hs' hf
        cases r with
        | error e => exact ⟨hs', hf⟩
        | ok x =>
          obtain ⟨hs'', hf'⟩ := ih hs' x
          exact ⟨hs'', hf'.trans hf⟩

variable (h : ∀ i m, v.mounts[i]? = some m → Tame W f m.ops (can i))

include h

theorem resolve_tame (hs : W s) (path : Path) :
    W (v.resolve path s).2 ∧ f (v.resolve path s).2 = f s := by
  rw [resolve_eq, resolveTarget]
  split
  · exact ⟨hs, rfl⟩
  · next i cs m hm =>
    obtain ⟨t, -, ht⟩ := Option.bind_eq_some_iff.1 hm
    obtain ⟨m', hm', heq⟩ := Option.map_eq_some_iff.1 ht
    obtain ⟨rfl, rfl, rfl⟩ := heq
    exact walk_tame (h _ _ hm') hs _ _

omit h in
/-- The path leads to nothing, its parent to a directory, and the file can be created there. -/
def Creates (v : Vfs σ) (can : Nat → σ → Nat → Path → Prop) (path : Path) (s : σ) : Prop :=
  (∀ r, ¬ v.Resolves path s r) ∧ ∃ i rel r s', v.findMount path = some (i, rel) ∧
    v.resolve (splitParentName path).1 (v.resolve path s).2 = (.ok r, s') ∧
    can i s' r.2 (splitParentName path).2

omit h in
theorem exists_mount_of_find {path : Path} {i : Nat} {rel : Path}
    (hfind : v.findMount path = some (i, rel)) : ∃ m, v.mounts[i]? = some m := by
  obtain ⟨m, hm, -⟩ := findMount_eq_some.1 hfind
  exact ⟨m, hm⟩

/-- In that case `open` with creation makes a file. -/
theorem openPath_creates (hs : W s) {path : Path} (hc : v.Creates can path s) :
    ∃ file s', v.openPath path true s = (.ok file, s') ∧ f s' ≠ f s := by
  obtain ⟨hno, i, rel, r, s₂, hfind, hparent, hcan⟩ := hc
  obtain ⟨m, hm⟩ := exists_mount_of_find hfind
  obtain ⟨hs₁, hf₁⟩ := resolve_tame h hs path
  obtain ⟨hs₂, hf₂⟩ := resolve_tame h hs₁ (splitParentName path).1
  rw [hparent] at hs₂ hf₂
  obtain ⟨x, s₃, hcreate, hf₃⟩ := (h i m hm).makes s₂ r.2 _ hs₂ hcan
  rw [openPath]
  cases hres : v.resolve path s with
  | mk q s₁ =>
    cases q with
    | ok q => exact absurd (congrArg Prod.fst hres) (hno q)
    | error e =>
      rw [hres] at hparent hf₁ hf₂
      simp only [if_true, createAt, hfind, hparent, hm, hcreate, fileAt]
      refine ⟨_, _, rfl, ?_⟩
      rwa [← hf₁, ← hf₂]

/-- In all others it keeps the files. -/
theorem openPath_keeps (hs : W s) {path : Path} {create : Bool}
    (hc : ¬ (create = true ∧ v.Creates can path s)) :
    f (v.openPath path create s).2 = f s := by
  obtain ⟨hs₁, hf₁⟩ := resolve_tame h hs path
  obtain ⟨hs₂, hf₂⟩ := resolve_tame h hs₁ (splitParentName path).1
  rw [openPath]
  cases hres : v.resolve path s with
  | mk q s₁ =>
    rw [hres] at hs₁ hf₁ hs₂ hf₂
    cases q with
    | ok q => exact (congrArg f (fileAt_keeps _)).trans hf₁
    | error e =>
      cases create with
      | false => exact hf₁
      | true =>
        simp only [if_true, fileAt_keeps, createAt]
        cases hfind : v.findMount path with
        | none => exact hf₁
        | some p =>
          obtain ⟨i, rel⟩ := p
          obtain ⟨m, hm⟩ := exists_mount_of_find hfind
          simp only [hm]
          cases hparent : v.resolve (splitParentName path).1 s₁ with
          | mk r s₂ =>
            rw [hparent] at hs₂ hf₂
            cases r with
            | error e => exact hf₂.trans hf₁
            | ok r =>
              have hcan : ¬ can i s₂ r.2 (splitParentName path).2 := by
                intro hcan
                refine hc ⟨rfl, ?_, i, rel, r, s₂, hfind, by rw [hres]; exact hparent, hcan⟩
                intro q hq
                rw [Resolves, hres] at hq
                cases hq
              have hkeep := (h i m hm).keeps s₂ r.2 _ hs₂ hcan
              simp only
              cases hcreate : m.ops.create s₂ r.2 (splitParentName path).2 with
              | mk x s₃ =>
                rw [hcreate] at hkeep
                cases x with
                | error e => exact (hkeep.trans hf₂).trans hf₁
                | ok x => exact (hkeep.trans hf₂).trans hf₁

end Vfs

end tame

/-! ## The filesystems of the boot -/

/-- A file that is added is in the table of inodes. -/
theorem Tmpfs.link_inodes_ne {t : Tmpfs} {dir : Nat} {name : Path} (h : t.CanAdd dir name)
    (fileType : FileType) : (t.link fileType dir name).inodes ≠ t.inodes := by
  obtain ⟨d, hd, -, hnone⟩ := h.getElem?
  intro heq
  have hget : (t.link fileType dir name).inodes[dir]? = some d := by rw [heq, hd]
  rw [link, setChildren_getElem?, Option.map_eq_some_iff] at hget
  obtain ⟨i, -, hi⟩ := hget
  rw [if_pos rfl] at hi
  rw [← hi, Std.ExtTreeMap.getElem?_insert_self] at hnone
  cases hnone

/-- The files and directories on the disk, and those in memory with their contents. -/
def files (s : Devices × Fat32 × Tmpfs) :
    (Nat → Fat32.RawDirEntry → Prop) × Std.ExtTreeMap Nat TmpfsInode compare :=
  (Fat32.Holds s.2.1, s.2.2.inodes)

/-- A file can be created in a directory of the mount with this index. -/
def canCreate (upper : List UInt8 → List UInt8) (i : Nat) (s : Devices × Fat32 × Tmpfs) (dir : Nat)
    (name : Path) : Prop :=
  if i = 0 then s.2.1.CanCreate upper dir name
  else if i = 1 then False
  else s.2.2.CanAdd dir name

/-- The filesystems of the boot are tame while the directories of the disk are in order. -/
theorem tame_boot (upper : List UInt8 → List UInt8) (totalSectors : Nat) (i : Nat)
    (m : Mount (Devices × Fat32 × Tmpfs))
    (hm : (Vfs.bootTable upper totalSectors).mounts[i]? = some m) :
    Tame (fun s => s.2.1.TreeInOrder) files m.ops (canCreate upper i) := by
  match i with
  | 0 =>
    obtain rfl := Option.some.inj hm
    refine ⟨fun s id n hs => ?_, fun s id n hs hcan => ?_, fun s id n hs hcan => ?_⟩
    · obtain ⟨horder, hholds⟩ := @Fat32.lookup_holds upper _ hs id n
      exact ⟨horder, congrArg (·, s.2.2.inodes) hholds⟩
    · obtain ⟨x, t, hcreate, hne⟩ := (Fat32.create_holds hs id n).1 hcan
      refine ⟨x, (s.1, t, s.2.2), ?_, fun h => hne (congrArg Prod.fst h)⟩
      show ((s.2.1.create upper id n).1, s.1, (s.2.1.create upper id n).2, s.2.2) = _
      rw [hcreate]
    · exact congrArg (·, s.2.2.inodes) ((Fat32.create_holds hs id n).2 hcan)
  | 1 =>
    obtain rfl := Option.some.inj hm
    refine ⟨fun s id n hs => ?_, fun _ _ _ _ h => absurd h id, fun _ _ _ _ _ => rfl⟩
    have hsame : ((Devfs.ops (Vfs.diskOf totalSectors)).lookup s id n).2 = s := by
      simp only [Devfs.ops]
      split
      · rfl
      · cases Devfs.devs.find? fun d => d.2.1 == n <;> rfl
    show Fat32.TreeInOrder ((Devfs.ops (Vfs.diskOf totalSectors)).lookup s id n).2.2.1 ∧
      files ((Devfs.ops (Vfs.diskOf totalSectors)).lookup s id n).2 = files s
    rw [hsame]
    exact ⟨hs, rfl⟩
  | 2 =>
    obtain rfl := Option.some.inj hm
    have hcreate : ∀ (s : Devices × Fat32 × Tmpfs) id n, Tmpfs.rootOps.create s id n =
      ((s.2.2.create id n).1, s.1, s.2.1, (s.2.2.create id n).2) := fun _ _ _ => rfl
    refine ⟨fun s id n hs => ⟨hs, rfl⟩, fun s id n _ hcan => ?_, fun s id n _ hcan => ?_⟩
    · rcases s.2.2.addInode_cases .regular "file already exists" id n with ⟨hno, -⟩ | ⟨-, heq⟩
      · exact absurd hcan hno
      · refine ⟨s.2.2.nextInode, (s.1, s.2.1, s.2.2.link .regular id n), ?_, fun h => ?_⟩
        · show Tmpfs.rootOps.create s id n = _
          rw [hcreate, Tmpfs.create, heq]
        · exact Tmpfs.link_inodes_ne hcan .regular (congrArg Prod.snd h)
    · show files (Tmpfs.rootOps.create s id n).2 = files s
      rw [hcreate, Tmpfs.create]
      rcases s.2.2.addInode_cases .regular "file already exists" id n with ⟨-, e, heq⟩ | ⟨h, -⟩
      · rw [heq]
      · exact absurd h hcan
  | i + 3 => cases hm

end AeroOS.Fs
