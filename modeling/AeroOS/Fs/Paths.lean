import AeroOS.Fs.Mounts
import AeroOS.Lib.Labelled
import AeroOS.Lib.Separated

/-!
# Paths and components

`resolve` walks along the components of what is left of the path behind the mount
point.  Here is what such a walk does, and what it does in the in-memory filesystem.

* `Vfs.target` is what a path comes to before any filesystem is asked: a mount and
  a list of components.  `resolve_of_target` is `resolve` in terms of it.
* `Tmpfs.Enters` are the edges that a walk takes, and `walk_ok_iff` says that it
  follows them.
* `Tmpfs.exists_follows` makes a directory for any list of components.
-/

namespace AeroOS.Fs

open Labelled Run Separated

namespace Vfs

variable {σ : Type} {v : Vfs σ}

/-! ## The target of a path -/

theorem trimSlashes_eq (p : Path) :
    trimSlashes p = (p.dropWhile (· == slash)).rdropWhile (· == slash) := rfl

theorem components_eq (p : Path) : components p = parts slash p := by
  rw [components, ← parts, trimSlashes_eq, parts_rdropWhile, parts_dropWhile]

/-- The mount of a path, and the components of what is left of it. -/
def target (v : Vfs σ) (path : Path) : Option (Nat × List Path) :=
  (v.findMount path).map fun r => (r.1, parts slash r.2)

theorem target_of_matched {path : Path} {i : Nat} {m : Mount σ} (hm : v.mounts[i]? = some m)
    (hmatch : matched m.mountPoint path = true)
    (hfirst : ∀ j m', j < i → v.mounts[j]? = some m' → matched m'.mountPoint path = false) :
    v.target path = some (i, parts slash (relative m.mountPoint path)) := by
  rw [target, findMount_eq_some.2 ⟨m, hm, hmatch, rfl, hfirst⟩]
  rfl

/-- `resolve` on what a path comes to. -/
def resolveTarget (v : Vfs σ) (t : Option (Nat × List Path)) (s : σ) :
    Except String (Nat × Nat) × σ :=
  match t.bind fun t => (v.mounts[t.1]?).map fun m => (t.1, t.2, m) with
  | none => (.error "no mount for path", s)
  | some (i, cs, m) =>
    ((walk m.ops cs m.rootInode s).1.map fun inode => (i, inode), (walk m.ops cs m.rootInode s).2)

theorem resolve_eq (v : Vfs σ) (path : Path) (s : σ) :
    v.resolve path s = v.resolveTarget (v.target path) s := by
  rw [resolve, resolveTarget, target]
  cases v.findMount path with
  | none => rfl
  | some r =>
    cases hm : v.mounts[r.1]? with
    | none => simp [hm]
    | some m =>
      simp only [Option.map_some, Option.bind_some, hm, components_eq]
      split
      · rename_i hroot
        have hnil : parts slash r.2 = [] := by
          rcases hroot with heq | heq <;> rw [heq]
          · rfl
          · exact parts_cons_self slash []
        rw [hnil]
        rfl
      · rcases walk m.ops (parts slash r.2) m.rootInode s with ⟨_ | _, _⟩ <;> rfl

/-- `resolve` of a path with a mount. -/
theorem resolve_of_target {path : Path} {i : Nat} {cs : List Path} {m : Mount σ}
    (ht : v.target path = some (i, cs)) (hm : v.mounts[i]? = some m) (s : σ) :
    v.resolve path s = ((walk m.ops cs m.rootInode s).1.map fun inode => (i, inode),
      (walk m.ops cs m.rootInode s).2) := by
  rw [resolve_eq, resolveTarget, ht]
  simp only [Option.bind_some, hm, Option.map_some]

/-- The inode that a path has, if any. -/
def Resolves (v : Vfs σ) (path : Path) (s : σ) (r : Nat × Nat) : Prop :=
  (v.resolve path s).1 = .ok r

theorem resolves_iff {path : Path} {i : Nat} {cs : List Path} {m : Mount σ}
    (ht : v.target path = some (i, cs)) (hm : v.mounts[i]? = some m) {s : σ} {r : Nat × Nat} :
    v.Resolves path s r ↔ r.1 = i ∧ (walk m.ops cs m.rootInode s).1 = .ok r.2 := by
  rw [Resolves, resolve_of_target ht hm]
  obtain ⟨j, inode⟩ := r
  cases (walk m.ops cs m.rootInode s).1 with
  | error e => simp [Except.map]
  | ok x => simp [Except.map, eq_comm]

/-- A path that has an inode has a target. -/
theorem Resolves.exists_target {path : Path} {s : σ} {r : Nat × Nat} (h : v.Resolves path s r) :
    ∃ cs m, v.target path = some (r.1, cs) ∧ v.mounts[r.1]? = some m ∧
      (walk m.ops cs m.rootInode s).1 = .ok r.2 := by
  cases ht : v.target path with
  | none =>
    rw [Resolves, resolve_eq, resolveTarget, ht] at h
    cases h
  | some t =>
    cases hm : v.mounts[t.1]? with
    | none =>
      rw [Resolves, resolve_eq, resolveTarget, ht, Option.bind_some, hm] at h
      cases h
    | some m =>
      obtain ⟨heq, hw⟩ := (resolves_iff ht hm).1 h
      exact ⟨t.2, m, by rw [heq], by rw [heq]; exact hm, hw⟩

/-- The mount of a path is that of its inode. -/
theorem Resolves.fst_eq {path : Path} {t : Nat × List Path} (ht : v.target path = some t) {s : σ}
    {r : Nat × Nat} (h : v.Resolves path s r) : r.1 = t.1 := by
  obtain ⟨cs, m, ht', -⟩ := h.exists_target
  exact congrArg Prod.fst (Option.some.inj (ht'.symm.trans ht))

end Vfs

/-! ## A filesystem as a part of the state -/

/-- A filesystem with other state in front of its own. -/
def FileOps.onLast {τ ρ : Type} (ops : FileOps τ) : FileOps (ρ × τ) where
  read s id offset buf := ((ops.read s.2 id offset buf).1, s.1, (ops.read s.2 id offset buf).2)
  write s id offset buf := ((ops.write s.2 id offset buf).1, s.1, (ops.write s.2 id offset buf).2)
  size s id := ops.size s.2 id
  fileType s id := ops.fileType s.2 id
  readdir s id := ((ops.readdir s.2 id).1, s.1, (ops.readdir s.2 id).2)
  lookup s id name := ((ops.lookup s.2 id name).1, s.1, (ops.lookup s.2 id name).2)
  create s id name := ((ops.create s.2 id name).1, s.1, (ops.create s.2 id name).2)
  mkdir s id name := ((ops.mkdir s.2 id name).1, s.1, (ops.mkdir s.2 id name).2)
  truncate s id size := ((ops.truncate s.2 id size).1, s.1, (ops.truncate s.2 id size).2)
  unlink s id name := ((ops.unlink s.2 id name).1, s.1, (ops.unlink s.2 id name).2)

namespace Tmpfs

variable {ρ : Type}

/-- The in-memory filesystem beside the devices and the rest of the state. -/
def rootOps : FileOps (Devices × ρ × Tmpfs) := ops.onLast.onRest

/-- It is mounted at `/`. -/
def rootMount : Mount (Devices × ρ × Tmpfs) := ⟨[slash], rootInode, rootOps⟩

theorem rootOps_lookup (s : Devices × ρ × Tmpfs) (d : Nat) (n : Path) :
    rootOps.lookup s d n = (s.2.2.lookup d n, s) := rfl

theorem rootOps_fileType (s : Devices × ρ × Tmpfs) (d : Nat) :
    rootOps.fileType s d = s.2.2.fileType d := rfl

/-- `mkdir` on the root filesystem. -/
theorem rootOps_mkdir_ok_iff {s s' : Devices × ρ × Tmpfs} {d x : Nat} {n : Path} :
    rootOps.mkdir s d n = (.ok x, s') ↔ s.2.2.CanAdd d n ∧ x = s.2.2.nextInode ∧
      s' = (s.1, s.2.1, s.2.2.link .directory d n) := by
  have hdef : rootOps.mkdir s d n =
      ((s.2.2.mkdir d n).1, s.1, s.2.1, (s.2.2.mkdir d n).2) := rfl
  rw [hdef, mkdir]
  rcases s.2.2.addInode_cases .directory "dir already exists" d n with
    ⟨hno, e, heq⟩ | ⟨hcan, heq⟩
  · rw [heq]
    simp [hno]
  · rw [heq]
    simp [hcan, eq_comm]

/-- The entry of a directory that a walk goes through. -/
def Enters (s : Tmpfs) (d : Nat) (n : Path) (c : Nat) : Prop :=
  s.fileType d = .directory ∧ s.Child d n c

theorem lookup_ok_iff {s : Tmpfs} {d c : Nat} {n : Path} :
    s.lookup d n = .ok c ↔ s.Enters d n c := by
  rw [Enters, lookup]
  cases hd : s.inodes[d]? with
  | none => simp [fileType, hd]
  | some i =>
    rw [child_iff hd, fileType_of_getElem? hd]
    by_cases hi : i.fileType = .directory
    · cases hc : i.children[n]? <;> simp [hi, hc]
    · simp [hi]

/-- A walk does not change the state. -/
theorem walk_state (cs : List Path) (d : Nat) (s : Devices × ρ × Tmpfs) :
    (Vfs.walk rootOps cs d s).2 = s := by
  induction cs generalizing d with
  | nil => rfl
  | cons c cs ih =>
    rw [Vfs.walk]
    split
    · rfl
    · rw [rootOps_lookup]
      cases s.2.2.lookup d c with
      | error e => rfl
      | ok x => exact ih x

/-- A walk follows the entries. -/
theorem walk_ok_iff {cs : List Path} {d x : Nat} {s : Devices × ρ × Tmpfs} :
    (Vfs.walk rootOps cs d s).1 = .ok x ↔ Follows s.2.2.Enters d cs x := by
  induction cs generalizing d with
  | nil => simp [Vfs.walk, Follows]
  | cons c cs ih =>
    rw [Vfs.walk, rootOps_lookup, rootOps_fileType]
    by_cases hd : s.2.2.fileType d = .directory
    · rw [if_neg (not_not.2 hd)]
      cases hl : s.2.2.lookup d c with
      | error e =>
        constructor
        · intro h
          cases h
        · rintro ⟨m, hm, -⟩
          rw [lookup_ok_iff.2 hm] at hl
          cases hl
      | ok y =>
        refine ih.trans ⟨fun h => ⟨y, lookup_ok_iff.1 hl, h⟩, ?_⟩
        rintro ⟨m, hm, h⟩
        rw [lookup_ok_iff.2 hm] at hl
        exact Except.ok.inj hl ▸ h
    · rw [if_pos hd]
      constructor
      · intro h
        cases h
      · rintro ⟨m, hm, -⟩
        exact absurd hm.1 hd

/-! ## Where the components lead -/

/-- No node has two entries. -/
theorem Inv.rootedTree {s : Tmpfs} (h : Inv s) : RootedTree s.Enters rootInode where
  unique ha hb := by
    obtain ⟨rfl, rfl⟩ := h.unique ha.2 hb.2
    exact ⟨rfl, rfl⟩
  top d n hc := h.root_top d n hc.2

theorem enters_unique {s : Tmpfs} {d c c' : Nat} {n : Path} (h : s.Enters d n c)
    (h' : s.Enters d n c') : c = c' := by
  obtain ⟨i, hi, hc⟩ := h.2
  exact Option.some.inj (hc.symm.trans ((child_iff hi).1 h'.2))

/-- Components lead to inodes. -/
theorem Inv.follows_mem {s : Tmpfs} (h : Inv s) {cs : List Path} {x : Nat}
    (hx : Follows s.Enters rootInode cs x) : x ∈ s.inodes := by
  rcases List.eq_nil_or_concat cs with rfl | ⟨cs, c, rfl⟩
  · exact hx ▸ h.root_mem
  · rw [List.concat_eq_append] at hx
    obtain ⟨m, -, hlast⟩ := follows_concat.1 hx
    exact h.present hlast.2

/-- A new directory or file is one edge more. -/
theorem Inv.addsLeaf {s : Tmpfs} (h : Inv s) {dir : Nat} {name : Path} (hcan : s.CanAdd dir name)
    (fileType : FileType) :
    AddsLeaf s.Enters (s.link fileType dir name).Enters dir name s.nextInode := by
  have hs := link_added s h.nextInode_not_mem hcan fileType
  have hmem : dir ∈ s.inodes := by
    obtain ⟨d, hd, -⟩ := hcan.getElem?
    exact mem_inodes_iff.2 ⟨d, hd⟩
  have hnone : ∀ {n c}, ¬ (s.link fileType dir name).Child s.nextInode n c := fun hc => by
    rcases hs.child.1 hc with hc | ⟨rfl, -⟩
    · exact h.nextInode_not_mem hc.mem
    · exact h.nextInode_not_mem hmem
  refine ⟨fun {a n b} => ⟨fun hab => ?_, fun hab => ?_⟩, fun n b hb => hnone hb.2⟩
  · rcases hs.child.1 hab.2 with hc | hnew
    · exact Or.inl ⟨hs.fileType a hc.mem ▸ hab.1, hc⟩
    · exact Or.inr hnew
  · rcases hab with hab | ⟨rfl, rfl, rfl⟩
    · exact ⟨(hs.fileType a hab.2.mem).trans hab.1, hs.child.2 (Or.inl hab.2)⟩
    · exact ⟨(hs.fileType _ hmem).trans hcan.1, hs.child.2 (Or.inr ⟨rfl, rfl, rfl⟩)⟩

theorem inv_of_steps {s : Tmpfs} (h : Steps NoWrap new s) : Inv s :=
  h.invariant (fun _ _ _ hs hok heq => heq ▸ (hs.exec hok).1) Inv.new

/-- For any list of components there is a run that makes a directory there. -/
theorem exists_follows (cs : List Path) (hlen : cs.length + 2 < 2 ^ 64) :
    ∃ s d, Steps NoWrap new s ∧ Follows s.Enters rootInode cs d ∧ s.fileType d = .directory ∧
      ∀ n c, ¬ s.Child d n c := by
  suffices h : ∃ s d, Steps NoWrap new s ∧ s.nextInode = cs.length + 2 ∧
      Follows s.Enters rootInode cs d ∧ s.fileType d = .directory ∧ ∀ n c, ¬ s.Child d n c by
    obtain ⟨s, d, hs, -, h⟩ := h
    exact ⟨s, d, hs, h⟩
  induction cs using List.reverseRecOn with
  | nil =>
    refine ⟨new, rootInode, Reaches.refl new, rfl, rfl, by decide +kernel, ?_⟩
    rintro n c ⟨i, hi, hc⟩
    obtain rfl := Option.some.inj (new_root.symm.trans hi)
    simp [emptyInode] at hc
  | append_singleton cs c ih =>
    rw [List.length_append, List.length_singleton] at hlen
    obtain ⟨s, d, hs, hnext, hd, hdir, hempty⟩ := ih (Nat.lt_of_succ_lt (by omega))
    have hinv := inv_of_steps hs
    have hcan : s.CanAdd d c := ⟨hdir, hempty c⟩
    have hleaf := hinv.addsLeaf hcan .directory
    have hexec : s.exec (.mkdir d c) = s.link .directory d c := by
      rcases s.addInode_cases .directory "dir already exists" d c with ⟨hno, -⟩ | ⟨-, heq⟩
      · exact absurd hcan hno
      · exact congrArg Prod.snd heq
    have hne : d ≠ s.nextInode := by
      rintro rfl
      obtain ⟨i, hi, -⟩ := hcan.getElem?
      exact hinv.nextInode_not_mem (mem_inodes_iff.2 ⟨i, hi⟩)
    have hget : (s.link .directory d c).inodes[s.nextInode]? = some (emptyInode .directory) :=
      s.link_getElem? hne .directory
    refine ⟨s.link .directory d c, s.nextInode, hs.snoc (e := .mkdir d c) ?_ hexec.symm, ?_, ?_,
      (fileType_of_getElem? hget).trans rfl, fun n x hx => ?_⟩
    · show s.nextInode + 1 < 2 ^ 64
      omega
    · rw [(link_added s hinv.nextInode_not_mem hcan .directory).nextInode, hnext, List.length_append,
        List.length_singleton, Nat.mod_eq_of_lt (by omega), Nat.add_right_comm]
    · exact hleaf.follows_iff.2 (Or.inr ⟨cs, rfl, hd, rfl⟩)
    · rw [child_iff hget] at hx
      simp [emptyInode] at hx

/-- A table with the root filesystem alone. -/
def rootOnly : Vfs (Devices × Unit × Tmpfs) := ⟨[rootMount]⟩

end Tmpfs

end AeroOS.Fs
