import AeroOS.Fs.Devfs
import AeroOS.Fs.Tmpfs
import AeroOS.Lib.Insertion

/-!
# The mount table

`mount` sorts the table after every insertion, the longest mount points first, and
`find_mount` takes the first mount that matches.

* `mountAll` is a table built by calls of `mount`; `mountAll_sorted` is its order.
* `findMount_longest`: with mount points of the usual form the first match is the
  longest one, and what is left of the path follows it.
* `handles_survive_iff`: a handle keeps the bare index of its mount, so it
  survives just the later mounts that go behind that mount.
-/

namespace AeroOS.Fs

open Insertion

/-- The order of the table: the longest mount points first. -/
abbrev Mount.Before {σ : Type} (a b : Mount σ) : Prop :=
  b.mountPoint.length ≤ a.mountPoint.length

instance {σ : Type} : IsTrans (Mount σ) Mount.Before := ⟨fun _ _ _ hab hbc => Nat.le_trans hbc hab⟩

instance {σ : Type} : Std.Total (Mount.Before (σ := σ)) := ⟨fun _ _ => Nat.le_total _ _⟩

/-- What `tmpfs::init` mounts. -/
def tmpfsMount : Mount (Devices × Tmpfs) := ⟨[slash], Tmpfs.rootInode, Tmpfs.ops.onRest⟩

/-- What `devfs::init` mounts, at `/dev`. -/
def devfsMount (disk : DiskIn Tmpfs) : Mount (Devices × Tmpfs) :=
  ⟨[0x2F, 0x64, 0x65, 0x76], Devfs.DIR_INODE, Devfs.ops disk⟩

/-- No disk. -/
def noDisk : DiskIn Tmpfs := ⟨fun _ => ⟨false, fun _ => 0⟩, fun _ s => s, fun _ => 0⟩

/-- The filesystems are two instances: they differ on inode 2. -/
theorem tmpfsMount_ops_ne (disk : DiskIn Tmpfs) : tmpfsMount.ops ≠ (devfsMount disk).ops := by
  intro h
  have htype : Tmpfs.new.fileType 2 = .charDevice :=
    congrArg (fun ops => ops.fileType (⟨none, .new, ⟨0, 0, 0⟩⟩, Tmpfs.new) 2) h
  revert htype
  decide +kernel

namespace Vfs

variable {σ : Type}

/-! ## The table -/

/-- `Vfs::new`. -/
def new : Vfs σ := ⟨[]⟩

/-- The table after calls of `mount`. -/
def mountAll (ms : List (Mount σ)) : Vfs σ :=
  ms.foldl (fun v m => v.mount m.mountPoint m.rootInode m.ops) new

theorem mount_mounts (v : Vfs σ) (m : Mount σ) :
    (v.mount m.mountPoint m.rootInode m.ops).mounts = insertLast Mount.Before v.mounts m := rfl

theorem mountAll_append (ms : List (Mount σ)) (m : Mount σ) :
    mountAll (ms ++ [m]) = (mountAll ms).mount m.mountPoint m.rootInode m.ops := by
  rw [mountAll, List.foldl_append]
  rfl

theorem perm_mountAll (ms : List (Mount σ)) : (mountAll ms).mounts.Perm ms := by
  induction ms using List.reverseRecOn with
  | nil => exact List.Perm.nil
  | append_singleton ms a ih =>
    rw [mountAll_append, mount_mounts]
    exact (perm_insertLast _ _).trans (ih.append_right [a])

theorem mountAll_sorted (ms : List (Mount σ)) : (mountAll ms).mounts.Pairwise Mount.Before := by
  induction ms using List.reverseRecOn with
  | nil => exact List.Pairwise.nil
  | append_singleton ms a _ =>
    rw [mountAll_append, mount_mounts]
    exact pairwise_insertLast _ _

/-- A mount point that stands later is not longer. -/
theorem length_le_of_le {ms : List (Mount σ)} {i j : Nat} {m m' : Mount σ}
    (hm : (mountAll ms).mounts[i]? = some m) (hm' : (mountAll ms).mounts[j]? = some m')
    (h : i ≤ j) : m'.mountPoint.length ≤ m.mountPoint.length := by
  obtain ⟨hi, rfl⟩ := List.getElem?_eq_some_iff.1 hm
  obtain ⟨hj, rfl⟩ := List.getElem?_eq_some_iff.1 hm'
  rcases Nat.eq_or_lt_of_le h with rfl | hlt
  · exact Nat.le_refl _
  · exact List.pairwise_iff_getElem.1 (mountAll_sorted ms) i j hi hj hlt

/-! ## The longest match -/

/-- A mount point of the usual form: it starts with a slash, and ends with one only
when it is `/`. -/
structure IsMountPoint (p : Path) : Prop where
  absolute : p.head? = some slash
  no_trailing : p.getLast? = some slash → p = [slash]

/-- `p` is the path, or a prefix of it that ends where a component ends. -/
def Under (p path : Path) : Prop :=
  ∃ rest, path = p ++ rest ∧ (rest = [] ∨ rest.head? = some slash ∨ p.getLast? = some slash)

theorem matched_iff {p : Path} (hp : IsMountPoint p) (path : Path) :
    matched p path = true ↔ Under p path := by
  rw [matched]
  split
  · rename_i hroot
    subst hroot
    rw [beq_iff_eq, Under]
    constructor
    · intro h
      obtain ⟨rest, rfl⟩ := List.head?_eq_some_iff.1 h
      exact ⟨rest, rfl, Or.inr (Or.inr rfl)⟩
    · rintro ⟨rest, rfl, -⟩
      rfl
  · rename_i hroot
    rw [Bool.or_eq_true, beq_iff_eq, List.isPrefixOf_iff_prefix]
    constructor
    · rintro (rfl | ⟨rest, rfl⟩)
      · exact ⟨[], (List.append_nil _).symm, Or.inl rfl⟩
      · exact ⟨slash :: rest, List.append_cons .. |>.symm, Or.inr (Or.inl rfl)⟩
    · rintro ⟨rest, rfl, rfl | hrest | hlast⟩
      · exact Or.inl (List.append_nil _)
      · obtain ⟨rest, rfl⟩ := List.head?_eq_some_iff.1 hrest
        exact Or.inr ⟨rest, (List.append_cons ..).symm⟩
      · exact absurd (hp.no_trailing hlast) hroot

/-- What is left of a path follows the mount point. -/
theorem append_relative {p path : Path} (h : Under p path) : p ++ relative p path = path := by
  obtain ⟨rest, rfl, -⟩ := h
  rw [relative]
  split
  · rename_i heq
    rw [List.append_nil, heq]
  · split
    · rename_i hroot
      subst hroot
      rfl
    · rw [List.drop_left]

/-- Two mount points of one length that a path lies under are the same. -/
theorem Under.eq_of_length {p q path : Path} (hp : Under p path) (hq : Under q path)
    (h : p.length = q.length) : p = q := by
  obtain ⟨rest, rfl, -⟩ := hp
  obtain ⟨rest', heq, -⟩ := hq
  exact (List.append_inj heq h).1

/-- `find_mount` answers the first mount that matches. -/
theorem findMount_eq_some {v : Vfs σ} {path rel : Path} {i : Nat} :
    v.findMount path = some (i, rel) ↔ ∃ m, v.mounts[i]? = some m ∧
      matched m.mountPoint path = true ∧ rel = relative m.mountPoint path ∧
        ∀ j m', j < i → v.mounts[j]? = some m' → matched m'.mountPoint path = false := by
  simp only [findMount, Option.map_eq_some_iff, List.findIdx?_eq_some_iff_getElem, Prod.mk.injEq]
  constructor
  · rintro ⟨j, ⟨hj, hmatch, hfirst⟩, rfl, rfl⟩
    refine ⟨v.mounts[j], List.getElem?_eq_getElem hj, hmatch, ?_, fun k m' hk hm' => ?_⟩
    · rw [List.getElem?_eq_getElem hj]
      rfl
    · obtain ⟨hk', rfl⟩ := List.getElem?_eq_some_iff.1 hm'
      simpa using hfirst k hk
  · rintro ⟨m, hm, hmatch, rfl, hfirst⟩
    obtain ⟨hi, rfl⟩ := List.getElem?_eq_some_iff.1 hm
    refine ⟨i, ⟨hi, hmatch, fun j hj => ?_⟩, rfl, by rw [hm]; rfl⟩
    rw [Bool.not_eq_true]
    exact hfirst j _ hj (List.getElem?_eq_getElem (hj.trans hi))

theorem findMount_eq_none {v : Vfs σ} {path : Path} :
    v.findMount path = none ↔ ∀ m ∈ v.mounts, matched m.mountPoint path = false := by
  rw [findMount, Option.map_eq_none_iff, List.findIdx?_eq_none_iff]

/-- `m` is the mount of the table with the longest mount point that the path lies under. -/
structure Longest (ms : List (Mount σ)) (path : Path) (m : Mount σ) : Prop where
  mem : m ∈ ms
  under : Under m.mountPoint path
  longest : ∀ m' ∈ ms, Under m'.mountPoint path → m' ≠ m →
    m'.mountPoint.length < m.mountPoint.length

/-- `find_mount` answers the mount with the longest mount point that the path lies under, and
what is left of the path behind it; it answers nothing just when there is none. -/
theorem findMount_longest {ms : List (Mount σ)} (hpoints : ∀ m ∈ ms, IsMountPoint m.mountPoint)
    (hdistinct : (ms.map (·.mountPoint)).Nodup) (path : Path) :
    ((mountAll ms).findMount path = none ↔ ∀ m ∈ ms, ¬ Under m.mountPoint path) ∧
      ∀ i rel, (mountAll ms).findMount path = some (i, rel) →
        ∃ m, (mountAll ms).mounts[i]? = some m ∧ Longest ms path m ∧
          m.mountPoint ++ rel = path := by
  have hmem : ∀ {m}, m ∈ (mountAll ms).mounts ↔ m ∈ ms := (perm_mountAll ms).mem_iff
  have hmatched : ∀ m ∈ ms, (matched m.mountPoint path = true ↔ Under m.mountPoint path) :=
    fun m hm => matched_iff (hpoints m hm) path
  constructor
  · rw [findMount_eq_none]
    refine ⟨fun h m hm => ?_, fun h m hm => ?_⟩
    · rw [← hmatched m hm, h m (hmem.2 hm)]
      exact Bool.false_ne_true
    · rw [← Bool.not_eq_true, hmatched m (hmem.1 hm)]
      exact h m (hmem.1 hm)
  · intro i rel h
    obtain ⟨m, hm, hmatch, rfl, hfirst⟩ := findMount_eq_some.1 h
    have hms : m ∈ ms := hmem.1 (List.mem_of_getElem? hm)
    have hunder := (hmatched m hms).1 hmatch
    refine ⟨m, hm, ⟨hms, hunder, fun m' hms' hunder' hne => ?_⟩, append_relative hunder⟩
    obtain ⟨j, hj⟩ := List.getElem?_of_mem (hmem.2 hms')
    have hij : i ≤ j := by
      by_contra hlt
      have hno := hfirst j m' (Nat.lt_of_not_le hlt) hj
      rw [(hmatched m' hms').2 hunder'] at hno
      cases hno
    refine Nat.lt_of_le_of_ne (length_le_of_le hm hj hij) fun heq => hne ?_
    exact List.inj_on_of_nodup_map hdistinct hms' hms (hunder'.eq_of_length hunder heq)

/-- `/dev/kbd` on the table of `/` and `/dev`. -/
theorem findMount_longest_dev :
    (mountAll [tmpfsMount, devfsMount noDisk]).findMount [0x2F, 0x64, 0x65, 0x76, 0x2F, 0x6B] =
        some (0, [0x2F, 0x6B]) ∧
      Longest [tmpfsMount, devfsMount noDisk] [0x2F, 0x64, 0x65, 0x76, 0x2F, 0x6B]
        (devfsMount noDisk) := by
  have hfind : (mountAll [tmpfsMount, devfsMount noDisk]).findMount
      [0x2F, 0x64, 0x65, 0x76, 0x2F, 0x6B] = some (0, [0x2F, 0x6B]) := rfl
  have hpoints : ∀ m ∈ [tmpfsMount, devfsMount noDisk], IsMountPoint m.mountPoint := by
    simp only [List.forall_mem_cons]
    exact ⟨⟨rfl, fun _ => rfl⟩, ⟨rfl, fun h => by revert h; decide⟩, fun _ h =>
      absurd h List.not_mem_nil⟩
  obtain ⟨m, hm, hlongest, -⟩ := (findMount_longest hpoints (by decide) _).2 _ _ hfind
  have hdev : devfsMount noDisk = m := Option.some.inj hm
  exact ⟨hfind, hdev ▸ hlongest⟩

/-! ## Handles -/

/-- A handle reaches the same filesystem and the same inode in both tables. -/
structure SameFile (v v' : Vfs σ) (file : VfsFile) : Prop where
  ops : (v'.mounts[file.mountIdx]?).map (·.ops) = (v.mounts[file.mountIdx]?).map (·.ops)
  read : ∀ buf s, v'.read file buf s = v.read file buf s
  write : ∀ buf s, v'.write file buf s = v.write file buf s
  size : ∀ s, v'.size file s = v.size file s

/-- The operations on a handle go by the mount at its index. -/
theorem sameFile_of_getElem? {v v' : Vfs σ} {file : VfsFile}
    (h : v'.mounts[file.mountIdx]? = v.mounts[file.mountIdx]?) : SameFile v v' file where
  ops := by rw [h]
  read buf s := by rw [Vfs.read, Vfs.read, h]
  write buf s := by rw [Vfs.write, Vfs.write, h]
  size s := by rw [Vfs.size, Vfs.size, h]

/-- A mount that goes behind the mount at an index leaves it there. -/
theorem mount_getElem? {ms : List (Mount σ)} {i : Nat} {m c : Mount σ}
    (hm : (mountAll ms).mounts[i]? = some m) (h : c.mountPoint.length ≤ m.mountPoint.length) :
    (mountAll (ms ++ [c])).mounts[i]? = some m := by
  rw [mountAll_append, mount_mounts]
  exact getElem?_of_rel (mountAll_sorted ms) hm h

/-- One that goes before it puts another filesystem at the index. -/
theorem mount_ops_ne {ms : List (Mount σ)} {i : Nat} {m c : Mount σ}
    (hown : ((ms ++ [c]).map (·.ops)).Nodup) (hm : (mountAll ms).mounts[i]? = some m)
    (h : ¬ c.mountPoint.length ≤ m.mountPoint.length) :
    ((mountAll (ms ++ [c])).mounts[i]?).map (·.ops) ≠ some m.ops := by
  intro heq
  have hnext : (mountAll (ms ++ [c])).mounts[i + 1]? = some m := by
    rw [mountAll_append, mount_mounts]
    exact getElem?_of_not_rel (mountAll_sorted ms) hm h
  have hnodup := (((perm_mountAll (ms ++ [c])).map (·.ops)).nodup_iff).2 hown
  have hmove : ((mountAll (ms ++ [c])).mounts.map (·.ops))[i + 1]? =
      ((mountAll (ms ++ [c])).mounts.map (·.ops))[i]? := by
    rw [List.getElem?_map, List.getElem?_map, hnext, heq]
    rfl
  have hi : i < ((mountAll (ms ++ [c])).mounts.map (·.ops)).length := by
    rw [List.length_map]
    exact Nat.lt_of_succ_lt (List.getElem?_eq_some_iff.1 hnext).1
  exact Nat.succ_ne_self i ((List.getElem?_inj hi hnodup).1 hmove.symm).symm

/-- Through later mounts a handle reaches its file just as long as no mount point is longer
than that of its own mount.  Each mount has a filesystem of its own. -/
theorem handles_survive_iff {ms later : List (Mount σ)}
    (hown : ((ms ++ later).map (·.ops)).Nodup) {file : VfsFile} {m : Mount σ}
    (hm : (mountAll ms).mounts[file.mountIdx]? = some m) :
    (∀ n ≤ later.length, SameFile (mountAll ms) (mountAll (ms ++ later.take n)) file) ↔
      ∀ c ∈ later, c.mountPoint.length ≤ m.mountPoint.length := by
  constructor
  · intro h c hc
    obtain ⟨n, hn, rfl⟩ := List.mem_iff_getElem.1 hc
    by_contra hlong
    have htake : ∀ k, (later.take k).Sublist later := fun k => List.take_sublist k later
    have hstep : ms ++ later.take (n + 1) = ms ++ later.take n ++ [later[n]] := by
      rw [List.take_succ_eq_append_getElem hn, List.append_assoc]
    have hsame : ∀ k ≤ later.length,
        ((mountAll (ms ++ later.take k)).mounts[file.mountIdx]?).map (·.ops) = some m.ops :=
      fun k hk => (h k hk).ops.trans (by rw [hm]; rfl)
    -- before this call the mount itself is at the index
    have hbefore : (mountAll (ms ++ later.take n)).mounts[file.mountIdx]? = some m := by
      obtain ⟨m', hm', hops⟩ := Option.map_eq_some_iff.1 (hsame n hn.le)
      rw [hm']
      refine congrArg some (List.inj_on_of_nodup_map hown ?_ ?_ hops)
      · exact ((htake n).append_left ms).subset
          ((perm_mountAll _).mem_iff.1 (List.mem_of_getElem? hm'))
      · exact List.mem_append_left later ((perm_mountAll ms).mem_iff.1 (List.mem_of_getElem? hm))
    refine mount_ops_ne ?_ hbefore hlong (hstep ▸ hsame (n + 1) hn)
    rw [← hstep]
    exact hown.sublist (((htake (n + 1)).append_left ms).map _)
  · intro h n hn
    refine sameFile_of_getElem? ?_
    rw [hm]
    induction n with
    | zero => rw [List.take_zero, List.append_nil, hm]
    | succ n ih =>
      rw [List.take_succ_eq_append_getElem hn, ← List.append_assoc]
      exact mount_getElem? (ih (Nat.le_of_succ_le hn)) (h _ (List.getElem_mem hn))

/-- A handle of a device outlives the mount of the root filesystem. -/
theorem handles_survive_iff_dev : SameFile (mountAll [devfsMount noDisk])
    (mountAll [devfsMount noDisk, tmpfsMount]) ⟨2, 0, 0, .charDevice⟩ := by
  have hown : (([devfsMount noDisk] ++ [tmpfsMount]).map (·.ops)).Nodup := by
    simpa using (tmpfsMount_ops_ne noDisk).symm
  have hat : (mountAll [devfsMount noDisk]).mounts[(⟨2, 0, 0, .charDevice⟩ : VfsFile).mountIdx]? =
      some (devfsMount noDisk) := rfl
  have hshort : ∀ c ∈ [tmpfsMount],
      c.mountPoint.length ≤ (devfsMount noDisk).mountPoint.length := by
    intro c hc
    obtain rfl := List.mem_singleton.1 hc
    decide
  exact (handles_survive_iff hown hat).2 hshort 1 le_rfl

/-- A file of the root filesystem is opened before `/dev` is mounted.  From then on its handle
stands for a device. -/
theorem not_sameFile_dev :
    (((mountAll [tmpfsMount]).openPath [slash, 0x61] true (⟨none, .new, ⟨0, 0, 0⟩⟩, Tmpfs.new)).1.map
        fun file => (file.mountIdx, file.inodeId)) = .ok (0, 2) ∧
      ¬ SameFile (mountAll [tmpfsMount]) (mountAll [tmpfsMount, devfsMount noDisk])
        ⟨2, 0, 0, .regular⟩ := by
  refine ⟨?_, fun h => tmpfsMount_ops_ne noDisk (Option.some.inj h.ops).symm⟩
  decide +kernel

end Vfs

end AeroOS.Fs
