import AeroOS.Fs.Vfs
import AeroOS.Lib.Bytes
import AeroOS.Lib.Run
import AeroOS.Lib.Tree

/-!
# The in-memory filesystem

`fs/tmpfs.rs`: a table of inodes by id, where a directory has its children by
name.  Ids come from a `u64` counter.  File data that does not fit in the heap is
outside the model.

* `Child s d n c`: directory `d` has the entry `n` for inode `c`.
* `Inv` is the invariant.  `Inv.exec` is the step, `Inv.isTree` what it says.
* `isTree_of_run` is the result for every run in which the counter does not wrap.
-/

namespace AeroOS.Fs

open Bytes Run

/-- The children of a directory, by name. -/
abbrev Children := Std.ExtTreeMap Path Nat compare

/-- `TmpfsInode`. -/
structure TmpfsInode where
  fileType : FileType
  data : List UInt8
  children : Children

/-- The state behind the lock, `TmpfsInner`. -/
structure Tmpfs where
  inodes : Std.ExtTreeMap Nat TmpfsInode compare
  nextInode : Nat

namespace Tmpfs

/-- The inode of the root directory. -/
def rootInode : Nat := 1

/-- A file or a directory with nothing in it. -/
def emptyInode (fileType : FileType) : TmpfsInode := ⟨fileType, [], ∅⟩

/-- `Tmpfs::new`. -/
def new : Tmpfs where
  inodes := (∅ : Std.ExtTreeMap Nat TmpfsInode compare).insert rootInode (emptyInode .directory)
  nextInode := 2

/-! ## The operations -/

/-- `Vec::resize` with zeros. -/
def resize (data : List UInt8) (n : Nat) : List UInt8 :=
  data.take n ++ List.replicate (n - data.length) 0

/-- `read`: the count and the buffer. -/
def read (s : Tmpfs) (id offset : Nat) (buf : List UInt8) : Except String (Nat × List UInt8) :=
  match s.inodes[id]? with
  | none => .error "inode not found"
  | some inode =>
    if inode.fileType ≠ .regular then .error "not a regular file"
    else if inode.data.length ≤ offset then .ok (0, buf)
    else
      let stop := min (offset + buf.length) inode.data.length
      .ok (stop - offset, patch buf 0 ((inode.data.take stop).drop offset))

/-- The state with another content of a file. -/
def setData (s : Tmpfs) (id : Nat) (f : List UInt8 → List UInt8) : Tmpfs :=
  { s with inodes := s.inodes.modify id fun i => { i with data := f i.data } }

/-- `write`. -/
def write (s : Tmpfs) (id offset : Nat) (buf : List UInt8) : Except String Nat × Tmpfs :=
  match s.inodes[id]? with
  | none => (.error "inode not found", s)
  | some inode =>
    if inode.fileType ≠ .regular then (.error "not a regular file", s)
    else
      let stop := offset + buf.length
      (.ok buf.length, s.setData id fun data =>
        patch (if data.length < stop then resize data stop else data) offset buf)

/-- `size`. -/
def size (s : Tmpfs) (id : Nat) : Nat := (s.inodes[id]?).elim 0 (·.data.length)

/-- `file_type`. -/
def fileType (s : Tmpfs) (id : Nat) : FileType := (s.inodes[id]?).elim .regular (·.fileType)

/-- `readdir`. -/
def readdir (s : Tmpfs) (id : Nat) : Except String (List DirEntry) :=
  match s.inodes[id]? with
  | none => .error "inode not found"
  | some inode =>
    if inode.fileType ≠ .directory then .error "not a directory"
    else .ok (inode.children.toList.map fun c => ⟨c.1, c.2, s.fileType c.2⟩)

/-- `lookup`. -/
def lookup (s : Tmpfs) (dir : Nat) (name : Path) : Except String Nat :=
  match s.inodes[dir]? with
  | none => .error "inode not found"
  | some d =>
    if d.fileType ≠ .directory then .error "not a directory"
    else (d.children[name]?).elim (.error "file not found") .ok

/-- The state with another table of children of a directory. -/
def setChildren (s : Tmpfs) (dir : Nat) (f : Children → Children) : Tmpfs :=
  { s with inodes := s.inodes.modify dir fun d => { d with children := f d.children } }

/-- The body of `create` and `mkdir`; they differ in the type of the inode and in one
message. -/
def addInode (fileType : FileType) (taken : String) (s : Tmpfs) (dir : Nat) (name : Path) :
    Except String Nat × Tmpfs :=
  match s.inodes[dir]? with
  | none => (.error "inode not found", s)
  | some d =>
    if d.fileType ≠ .directory then (.error "not a directory", s)
    else if name ∈ d.children then (.error taken, s)
    else
      let newId := s.nextInode
      let s : Tmpfs := ⟨s.inodes.insert newId (emptyInode fileType), (s.nextInode + 1) % 2 ^ 64⟩
      (.ok newId, s.setChildren dir (·.insert name newId))

/-- `create`. -/
def create : Tmpfs → Nat → Path → Except String Nat × Tmpfs :=
  addInode .regular "file already exists"

/-- `mkdir`. -/
def mkdir : Tmpfs → Nat → Path → Except String Nat × Tmpfs :=
  addInode .directory "dir already exists"

/-- `truncate`. -/
def truncate (s : Tmpfs) (id size : Nat) : Except String Unit × Tmpfs :=
  match s.inodes[id]? with
  | none => (.error "inode not found", s)
  | some inode =>
    if inode.fileType ≠ .regular then (.error "not a regular file", s)
    else (.ok (), s.setData id fun data => resize data size)

/-- `unlink`. -/
def unlink (s : Tmpfs) (dir : Nat) (name : Path) : Except String Unit × Tmpfs :=
  match s.inodes[dir]? with
  | none => (.error "inode not found", s)
  | some d =>
    if d.fileType ≠ .directory then (.error "not a directory", s)
    else
      match d.children[name]? with
      | none => (.error "file not found", s)
      | some child =>
        let s := s.setChildren dir (·.erase name)
        (.ok (), { s with inodes := s.inodes.erase child })

/-- The filesystem behind its trait. -/
def ops : FileOps Tmpfs where
  read s id offset buf := (s.read id offset buf, s)
  write := write
  size := size
  fileType := fileType
  readdir s id := (s.readdir id, s)
  lookup s dir name := (s.lookup dir name, s)
  create := create
  mkdir := mkdir
  truncate := truncate
  unlink := unlink

/-! ## What an operation does to the table -/

/-- The entry `n` of directory `d` names inode `c`. -/
def Child (s : Tmpfs) (d : Nat) (n : Path) (c : Nat) : Prop :=
  ∃ i, s.inodes[d]? = some i ∧ i.children[n]? = some c

/-- Some entry of `d` names `c`. -/
def Edge (s : Tmpfs) (d c : Nat) : Prop := ∃ n, s.Child d n c

theorem mem_inodes_iff {s : Tmpfs} {id : Nat} : id ∈ s.inodes ↔ ∃ i, s.inodes[id]? = some i := by
  rw [Std.ExtTreeMap.mem_iff_isSome_getElem?, Option.isSome_iff_exists]

theorem Child.mem {s : Tmpfs} {d c : Nat} {n : Path} (h : s.Child d n c) : d ∈ s.inodes := by
  obtain ⟨i, hi, -⟩ := h
  exact mem_inodes_iff.2 ⟨i, hi⟩

section ops

variable (s : Tmpfs)

theorem setData_getElem? (id x : Nat) (f : List UInt8 → List UInt8) :
    (s.setData id f).inodes[x]? =
      (s.inodes[x]?).map fun i => if x = id then { i with data := f i.data } else i := by
  rw [setData, Std.ExtTreeMap.getElem?_modify]
  by_cases hx : id = x
  · subst hx
    simp
  · simp [hx, Ne.symm hx]

theorem setChildren_getElem? (dir x : Nat) (f : Children → Children) :
    (s.setChildren dir f).inodes[x]? =
      (s.inodes[x]?).map fun i => if x = dir then { i with children := f i.children } else i := by
  rw [setChildren, Std.ExtTreeMap.getElem?_modify]
  by_cases hx : dir = x
  · subst hx
    simp
  · simp [hx, Ne.symm hx]

/-- Two states with the same names, ids and types. -/
structure SameNames (s s' : Tmpfs) : Prop where
  child : ∀ {d n c}, s'.Child d n c ↔ s.Child d n c
  mem : ∀ {id}, id ∈ s'.inodes ↔ id ∈ s.inodes
  fileType : ∀ id, s'.fileType id = s.fileType id
  nextInode : s'.nextInode = s.nextInode

theorem SameNames.refl : SameNames s s := ⟨Iff.rfl, Iff.rfl, fun _ => rfl, rfl⟩

theorem setData_sameNames (id : Nat) (f : List UInt8 → List UInt8) :
    SameNames s (s.setData id f) where
  child := by
    intro d n c
    simp only [Child, setData_getElem?, Option.map_eq_some_iff]
    constructor
    · rintro ⟨_, ⟨i, hi, rfl⟩, hc⟩
      refine ⟨i, hi, ?_⟩
      split at hc <;> exact hc
    · rintro ⟨i, hi, hc⟩
      refine ⟨_, ⟨i, hi, rfl⟩, ?_⟩
      split <;> exact hc
  mem := by
    intro x
    rw [mem_inodes_iff, mem_inodes_iff, setData_getElem?]
    cases s.inodes[x]? <;> simp
  fileType x := by
    rw [fileType, fileType, setData_getElem?]
    cases s.inodes[x]? with
    | none => rfl
    | some i =>
      simp only [Option.map_some, Option.elim_some]
      split <;> rfl
  nextInode := rfl

theorem write_sameNames (id offset : Nat) (buf : List UInt8) :
    SameNames s (s.write id offset buf).2 := by
  rw [write]
  split
  · exact .refl s
  split
  · exact .refl s
  · dsimp only
    exact setData_sameNames s id _

theorem truncate_sameNames (id size : Nat) : SameNames s (s.truncate id size).2 := by
  rw [truncate]
  split
  · exact .refl s
  split
  · exact .refl s
  · dsimp only
    exact setData_sameNames s id _

/-- The entry `n` of `dir` for the new inode `c` is added. -/
structure Added (s s' : Tmpfs) (dir : Nat) (name : Path) : Prop where
  child : ∀ {d n c}, s'.Child d n c ↔
    s.Child d n c ∨ d = dir ∧ n = name ∧ c = s.nextInode
  mem : ∀ {id}, id ∈ s'.inodes ↔ id ∈ s.inodes ∨ id = s.nextInode
  fileType : ∀ id, id ∈ s.inodes → s'.fileType id = s.fileType id
  nextInode : s'.nextInode = (s.nextInode + 1) % 2 ^ 64

/-- An entry `name` can be added to `dir`. -/
def CanAdd (dir : Nat) (name : Path) : Prop :=
  s.fileType dir = .directory ∧ ∀ c, ¬ s.Child dir name c

/-- The state with a new inode under a name. -/
def link (fileType : FileType) (dir : Nat) (name : Path) : Tmpfs :=
  setChildren ⟨s.inodes.insert s.nextInode (emptyInode fileType), (s.nextInode + 1) % 2 ^ 64⟩ dir
    (·.insert name s.nextInode)

theorem fileType_of_getElem? {s : Tmpfs} {dir : Nat} {d : TmpfsInode}
    (hd : s.inodes[dir]? = some d) : s.fileType dir = d.fileType := by
  rw [Tmpfs.fileType, hd]
  rfl

theorem child_iff {s : Tmpfs} {dir : Nat} {d : TmpfsInode} (hd : s.inodes[dir]? = some d)
    {name : Path} {c : Nat} : s.Child dir name c ↔ d.children[name]? = some c := by
  rw [Child, hd]
  simp

theorem CanAdd.getElem? {s : Tmpfs} {dir : Nat} {name : Path} (h : s.CanAdd dir name) :
    ∃ d, s.inodes[dir]? = some d ∧ d.fileType = .directory ∧ d.children[name]? = none := by
  obtain ⟨hdir, hfree⟩ := h
  cases hd : s.inodes[dir]? with
  | none =>
    rw [Tmpfs.fileType, hd] at hdir
    cases hdir
  | some d =>
    refine ⟨d, rfl, (fileType_of_getElem? hd).symm.trans hdir, ?_⟩
    exact Option.eq_none_iff_forall_ne_some.2 fun c hc => hfree c ((child_iff hd).2 hc)

/-- `create` and `mkdir` add the entry when it can be added, and else fail. -/
theorem addInode_cases (fileType : FileType) (taken : String) (dir : Nat) (name : Path) :
    (¬ s.CanAdd dir name ∧ ∃ e, addInode fileType taken s dir name = (.error e, s)) ∨
      s.CanAdd dir name ∧
        addInode fileType taken s dir name = (.ok s.nextInode, s.link fileType dir name) := by
  rw [addInode]
  cases hd : s.inodes[dir]? with
  | none =>
    refine Or.inl ⟨fun h => ?_, _, rfl⟩
    obtain ⟨d, hd', -⟩ := h.getElem?
    rw [hd] at hd'
    cases hd'
  | some d =>
    simp only
    split
    · rename_i hk
      exact Or.inl ⟨fun h => hk ((fileType_of_getElem? hd).symm.trans h.1), _, rfl⟩
    rename_i hk
    split
    · rename_i hmem
      obtain ⟨c, hc⟩ := Option.isSome_iff_exists.1 (Std.ExtTreeMap.mem_iff_isSome_getElem?.1 hmem)
      exact Or.inl ⟨fun h => h.2 c ((child_iff hd).2 hc), _, rfl⟩
    · rename_i hfree
      refine Or.inr ⟨⟨(fileType_of_getElem? hd).trans (not_not.1 hk), fun c hc => ?_⟩, rfl⟩
      have hnone : d.children[name]? = none := Std.ExtTreeMap.getElem?_eq_none hfree
      rw [child_iff hd, hnone] at hc
      cases hc

/-- The new inode is empty. -/
theorem link_getElem? {dir : Nat} {name : Path} (hdir : dir ≠ s.nextInode) (fileType : FileType) :
    (s.link fileType dir name).inodes[s.nextInode]? = some (emptyInode fileType) := by
  rw [link, setChildren_getElem?, Std.ExtTreeMap.getElem?_insert_self, Option.map_some,
    if_neg (Ne.symm hdir)]

/-- The entry is added when the next id is not in use. -/
theorem link_added {dir : Nat} {name : Path} (hnew : s.nextInode ∉ s.inodes)
    (hcan : s.CanAdd dir name) (fileType : FileType) :
    Added s (s.link fileType dir name) dir name := by
  obtain ⟨d, hd, -, hnochild⟩ := hcan.getElem?
  have hdir : dir ≠ s.nextInode := by
    rintro rfl
    exact hnew (mem_inodes_iff.2 ⟨d, hd⟩)
  have hnone : s.inodes[s.nextInode]? = none := Std.ExtTreeMap.getElem?_eq_none hnew
  refine ⟨?_, ?_, ?_, rfl⟩
  · intro x n c
    simp only [Child, link, setChildren_getElem?, Std.ExtTreeMap.getElem?_insert,
      Std.LawfulEqCmp.compare_eq_iff_eq, Option.map_eq_some_iff]
    by_cases hx : s.nextInode = x
    · -- the new inode has no children
      subst hx
      simp [hnone, hdir.symm, emptyInode]
    by_cases hxd : x = dir
    · subst hxd
      rw [if_neg hx, hd]
      simp only [Option.some.injEq, exists_eq_left', if_true, Std.ExtTreeMap.getElem?_insert,
        Std.LawfulEqCmp.compare_eq_iff_eq, true_and]
      by_cases hn : name = n
      · subst hn
        rw [if_pos rfl, hnochild]
        constructor
        · exact fun h => Or.inr ⟨rfl, (Option.some.inj h).symm⟩
        · rintro (h | ⟨-, rfl⟩)
          · cases h
          · rfl
      · simp only [hn, if_false, Ne.symm hn, false_and, or_false]
    · rw [if_neg hx]
      simp [hxd]
  · intro x
    rw [mem_inodes_iff, mem_inodes_iff, link, setChildren_getElem?, Std.ExtTreeMap.getElem?_insert]
    by_cases hx : s.nextInode = x
    · subst hx
      simp
    · simp only [Std.LawfulEqCmp.compare_eq_iff_eq, hx, if_false, Ne.symm hx, or_false]
      cases s.inodes[x]? <;> simp
  · intro x hx
    have hne : s.nextInode ≠ x := by
      rintro rfl
      exact hnew hx
    rw [Tmpfs.fileType, Tmpfs.fileType, link, setChildren_getElem?, Std.ExtTreeMap.getElem?_insert,
      if_neg (by simpa using hne)]
    cases s.inodes[x]? with
    | none => rfl
    | some i =>
      simp only [Option.map_some, Option.elim_some]
      split <;> rfl

/-- The entry `name` of `dir` and the inode it named are gone. -/
structure Removed (s s' : Tmpfs) (dir : Nat) (name : Path) (gone : Nat) : Prop where
  was : s.Child dir name gone
  child : ∀ {d n c}, s'.Child d n c ↔ s.Child d n c ∧ ¬ (d = dir ∧ n = name) ∧ d ≠ gone
  mem : ∀ {id}, id ∈ s'.inodes ↔ id ∈ s.inodes ∧ id ≠ gone
  fileType : ∀ id, id ≠ gone → s'.fileType id = s.fileType id
  nextInode : s'.nextInode = s.nextInode

/-- `unlink` fails, or removes an entry. -/
theorem unlink_cases (dir : Nat) (name : Path) :
    (∃ e, s.unlink dir name = (.error e, s)) ∨
      ∃ s' gone, s.unlink dir name = (.ok (), s') ∧ Removed s s' dir name gone := by
  rw [unlink]
  split
  · exact Or.inl ⟨_, rfl⟩
  rename_i d hd
  split
  · exact Or.inl ⟨_, rfl⟩
  split
  · exact Or.inl ⟨_, rfl⟩
  rename_i gone hgone
  refine Or.inr ⟨_, gone, rfl, ⟨d, hd, hgone⟩, ?_, ?_, ?_, rfl⟩
  · intro x n c
    simp only [Child, Std.ExtTreeMap.getElem?_erase, setChildren_getElem?,
      Std.LawfulEqCmp.compare_eq_iff_eq]
    by_cases hx : gone = x
    · simp [hx]
    rw [if_neg hx]
    simp only [Option.map_eq_some_iff, Ne.symm hx, ne_eq, not_false_iff, and_true]
    by_cases hxd : x = dir
    · subst hxd
      simp only [hd, Option.some.injEq, exists_eq_left', if_true, true_and,
        Std.ExtTreeMap.getElem?_erase, Std.LawfulEqCmp.compare_eq_iff_eq]
      by_cases hn : name = n
      · simp [hn]
      · simp [hn, Ne.symm hn]
    · simp [hxd]
  · intro x
    rw [mem_inodes_iff, mem_inodes_iff]
    simp only [Std.ExtTreeMap.getElem?_erase, setChildren_getElem?,
      Std.LawfulEqCmp.compare_eq_iff_eq]
    by_cases hx : gone = x
    · simp [hx]
    · rw [if_neg hx]
      simp [Ne.symm hx]
  · intro x hx
    rw [Tmpfs.fileType, Tmpfs.fileType]
    simp only [Std.ExtTreeMap.getElem?_erase, setChildren_getElem?,
      Std.LawfulEqCmp.compare_eq_iff_eq]
    rw [if_neg (Ne.symm hx)]
    cases s.inodes[x]? with
    | none => rfl
    | some i =>
      simp only [Option.map_some, Option.elim_some]
      split <;> rfl

end ops

/-! ## Runs -/

/-- An operation that changes the filesystem. -/
inductive Op where
  | create (dir : Nat) (name : Path)
  | mkdir (dir : Nat) (name : Path)
  | write (id offset : Nat) (buf : List UInt8)
  | truncate (id size : Nat)
  | unlink (dir : Nat) (name : Path)

/-- The state behind an operation, successful or not. -/
def exec (s : Tmpfs) : Op → Tmpfs
  | .create dir name => (s.create dir name).2
  | .mkdir dir name => (s.mkdir dir name).2
  | .write id offset buf => (s.write id offset buf).2
  | .truncate id size => (s.truncate id size).2
  | .unlink dir name => (s.unlink dir name).2

/-- An operation that takes an id leaves a counter that has not wrapped. -/
def NoWrap (s : Tmpfs) : Op → Prop
  | .create .. | .mkdir .. => s.nextInode + 1 < 2 ^ 64
  | _ => True

/-- Runs under a condition. -/
abbrev Steps (ok : Tmpfs → Op → Prop) : Tmpfs → Tmpfs → Prop :=
  Reaches (fun s op s' => s' = s.exec op) ok

/-- The filesystem is a tree, and its ids are below the counter. -/
structure IsTree (s : Tmpfs) : Prop where
  root_directory : s.fileType rootInode = .directory
  root_top : ∀ d n, ¬ s.Child d n rootInode
  present : ∀ {d n c}, s.Child d n c → c ∈ s.inodes
  unique : ∀ {d d' n n' c}, s.Child d n c → s.Child d' n' c → d = d' ∧ n = n'
  acyclic : ∀ l, (rootInode :: l).IsChain s.Edge → (rootInode :: l).Nodup
  below : ∀ {id}, id ∈ s.inodes → id < s.nextInode

/-- The invariant. -/
structure Inv (s : Tmpfs) : Prop where
  root_directory : s.fileType rootInode = .directory
  root_top : ∀ d n, ¬ s.Child d n rootInode
  present : ∀ {d n c}, s.Child d n c → c ∈ s.inodes
  unique : ∀ {d d' n n' c}, s.Child d n c → s.Child d' n' c → d = d' ∧ n = n'
  below : ∀ {id}, id ∈ s.inodes → id < s.nextInode

namespace Inv

variable {s s' : Tmpfs}

theorem rooted (h : Inv s) : Tree.Rooted s.Edge rootInode where
  unique := by
    rintro a b c ⟨n, hn⟩ ⟨n', hn'⟩
    exact (h.unique hn hn').1
  top := by
    rintro a ⟨n, hn⟩
    exact h.root_top a n hn

theorem isTree (h : Inv s) : IsTree s :=
  ⟨h.root_directory, h.root_top, h.present, h.unique, fun _ hl => h.rooted.nodup_of_isChain hl,
    h.below⟩

theorem root_mem (h : Inv s) : rootInode ∈ s.inodes := by
  rw [mem_inodes_iff]
  have hroot := h.root_directory
  rw [fileType] at hroot
  cases hr : s.inodes[rootInode]? with
  | none =>
    rw [hr] at hroot
    cases hroot
  | some i => exact ⟨i, rfl⟩

theorem nextInode_not_mem (h : Inv s) : s.nextInode ∉ s.inodes := fun hmem =>
  Nat.lt_irrefl _ (h.below hmem)

theorem new : Inv Tmpfs.new := by
  have hmem : ∀ id, id ∈ Tmpfs.new.inodes ↔ id = rootInode := fun id => by
    simp only [Tmpfs.new, Std.ExtTreeMap.mem_insert, Std.LawfulEqCmp.compare_eq_iff_eq]
    simp [eq_comm]
  have hchild : ∀ d n c, ¬ Tmpfs.new.Child d n c := by
    rintro d n c ⟨i, hi, hc⟩
    obtain rfl : d = rootInode := (hmem d).1 (mem_inodes_iff.2 ⟨i, hi⟩)
    rw [Tmpfs.new, Std.ExtTreeMap.getElem?_insert_self] at hi
    obtain rfl := Option.some.inj hi
    simp [emptyInode] at hc
  refine ⟨?_, fun d n => hchild d n _, fun h => absurd h (hchild _ _ _),
    fun h => absurd h (hchild _ _ _), fun hid => ?_⟩
  · rw [fileType, Tmpfs.new, Std.ExtTreeMap.getElem?_insert_self]
    rfl
  · rw [(hmem _).1 hid]
    decide

theorem of_sameNames (h : Inv s) (hs : SameNames s s') : Inv s' where
  root_directory := (hs.fileType _).trans h.root_directory
  root_top d n hc := h.root_top d n (hs.child.1 hc)
  present hc := hs.mem.2 (h.present (hs.child.1 hc))
  unique hc hc' := h.unique (hs.child.1 hc) (hs.child.1 hc')
  below hid := hs.nextInode ▸ h.below (hs.mem.1 hid)

theorem of_added (h : Inv s) {dir : Nat} {name : Path} (hs : Added s s' dir name)
    (hwrap : s.nextInode + 1 < 2 ^ 64) : Inv s' := by
  have hnext : s'.nextInode = s.nextInode + 1 := by rw [hs.nextInode, Nat.mod_eq_of_lt hwrap]
  have hnew : ∀ {d n}, ¬ s.Child d n s.nextInode := fun hc =>
    h.nextInode_not_mem (h.present hc)
  refine ⟨?_, fun d n hc => ?_, fun hc => ?_, fun hc hc' => ?_, fun hid => ?_⟩
  · rw [hs.fileType _ h.root_mem]
    exact h.root_directory
  · rcases hs.child.1 hc with hc | ⟨-, -, heq⟩
    · exact h.root_top d n hc
    · exact h.nextInode_not_mem (heq ▸ h.root_mem)
  · rw [hs.mem]
    exact (hs.child.1 hc).imp h.present fun hc => hc.2.2
  · rcases hs.child.1 hc with hc | ⟨rfl, rfl, rfl⟩ <;>
      rcases hs.child.1 hc' with hc' | ⟨rfl, rfl, heq⟩
    · exact h.unique hc hc'
    · exact absurd (heq ▸ hc) hnew
    · exact absurd hc' hnew
    · exact ⟨rfl, rfl⟩
  · rw [hnext]
    rcases hs.mem.1 hid with hid | rfl
    · exact Nat.lt_succ_of_lt (h.below hid)
    · exact Nat.lt_succ_self _

theorem of_removed (h : Inv s) {dir gone : Nat} {name : Path} (hs : Removed s s' dir name gone) :
    Inv s' := by
  refine ⟨?_, fun d n hc => h.root_top d n (hs.child.1 hc).1, fun hc => ?_,
    fun hc hc' => h.unique (hs.child.1 hc).1 (hs.child.1 hc').1, fun hid => ?_⟩
  · rw [hs.fileType]
    · exact h.root_directory
    · rintro rfl
      exact h.root_top _ _ hs.was
  · obtain ⟨hc, hne, -⟩ := hs.child.1 hc
    refine hs.mem.2 ⟨h.present hc, ?_⟩
    rintro rfl
    exact hne (h.unique hc hs.was)
  · rw [hs.nextInode]
    exact h.below (hs.mem.1 hid).1

/-- One step keeps the invariant and the counter does not go back; an id below the counter
that is not in use stays so. -/
theorem exec (h : Inv s) {op : Op} (hok : NoWrap s op) :
    Inv (s.exec op) ∧ s.nextInode ≤ (s.exec op).nextInode ∧
      ∀ id < s.nextInode, id ∉ s.inodes → id ∉ (s.exec op).inodes := by
  have hsame : ∀ {s'}, SameNames s s' → Inv s' ∧ s.nextInode ≤ s'.nextInode ∧
      ∀ id < s.nextInode, id ∉ s.inodes → id ∉ s'.inodes := fun hs =>
    ⟨h.of_sameNames hs, hs.nextInode.ge, fun _ _ hid hmem => hid (hs.mem.1 hmem)⟩
  have hadded : ∀ fileType taken dir name, s.nextInode + 1 < 2 ^ 64 →
      let s' := (addInode fileType taken s dir name).2
      Inv s' ∧ s.nextInode ≤ s'.nextInode ∧
        ∀ id < s.nextInode, id ∉ s.inodes → id ∉ s'.inodes := by
    intro fileType taken dir name hwrap
    rcases addInode_cases s fileType taken dir name with ⟨-, e, heq⟩ | ⟨hcan, heq⟩
    · rw [heq]
      exact hsame (.refl _)
    · rw [heq]
      have hs := link_added s h.nextInode_not_mem hcan fileType
      refine ⟨h.of_added hs hwrap, ?_, fun id hlt hid hmem => ?_⟩
      · rw [hs.nextInode, Nat.mod_eq_of_lt hwrap]
        exact Nat.le_succ _
      · rcases hs.mem.1 hmem with hmem | rfl
        · exact hid hmem
        · exact Nat.lt_irrefl _ hlt
  cases op with
  | create dir name => exact hadded _ _ dir name hok
  | mkdir dir name => exact hadded _ _ dir name hok
  | write id offset buf => exact hsame (write_sameNames s id offset buf)
  | truncate id size => exact hsame (truncate_sameNames s id size)
  | unlink dir name =>
    rcases unlink_cases s dir name with ⟨e, heq⟩ | ⟨s', gone, heq, hs⟩
    · rw [Tmpfs.exec, heq]
      exact hsame (.refl _)
    · rw [Tmpfs.exec, heq]
      exact ⟨h.of_removed hs, hs.nextInode.ge, fun _ _ hid hmem => hid (hs.mem.1 hmem).1⟩

end Inv

/-- An id that was given out and is not in use stays so. -/
theorem not_mem_of_steps {s s' : Tmpfs} (h : Steps NoWrap s s') (hinv : Inv s) {id : Nat}
    (hlt : id < s.nextInode) (hid : id ∉ s.inodes) : id ∉ s'.inodes := by
  have hall : Inv s' ∧ id < s'.nextInode ∧ id ∉ s'.inodes := by
    refine h.invariant (I := fun s => Inv s ∧ id < s.nextInode ∧ id ∉ s.inodes) ?_
      ⟨hinv, hlt, hid⟩
    rintro s op _ ⟨hinv, hlt, hid⟩ hok rfl
    obtain ⟨hinv', hle, hstay⟩ := hinv.exec hok
    exact ⟨hinv', hlt.trans_le hle, hstay id hlt hid⟩
  exact hall.2.2

/-- In every run in which the counter does not wrap the filesystem is a tree, and an id
that is removed is never in use again. -/
theorem isTree_of_run {s : Tmpfs} (h : Steps NoWrap new s) :
    IsTree s ∧ ∀ s₁ s₂ id, Steps NoWrap s s₁ → Steps NoWrap s₁ s₂ → id ∈ s.inodes →
      id ∉ s₁.inodes → id ∉ s₂.inodes := by
  have hstep : ∀ s op s', Inv s → NoWrap s op → s' = s.exec op → Inv s' :=
    fun s op s' hs hok heq => heq ▸ (hs.exec hok).1
  have hinv : Inv s := h.invariant hstep Inv.new
  refine ⟨hinv.isTree, fun s₁ s₂ id h₁ h₂ hid hgone => ?_⟩
  have hnext : s.nextInode ≤ s₁.nextInode ∧ Inv s₁ := by
    refine h₁.invariant (I := fun t => s.nextInode ≤ t.nextInode ∧ Inv t) ?_ ⟨Nat.le_refl _, hinv⟩
    rintro t op _ ⟨hle, ht⟩ hok rfl
    obtain ⟨ht', hle', -⟩ := ht.exec hok
    exact ⟨hle.trans hle', ht'⟩
  exact not_mem_of_steps h₂ hnext.2 ((hinv.below hid).trans_le hnext.1) hgone

/-- A file name. -/
def fileName : Path := [0x61]

theorem isTree_of_run_create :
    Steps NoWrap new (new.exec (.create rootInode fileName)) ∧
      IsTree (new.exec (.create rootInode fileName)) := by
  have hrun : Steps NoWrap new (new.exec (.create rootInode fileName)) :=
    (Reaches.refl new).snoc (e := .create rootInode fileName) (show 2 + 1 < 2 ^ 64 by decide) rfl
  exact ⟨hrun, (isTree_of_run hrun).1⟩

/-! ## The counter wraps -/

theorem new_root : new.inodes[rootInode]? = some (emptyInode .directory) := by
  rw [new, Std.ExtTreeMap.getElem?_insert_self]

/-- The table of a new filesystem with any counter. -/
def counted (k : Nat) : Tmpfs := ⟨new.inodes, k⟩

/-- The state after a file was created in the root directory. -/
theorem counted_create (k : Nat) (name : Path) :
    (counted k).exec (.create rootInode name) =
      setChildren ⟨new.inodes.insert k (emptyInode .regular), (k + 1) % 2 ^ 64⟩ rootInode
        (·.insert name k) := by
  simp only [exec, create, addInode, counted, new_root]
  rw [if_neg (by simp [emptyInode]), if_neg (by simp [emptyInode])]

theorem counted_create_root {k : Nat} (hk : k ≠ rootInode) (name : Path) :
    ((counted k).exec (.create rootInode name)).inodes[rootInode]? =
      some ⟨.directory, [], (∅ : Children).insert name k⟩ := by
  rw [counted_create, setChildren_getElem?, Std.ExtTreeMap.getElem?_insert,
    if_neg (by simpa using hk), new_root]
  rfl

/-- Creating a file in the root directory and removing it takes one id. -/
theorem counted_create_unlink {k : Nat} (hk : k ≠ rootInode) (name : Path) :
    ((counted k).exec (.create rootInode name)).exec (.unlink rootInode name) =
      counted ((k + 1) % 2 ^ 64) := by
  change (unlink _ rootInode name).2 = _
  rw [unlink, counted_create_root hk]
  simp only
  rw [if_neg (by simp), Std.ExtTreeMap.getElem?_insert_self]
  simp only [counted_create]
  refine congrArg₂ Tmpfs.mk (Std.ExtTreeMap.ext_getElem? fun x => ?_) rfl
  rw [Std.ExtTreeMap.getElem?_erase, setChildren_getElem?, setChildren_getElem?,
    Std.ExtTreeMap.getElem?_insert]
  simp only [Std.LawfulEqCmp.compare_eq_iff_eq]
  by_cases hxk : k = x
  · rw [if_pos hxk, new, Std.ExtTreeMap.getElem?_insert, if_neg (by simpa [← hxk] using hk.symm)]
    simp
  · rw [if_neg hxk, if_neg hxk, new, Std.ExtTreeMap.getElem?_insert]
    by_cases hx : rootInode = x
    · have hchildren : ((∅ : Children).insert name k).erase name = ∅ := by
        refine Std.ExtTreeMap.ext_getElem? fun n => ?_
        rw [Std.ExtTreeMap.getElem?_erase, Std.ExtTreeMap.getElem?_insert]
        simp
      subst hx
      simp [emptyInode, hchildren]
    · simp [hx]

/-- A file that is created and removed again and again. -/
theorem steps_counted (n : Nat) (hn : n + 2 < 2 ^ 64) :
    Steps (fun _ _ => True) new (counted (n + 2)) := by
  induction n with
  | zero => exact Reaches.refl _
  | succ n ih =>
    have hstep := counted_create_unlink (k := n + 2) (by unfold rootInode; omega) fileName
    rw [Nat.mod_eq_of_lt (by omega)] at hstep
    exact ((ih (by omega)).snoc trivial rfl).snoc trivial hstep.symm

/-- At id 1 a file takes the place of the root directory. -/
theorem root_regular {s : Tmpfs} {d : TmpfsInode} {name : Path}
    (hroot : s.inodes[rootInode]? = some d) (hd : d.fileType = .directory)
    (hfree : name ∉ d.children) (hnext : s.nextInode = rootInode) :
    (s.exec (.create rootInode name)).fileType rootInode = .regular := by
  simp only [exec, create, addInode, hroot, hd]
  rw [if_neg (by simp), if_neg hfree, fileType, setChildren_getElem?, hnext,
    Std.ExtTreeMap.getElem?_insert_self]
  rfl

/-- After 2 ^ 64 - 2 files the counter is 0: the next file but one takes the place of the
root directory. -/
theorem not_isTree_wrapped :
    ¬ ∀ s, Steps (fun _ _ => True) new s → IsTree s := by
  intro h
  have hlast := steps_counted (2 ^ 64 - 3) (by decide)
  have hwrap : Steps (fun _ _ => True) new (counted 0) :=
    (hlast.snoc trivial rfl).snoc trivial
      (counted_create_unlink (k := 2 ^ 64 - 1) (by decide) fileName).symm
  have hrun := (hwrap.snoc (e := .create rootInode fileName) trivial rfl).snoc
    (e := .create rootInode [0x62]) trivial rfl
  have hroot := (h _ hrun).root_directory
  rw [root_regular (counted_create_root (by decide) fileName) rfl (by decide +kernel)
    (by rw [counted_create]; rfl)] at hroot
  cases hroot

end Tmpfs

end AeroOS.Fs
