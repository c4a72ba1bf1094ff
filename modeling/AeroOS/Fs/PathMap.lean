import AeroOS.Fs.Contents
import AeroOS.Fs.Paths

/-!
# The in-memory filesystem as a map of paths

What `fs/tmpfs.rs` is for: a map from paths to directories and byte arrays.
Inode ids, tables of children and the counter do not show.

* `PathMap` is the map, and `PathMap.perform` an operation on it.
* `Tmpfs.performAt` is the operation on the filesystem: the loop of `resolve`,
  then the call with the inode that it found.
* `Tmpfs.view` is the map of a filesystem, and `performAt_refines` one operation.
* `performAt_answers` is the result for any sequence of operations.
-/

namespace AeroOS.Fs

open Bytes Labelled Run

/-! ## The map -/

/-- What a path names. -/
inductive Node where
  | directory
  | file (data : List UInt8)
  deriving DecidableEq

/-- `file_type` of what a path names. -/
def Node.fileType : Node → FileType
  | .directory => .directory
  | .file _ => .regular

/-- `size` of what a path names. -/
def Node.size : Node → Nat
  | .directory => 0
  | .file data => data.length

/-- What each list of components names. -/
abbrev PathMap := List Path → Option Node

/-- An operation on what a list of components names.  Offsets and sizes are words. -/
inductive PathOp where
  | create (dir : List Path) (name : Path)
  | mkdir (dir : List Path) (name : Path)
  | unlink (dir : List Path) (name : Path)
  | write (file : List Path) (offset : Nat) (buf : List UInt8) (fits : offset + buf.length < 2 ^ 64)
  | truncate (file : List Path) (size : Nat) (fits : size < 2 ^ 64)
  | read (file : List Path) (offset : Nat) (buf : List UInt8) (fits : offset + buf.length < 2 ^ 64)
  | stat (path : List Path)
  | readdir (dir : List Path)

/-- What an operation answers.  The entries of a directory are given by name. -/
inductive PathAnswer where
  | done
  | data (answer : Answer)
  | stat (fileType : FileType) (size : Nat)
  | entries (fileType : Path → Option FileType)
  | failed

namespace PathMap

/-- The map of an empty filesystem. -/
def empty : PathMap := Function.update (fun _ => none) [] (some .directory)

/-- The map without a path and all that is below it. -/
def prune (v : PathMap) (path : List Path) : PathMap := fun cs =>
  if path <+: cs then none else v cs

/-- A new entry of a directory. -/
def add (v : PathMap) (dir : List Path) (name : Path) (node : Node) : PathAnswer × PathMap :=
  if v dir = some .directory ∧ v (dir ++ [name]) = none then
    (.done, Function.update v (dir ++ [name]) (some node))
  else (.failed, v)

/-- An operation on the map. -/
def perform (v : PathMap) : PathOp → PathAnswer × PathMap
  | .create dir name => v.add dir name (.file [])
  | .mkdir dir name => v.add dir name .directory
  | .unlink dir name =>
    if v dir = some .directory ∧ v (dir ++ [name]) ≠ none then (.done, v.prune (dir ++ [name]))
    else (.failed, v)
  | .write file offset buf _ =>
    match v file with
    | some (.file old) =>
      (.data (.wrote buf.length), Function.update v file (some (.file (overlay old offset buf))))
    | _ => (.failed, v)
  | .truncate file size _ =>
    match v file with
    | some (.file old) => (.data .truncated, Function.update v file (some (.file (cutTo old size))))
    | _ => (.failed, v)
  | .read file offset buf _ =>
    match v file with
    | some (.file old) =>
      let bytes := slice old offset buf.length
      (.data (.got bytes.length (bytes ++ buf.drop bytes.length)), v)
    | _ => (.failed, v)
  | .stat path =>
    match v path with
    | some node => (.stat node.fileType node.size, v)
    | none => (.failed, v)
  | .readdir dir =>
    if v dir = some .directory then (.entries fun name => (v (dir ++ [name])).map Node.fileType, v)
    else (.failed, v)

end PathMap

/-! ## The filesystem -/

namespace Tmpfs

/-- The loop of `resolve` over the components of a path. -/
def find (s : Tmpfs) (cs : List Path) : Except String Nat := (Vfs.walk ops cs rootInode s).1

/-- A call with an inode, where the components lead to one. -/
def callAt {α : Type} (s : Tmpfs) (cs : List Path) (call : Nat → Except String α × Tmpfs)
    (answer : α → PathAnswer) : PathAnswer × Tmpfs :=
  match s.find cs with
  | .error _ => (.failed, s)
  | .ok id =>
    match call id with
    | (.ok a, s) => (answer a, s)
    | (.error _, s) => (.failed, s)

/-- An operation on the filesystem. -/
def performAt (s : Tmpfs) : PathOp → PathAnswer × Tmpfs
  | .create dir name => s.callAt dir (fun d => s.create d name) fun _ => .done
  | .mkdir dir name => s.callAt dir (fun d => s.mkdir d name) fun _ => .done
  | .unlink dir name => s.callAt dir (fun d => s.unlink d name) fun _ => .done
  | .write file offset buf _ =>
    s.callAt file (fun id => s.write id offset buf) fun n => .data (.wrote n)
  | .truncate file size _ => s.callAt file (fun id => s.truncate id size) fun _ => .data .truncated
  | .read file offset buf _ =>
    s.callAt file (fun id => (s.read id offset buf, s)) fun r => .data (.got r.1 r.2)
  | .stat path =>
    s.callAt path (fun id => (.ok id, s)) fun id => .stat (s.fileType id) (s.size id)
  | .readdir dir =>
    s.callAt dir (fun d => (s.readdir d, s)) fun es =>
      .entries fun name => (es.find? fun e => e.name = name).map DirEntry.fileType

/-- What an inode is. -/
def node (s : Tmpfs) (id : Nat) : Option Node :=
  (s.inodes[id]?).map fun i => if i.fileType = .directory then .directory else .file i.data

/-- The map of the filesystem. -/
def view (s : Tmpfs) : PathMap := fun cs =>
  match s.find cs with
  | .ok id => s.node id
  | .error _ => none

/-! ## What the components lead to -/

variable {s s' : Tmpfs} {cs dir file : List Path} {name : Path} {d x : Nat}

theorem find_ok_iff : s.find cs = .ok x ↔ Follows s.Enters rootInode cs x := by
  have hwalk : ∀ cs d, (Vfs.walk ops cs d s).1 = .ok x ↔ Follows s.Enters d cs x := by
    intro cs
    induction cs with
    | nil => exact fun d => by simp [Vfs.walk, Follows]
    | cons c cs ih =>
      intro d
      have hlookup : ops.lookup s d c = (s.lookup d c, s) := rfl
      have htype : ops.fileType s d = s.fileType d := rfl
      rw [Vfs.walk, hlookup, htype]
      by_cases hd : s.fileType d = .directory
      · rw [if_neg (not_not.2 hd)]
        cases hl : s.lookup d c with
        | error e =>
          constructor
          · intro h
            cases h
          · rintro ⟨m, hm, -⟩
            rw [lookup_ok_iff.2 hm] at hl
            cases hl
        | ok y =>
          refine (ih y).trans ⟨fun h => ⟨y, lookup_ok_iff.1 hl, h⟩, ?_⟩
          rintro ⟨m, hm, h⟩
          rw [lookup_ok_iff.2 hm] at hl
          exact Except.ok.inj hl ▸ h
      · rw [if_pos hd]
        constructor
        · intro h
          cases h
        · rintro ⟨m, hm, -⟩
          exact absurd hm.1 hd
  exact hwalk cs rootInode

theorem view_of_follows (h : Follows s.Enters rootInode cs x) : s.view cs = s.node x := by
  rw [view, find_ok_iff.2 h]

theorem view_of_not_follows (h : ∀ x, ¬ Follows s.Enters rootInode cs x) : s.view cs = none := by
  rw [view]
  cases hf : s.find cs with
  | error e => rfl
  | ok x => exact absurd (find_ok_iff.1 hf) (h x)

/-- The paths of two filesystems that lead to like inodes name the same. -/
theorem view_congr (hfollows : ∀ x, Follows s'.Enters rootInode cs x ↔ Follows s.Enters rootInode cs x)
    (hnode : ∀ x, Follows s.Enters rootInode cs x → s'.node x = s.node x) :
    s'.view cs = s.view cs := by
  by_cases h : ∃ x, Follows s.Enters rootInode cs x
  · obtain ⟨x, hx⟩ := h
    rw [view_of_follows hx, view_of_follows ((hfollows x).2 hx), hnode x hx]
  · have hno : ∀ x, ¬ Follows s.Enters rootInode cs x := fun x hx => h ⟨x, hx⟩
    rw [view_of_not_follows hno, view_of_not_follows fun x hx => hno x ((hfollows x).1 hx)]

theorem node_of_getElem? {i : TmpfsInode} (hi : s.inodes[x]? = some i) :
    s.node x = some (if i.fileType = .directory then .directory else .file i.data) := by
  rw [node, hi]
  rfl

theorem node_directory_iff : s.node x = some .directory ↔ s.fileType x = .directory := by
  rw [node, fileType]
  cases s.inodes[x]? with
  | none => simp
  | some i =>
    simp only [Option.map_some, Option.elim_some, Option.some.injEq]
    split
    · rename_i hi
      simp [hi]
    · rename_i hi
      simp [hi]

/-- A table of children does not show. -/
theorem setChildren_node (f : Children → Children) : (s.setChildren d f).node x = s.node x := by
  rw [node, node, setChildren_getElem?]
  cases s.inodes[x]? with
  | none => rfl
  | some i =>
    simp only [Option.map_some]
    split <;> rfl

/-- Where the inodes are files and directories, and directories have no data. -/
def Plain (s : Tmpfs) : Prop := ∀ (id : Nat) (i : TmpfsInode), s.inodes[id]? = some i →
  i.fileType = .regular ∨ i.fileType = .directory ∧ i.data = []

theorem Plain.new : Plain Tmpfs.new := by
  intro id i hi
  rw [Tmpfs.new, Std.ExtTreeMap.getElem?_insert] at hi
  split at hi
  · cases hi
    exact Or.inr ⟨rfl, rfl⟩
  · simp at hi

theorem Plain.setChildren (h : Plain s) (f : Children → Children) : Plain (s.setChildren d f) := by
  intro id i hi
  rw [setChildren_getElem?] at hi
  obtain ⟨j, hj, rfl⟩ := Option.map_eq_some_iff.1 hi
  have hj' := h id j hj
  split <;> exact hj'

theorem Plain.setData (h : Plain s) {i : TmpfsInode} (hi : s.inodes[x]? = some i)
    (hk : i.fileType = .regular) (f : List UInt8 → List UInt8) : Plain (s.setData x f) := by
  intro id j hj
  rw [setData_getElem?] at hj
  obtain ⟨k, hk', rfl⟩ := Option.map_eq_some_iff.1 hj
  split
  · rename_i hid
    subst hid
    cases hi.symm.trans hk'
    exact Or.inl hk
  · exact h id k hk'

theorem Plain.link (h : Plain s) {fileType : FileType}
    (hk : fileType = .regular ∨ fileType = .directory) : Plain (s.link fileType d name) := by
  refine Plain.setChildren (fun id i hi => ?_) _
  rw [Std.ExtTreeMap.getElem?_insert] at hi
  split at hi
  · cases hi
    exact hk.imp_right fun hdir => ⟨hdir, rfl⟩
  · exact h id i hi

theorem Plain.erase (h : Plain s) (id : Nat) : Plain { s with inodes := s.inodes.erase id } := by
  intro x i hi
  rw [Std.ExtTreeMap.getElem?_erase] at hi
  split at hi
  · cases hi
  · exact h x i hi

theorem Plain.write (h : Plain s) (id offset : Nat) (buf : List UInt8) :
    Plain (s.write id offset buf).2 := by
  unfold Tmpfs.write
  split
  · exact h
  · rename_i i hi
    split
    · exact h
    · rename_i hk
      exact h.setData hi (not_not.1 hk) _

theorem Plain.truncate (h : Plain s) (id size : Nat) : Plain (s.truncate id size).2 := by
  unfold Tmpfs.truncate
  split
  · exact h
  · rename_i i hi
    split
    · exact h
    · rename_i hk
      exact h.setData hi (not_not.1 hk) _

/-! ## One operation -/

section Steps

variable (hI : Inv s)
include hI

theorem Inv.find_inj {ds : List Path} (h : Follows s.Enters rootInode cs x)
    (h' : Follows s.Enters rootInode ds x) : cs = ds := hI.rootedTree.follows_inj h h'

/-- A path that leads somewhere names something. -/
theorem Inv.view_ne_none (h : Follows s.Enters rootInode cs x) : s.view cs ≠ none := by
  obtain ⟨i, hi⟩ := mem_inodes_iff.1 (hI.follows_mem h)
  rw [view_of_follows h, node_of_getElem? hi]
  exact Option.some_ne_none _

omit hI in
/-- What an entry of a directory names. -/
theorem view_entry (hd : Follows s.Enters rootInode dir d) (hdir : s.fileType d = .directory) :
    (∀ c, s.Child d name c → s.view (dir ++ [name]) = s.node c) ∧
      ((∀ c, ¬ s.Child d name c) → s.view (dir ++ [name]) = none) := by
  refine ⟨fun c hc => view_of_follows (follows_concat.2 ⟨d, hd, hdir, hc⟩), fun hno => ?_⟩
  refine view_of_not_follows fun x hx => ?_
  obtain ⟨m, hm, hlast⟩ := follows_concat.1 hx
  obtain rfl := follows_unique (R := s.Enters) (fun h h' => enters_unique h h') hm hd
  exact hno x hlast.2

theorem Inv.view_entry_none_iff (hd : Follows s.Enters rootInode dir d)
    (hdir : s.fileType d = .directory) :
    s.view (dir ++ [name]) = none ↔ ∀ c, ¬ s.Child d name c := by
  refine ⟨fun h c hc => ?_, (view_entry hd hdir).2⟩
  exact hI.view_ne_none (follows_concat.2 ⟨d, hd, hdir, hc⟩) h

theorem Inv.canAdd_iff (hd : Follows s.Enters rootInode dir d) :
    s.CanAdd d name ↔ s.view dir = some .directory ∧ s.view (dir ++ [name]) = none := by
  rw [CanAdd, view_of_follows hd, node_directory_iff]
  exact and_congr_right fun hdir => (hI.view_entry_none_iff hd hdir).symm

/-- A new inode is one path more. -/
theorem Inv.view_link (hd : Follows s.Enters rootInode dir d) (hcan : s.CanAdd d name)
    (fileType : FileType) :
    (s.link fileType d name).view = Function.update s.view (dir ++ [name])
      (some (if fileType = .directory then .directory else .file [])) := by
  have hleaf := hI.addsLeaf hcan fileType
  have hne : d ≠ s.nextInode := fun he => hI.nextInode_not_mem (he ▸ hI.follows_mem hd)
  funext cs
  by_cases hcs : cs = dir ++ [name]
  · subst hcs
    rw [Function.update_self, view_of_follows (hleaf.follows_iff.2 (Or.inr ⟨dir, rfl, hd, rfl⟩)),
      node_of_getElem? (s.link_getElem? hne fileType)]
    rfl
  · rw [Function.update_of_ne hcs]
    refine view_congr (fun x => hleaf.follows_iff.trans (or_iff_left ?_)) fun x hx => ?_
    · rintro ⟨ms, rfl, hms, -⟩
      exact hcs (hI.find_inj hms hd ▸ rfl)
    · have hx' : s.nextInode ≠ x := fun he => hI.nextInode_not_mem (he ▸ hI.follows_mem hx)
      rw [link, setChildren_node, node, node, Std.ExtTreeMap.getElem?_insert,
        if_neg (by simpa using hx')]

/-- `create` and `mkdir`. -/
theorem Inv.add_refines {fileType : FileType} {taken : String}
    {call : Nat → Except String Nat × Tmpfs} {node : Node}
    (hcall : ∀ d, call d = addInode fileType taken s d name)
    (hnode : node = if fileType = .directory then .directory else .file []) :
    s.view.add dir name node =
      ((s.callAt dir call fun _ => .done).1, (s.callAt dir call fun _ => .done).2.view) := by
  unfold PathMap.add callAt
  cases hf : s.find dir with
  | error e =>
    have hno : s.view dir = none := by rw [view, hf]
    rw [if_neg (by simp [hno])]
  | ok d =>
    have hd := find_ok_iff.1 hf
    simp only [hcall]
    rcases addInode_cases s fileType taken d name with ⟨hno, e, heq⟩ | ⟨hcan, heq⟩
    · rw [if_neg (mt (hI.canAdd_iff hd).2 hno), heq]
    · rw [if_pos ((hI.canAdd_iff hd).1 hcan), heq, hI.view_link hd hcan, hnode]

omit hI in
/-- `unlink` removes an entry that there is. -/
theorem unlink_of_enters {c : Nat} (h : s.Enters d name c) : s.unlink d name =
    (.ok (), { s.setChildren d (·.erase name) with
      inodes := (s.setChildren d (·.erase name)).inodes.erase c }) := by
  obtain ⟨hdir, i, hi, hc⟩ := h
  rw [fileType_of_getElem? hi] at hdir
  simp only [unlink, hi, hdir, hc]
  rw [if_neg (by simp)]

omit hI in
theorem unlink_of_not_enters (h : ∀ c, ¬ s.Enters d name c) :
    ∃ e, s.unlink d name = (.error e, s) := by
  unfold unlink
  split
  · exact ⟨_, rfl⟩
  rename_i i hi
  split
  · exact ⟨_, rfl⟩
  rename_i hdir
  split
  · exact ⟨_, rfl⟩
  · rename_i c hc
    exact absurd ⟨(fileType_of_getElem? hi).trans (not_not.1 hdir), i, hi, hc⟩ (h c)

/-- An entry that is removed takes the paths through it along. -/
theorem Inv.view_unlink {c : Nat} (hd : Follows s.Enters rootInode dir d)
    (hc : s.Enters d name c) : (s.unlink d name).2.view = s.view.prune (dir ++ [name]) := by
  have hcs : Follows s.Enters rootInode (dir ++ [name]) c := follows_concat.2 ⟨d, hd, hc⟩
  have hprune : Prunes s.Enters (s.unlink d name).2.Enters d name c := by
    rcases s.unlink_cases d name with ⟨e, heq⟩ | ⟨s', gone, heq, hrem⟩
    · rw [unlink_of_enters hc] at heq
      cases heq
    · rw [heq]
      obtain rfl := enters_unique hc ⟨hc.1, hrem.was⟩
      refine ⟨hc, fun {a l b} => ⟨fun ⟨hdir, hab⟩ => ?_, fun ⟨⟨hdir, hab⟩, hne, hac⟩ => ?_⟩⟩
      · obtain ⟨hab, hne, hac⟩ := hrem.child.1 hab
        exact ⟨⟨hrem.fileType a hac ▸ hdir, hab⟩, hne, hac⟩
      · exact ⟨(hrem.fileType a hac).trans hdir, hrem.child.2 ⟨hab, hne, hac⟩⟩
  have hfollows := fun {x ls} =>
    hprune.follows_iff hI.rootedTree (fun h h' => enters_unique h h') hd x ls
  funext cs
  unfold PathMap.prune
  split
  · rename_i hp
    exact view_of_not_follows fun x hx => (hfollows.1 hx).2 hp
  · rename_i hp
    refine view_congr (fun x => hfollows.trans (and_iff_left hp)) fun x hx => ?_
    have hxc : c ≠ x := by
      rintro rfl
      exact hp (hI.find_inj hx hcs ▸ List.prefix_rfl)
    rw [unlink_of_enters hc]
    refine Eq.trans ?_ (setChildren_node (s := s) (d := d) fun t => t.erase name)
    rw [node, node, Std.ExtTreeMap.getElem?_erase, if_neg (by simpa using hxc)]

theorem Inv.unlink_refines : s.view.perform (.unlink dir name) =
    ((s.performAt (.unlink dir name)).1, (s.performAt (.unlink dir name)).2.view) := by
  rw [PathMap.perform, performAt, callAt]
  cases hf : s.find dir with
  | error e =>
    have hno : s.view dir = none := by rw [view, hf]
    rw [if_neg (by simp [hno])]
  | ok d =>
    have hd := find_ok_iff.1 hf
    have hiff : s.view dir = some .directory ∧ s.view (dir ++ [name]) ≠ none ↔
        ∃ c, s.Enters d name c := by
      rw [view_of_follows hd, node_directory_iff]
      constructor
      · rintro ⟨hdir, hne⟩
        rw [ne_eq, hI.view_entry_none_iff hd hdir, not_forall_not] at hne
        exact hne.imp fun c hc => ⟨hdir, hc⟩
      · rintro ⟨c, hdir, hc⟩
        exact ⟨hdir, fun h => (hI.view_entry_none_iff hd hdir).1 h c hc⟩
    by_cases hc : ∃ c, s.Enters d name c
    · obtain ⟨c, hc⟩ := hc
      rw [if_pos (hiff.2 ⟨c, hc⟩), ← hI.view_unlink hd hc]
      simp only [unlink_of_enters hc]
    · obtain ⟨e, heq⟩ := unlink_of_not_enters (not_exists.1 hc)
      rw [if_neg (mt hiff.1 hc)]
      simp only [heq]

/-- What a file is after a call on its data. -/
theorem Inv.view_setData (hf : Follows s.Enters rootInode file x) {i : TmpfsInode}
    (hi : s.inodes[x]? = some i) (hk : i.fileType = .regular) (f : List UInt8 → List UInt8) :
    (s.setData x f).view = Function.update s.view file (some (.file (f i.data))) := by
  have hsame := setData_sameNames s x f
  have henters : (s.setData x f).Enters = s.Enters := by
    funext d n c
    rw [Enters, Enters, hsame.fileType, hsame.child]
  funext cs
  by_cases hcs : cs = file
  · subst hcs
    have hx : (s.setData x f).inodes[x]? = some { i with data := f i.data } := by
      rw [setData_getElem?, hi, Option.map_some, if_pos rfl]
    rw [Function.update_self, view_of_follows (henters ▸ hf), node_of_getElem? hx,
      if_neg (by simp [hk])]
  · rw [Function.update_of_ne hcs]
    refine view_congr (fun y => by rw [henters]) fun y hy => ?_
    have hyx : y ≠ x := by
      rintro rfl
      exact hcs (hI.find_inj hy hf)
    rw [node, node, setData_getElem?]
    cases s.inodes[y]? with
    | none => rfl
    | some j => rw [Option.map_some, if_neg hyx]

variable (hP : Plain s)
include hP

/-- What a path names is a file, a directory or nothing, as the inode is. -/
theorem Inv.view_cases (hf : Follows s.Enters rootInode cs x) : ∃ i, s.inodes[x]? = some i ∧
    (i.fileType = .regular ∧ s.view cs = some (.file i.data) ∨
      i.fileType = .directory ∧ i.data = [] ∧ s.view cs = some .directory) := by
  obtain ⟨i, hi⟩ := mem_inodes_iff.1 (hI.follows_mem hf)
  refine ⟨i, hi, ?_⟩
  rw [view_of_follows hf, node_of_getElem? hi]
  rcases hP x i hi with hk | ⟨hk, hdata⟩
  · exact Or.inl ⟨hk, by rw [if_neg (by simp [hk])]⟩
  · exact Or.inr ⟨hk, hdata, by rw [if_pos hk]⟩

theorem Inv.write_refines {offset : Nat} {buf : List UInt8} (fits : offset + buf.length < 2 ^ 64) :
    s.view.perform (.write file offset buf fits) =
      ((s.performAt (.write file offset buf fits)).1,
        (s.performAt (.write file offset buf fits)).2.view) := by
  rw [PathMap.perform, performAt, callAt]
  cases hf : s.find file with
  | error e => simp [view, hf]
  | ok x =>
    have hx := find_ok_iff.1 hf
    obtain ⟨i, hi, ⟨hk, hv⟩ | ⟨hk, -, hv⟩⟩ := hI.view_cases hP hx
    · simp only [hv, write_regular hi hk, hI.view_setData hx hi hk]
    · have herr : ∃ e, s.write x offset buf = (.error e, s) := by
        simp only [write, hi, hk]
        exact ⟨_, if_pos (by simp)⟩
      obtain ⟨e, he⟩ := herr
      simp only [hv, he]

theorem Inv.truncate_refines {size : Nat} (fits : size < 2 ^ 64) :
    s.view.perform (.truncate file size fits) =
      ((s.performAt (.truncate file size fits)).1,
        (s.performAt (.truncate file size fits)).2.view) := by
  rw [PathMap.perform, performAt, callAt]
  cases hf : s.find file with
  | error e => simp [view, hf]
  | ok x =>
    have hx := find_ok_iff.1 hf
    obtain ⟨i, hi, ⟨hk, hv⟩ | ⟨hk, -, hv⟩⟩ := hI.view_cases hP hx
    · simp only [hv, truncate_regular hi hk, hI.view_setData hx hi hk]
    · have herr : ∃ e, s.truncate x size = (.error e, s) := by
        simp only [truncate, hi, hk]
        exact ⟨_, if_pos (by simp)⟩
      obtain ⟨e, he⟩ := herr
      simp only [hv, he]

theorem Inv.read_refines {offset : Nat} {buf : List UInt8} (fits : offset + buf.length < 2 ^ 64) :
    s.view.perform (.read file offset buf fits) =
      ((s.performAt (.read file offset buf fits)).1,
        (s.performAt (.read file offset buf fits)).2.view) := by
  rw [PathMap.perform, performAt, callAt]
  cases hf : s.find file with
  | error e => simp [view, hf]
  | ok x =>
    have hx := find_ok_iff.1 hf
    obtain ⟨i, hi, ⟨hk, hv⟩ | ⟨hk, -, hv⟩⟩ := hI.view_cases hP hx
    · simp only [hv, read_regular hi hk]
    · have herr : ∃ e, s.read x offset buf = .error e := by
        simp only [read, hi, hk]
        exact ⟨_, if_pos (by simp)⟩
      obtain ⟨e, he⟩ := herr
      simp only [hv, he]

theorem Inv.stat_refines : s.view.perform (.stat cs) =
    ((s.performAt (.stat cs)).1, (s.performAt (.stat cs)).2.view) := by
  rw [PathMap.perform, performAt, callAt]
  cases hf : s.find cs with
  | error e => simp [view, hf]
  | ok x =>
    have hx := find_ok_iff.1 hf
    obtain ⟨i, hi, hcase⟩ := hI.view_cases hP hx
    have htype : s.fileType x = i.fileType := fileType_of_getElem? hi
    have hsize : s.size x = i.data.length := by
      rw [size, hi]
      rfl
    rcases hcase with ⟨hk, hv⟩ | ⟨hk, hdata, hv⟩
    · simp only [hv, htype, hk, hsize]
      rfl
    · simp only [hv, htype, hk, hsize, hdata]
      rfl

omit hI hP in
/-- The entry of a listing with a name. -/
theorem find?_readdir (children : Children) (f : Nat → FileType) (name : Path) :
    ((children.toList.map fun c => (⟨c.1, c.2, f c.2⟩ : DirEntry)).find? fun e =>
      e.name = name).map DirEntry.fileType = (children[name]?).map f := by
  have hp : ((fun e : DirEntry => decide (e.name = name)) ∘ fun c : Path × Nat => ⟨c.1, c.2, f c.2⟩) =
      fun c => compare c.1 name == .eq := by
    funext c
    rw [Function.comp_apply, Bool.eq_iff_iff, decide_eq_true_iff, beq_iff_eq,
      Std.LawfulEqCmp.compare_eq_iff_eq]
  rw [List.find?_map, hp, Option.map_map]
  cases hc : children[name]? with
  | none =>
    have hno : name ∉ children := fun hmem => by
      rw [Std.ExtTreeMap.mem_iff_isSome_getElem?, hc] at hmem
      cases hmem
    rw [Std.ExtTreeMap.find?_toList_eq_none_iff_not_mem.2 hno]
    rfl
  | some c =>
    have hmem : name ∈ children := by
      rw [Std.ExtTreeMap.mem_iff_isSome_getElem?, hc]
      rfl
    have hkey : children.getKey? name = some name := Std.ExtTreeMap.getKey?_eq_some hmem
    rw [Std.ExtTreeMap.find?_toList_eq_some_iff_getKey?_eq_some_and_getElem?_eq_some.2 ⟨hkey, hc⟩]
    rfl

theorem Inv.readdir_refines : s.view.perform (.readdir dir) =
    ((s.performAt (.readdir dir)).1, (s.performAt (.readdir dir)).2.view) := by
  rw [PathMap.perform, performAt, callAt]
  cases hf : s.find dir with
  | error e => simp [view, hf]
  | ok d =>
    have hd := find_ok_iff.1 hf
    obtain ⟨i, hi, ⟨hk, hv⟩ | ⟨hk, -, hv⟩⟩ := hI.view_cases hP hd
    · simp [hv, readdir, hi, hk]
    · have hdir : s.fileType d = .directory := (fileType_of_getElem? hi).trans hk
      simp only [hv, if_true, readdir, hi, hk, ne_eq, not_true_eq_false, if_false, find?_readdir]
      refine congrArg₂ Prod.mk (congrArg PathAnswer.entries (funext fun name => ?_)) rfl
      have hsome (c : Nat) (hc : s.Child d name c) : s.view (dir ++ [name]) = s.node c :=
        (view_entry hd hdir).1 c hc
      have hnone (hno : ∀ c, ¬ s.Child d name c) : s.view (dir ++ [name]) = none :=
        (view_entry hd hdir).2 hno
      cases hc : i.children[name]? with
      | none =>
        rw [hnone fun c hchild => by
          rw [child_iff hi, hc] at hchild
          cases hchild]
        rfl
      | some c =>
        have hchild : s.Child d name c := (child_iff hi).2 hc
        obtain ⟨j, hj⟩ := mem_inodes_iff.1 (hI.present hchild)
        rw [hsome c hchild, node_of_getElem? hj, Option.map_some, Option.map_some,
          fileType_of_getElem? hj]
        rcases hP c j hj with hk | ⟨hk, -⟩ <;> rw [hk] <;> rfl

/-- An operation on the filesystem is one on its map. -/
theorem Inv.performAt_refines (op : PathOp) :
    s.view.perform op = ((s.performAt op).1, (s.performAt op).2.view) := by
  cases op with
  | create dir name => exact hI.add_refines (fun _ => rfl) rfl
  | mkdir dir name => exact hI.add_refines (fun _ => rfl) rfl
  | unlink dir name => exact hI.unlink_refines
  | write file offset buf fits => exact hI.write_refines hP fits
  | truncate file size fits => exact hI.truncate_refines hP fits
  | read file offset buf fits => exact hI.read_refines hP fits
  | stat path => exact hI.stat_refines hP
  | readdir dir => exact hI.readdir_refines hP

end Steps

/-! ## Sequences of operations -/

/-- A call changes the state as it does with the inode that was found. -/
theorem callAt_state {α : Type} (s : Tmpfs) (cs : List Path) (call : Nat → Except String α × Tmpfs)
    (answer : α → PathAnswer) :
    (s.callAt cs call answer).2 = s ∨ ∃ id, (s.callAt cs call answer).2 = (call id).2 := by
  unfold callAt
  split
  · exact Or.inl rfl
  · rename_i id _
    refine Or.inr ⟨id, ?_⟩
    rcases call id with ⟨_ | _, _⟩ <;> rfl

theorem performAt_exec (s : Tmpfs) (op : PathOp) :
    (s.performAt op).2 = s ∨ ∃ o : Op, (s.performAt op).2 = s.exec o := by
  cases op with
  | create dir name =>
    exact (s.callAt_state dir _ _).imp_right fun ⟨d, h⟩ => ⟨.create d name, h⟩
  | mkdir dir name =>
    exact (s.callAt_state dir _ _).imp_right fun ⟨d, h⟩ => ⟨.mkdir d name, h⟩
  | unlink dir name =>
    exact (s.callAt_state dir _ _).imp_right fun ⟨d, h⟩ => ⟨.unlink d name, h⟩
  | write file offset buf fits =>
    exact (s.callAt_state file _ _).imp_right fun ⟨id, h⟩ => ⟨.write id offset buf, h⟩
  | truncate file size fits =>
    exact (s.callAt_state file _ _).imp_right fun ⟨id, h⟩ => ⟨.truncate id size, h⟩
  | read file offset buf fits => exact Or.inl ((s.callAt_state file _ _).elim id fun ⟨_, h⟩ => h)
  | stat path => exact Or.inl ((s.callAt_state path _ _).elim id fun ⟨_, h⟩ => h)
  | readdir dir => exact Or.inl ((s.callAt_state dir _ _).elim id fun ⟨_, h⟩ => h)

/-- An operation takes one id at most. -/
theorem exec_nextInode_le (s : Tmpfs) (o : Op) : (s.exec o).nextInode ≤ s.nextInode + 1 := by
  have hadd : ∀ fileType taken dir name,
      (addInode fileType taken s dir name).2.nextInode ≤ s.nextInode + 1 := by
    intro fileType taken dir name
    rcases s.addInode_cases fileType taken dir name with ⟨-, e, heq⟩ | ⟨-, heq⟩
    · rw [heq]
      exact Nat.le_succ _
    · rw [heq]
      exact Nat.mod_le _ _
  cases o with
  | create dir name => exact hadd _ _ dir name
  | mkdir dir name => exact hadd _ _ dir name
  | write id offset buf => exact (write_sameNames s id offset buf).nextInode.le.trans (Nat.le_succ _)
  | truncate id size => exact (truncate_sameNames s id size).nextInode.le.trans (Nat.le_succ _)
  | unlink dir name =>
    rcases s.unlink_cases dir name with ⟨e, heq⟩ | ⟨s', gone, heq, hs⟩
    · rw [exec, heq]
      exact Nat.le_succ _
    · rw [exec, heq]
      exact hs.nextInode.le.trans (Nat.le_succ _)

theorem Plain.exec (h : Plain s) (o : Op) : Plain (s.exec o) := by
  have hadd : ∀ fileType taken dir name, fileType = .regular ∨ fileType = .directory →
      Plain (addInode fileType taken s dir name).2 := by
    intro fileType taken dir name hk
    rcases s.addInode_cases fileType taken dir name with ⟨-, e, heq⟩ | ⟨-, heq⟩
    · rw [heq]
      exact h
    · rw [heq]
      exact h.link hk
  cases o with
  | create dir name => exact hadd _ _ dir name (Or.inl rfl)
  | mkdir dir name => exact hadd _ _ dir name (Or.inr rfl)
  | write id offset buf => exact h.write id offset buf
  | truncate id size => exact h.truncate id size
  | unlink dir name =>
    by_cases hc : ∃ c, s.Enters dir name c
    · obtain ⟨c, hc⟩ := hc
      rw [Tmpfs.exec, unlink_of_enters hc]
      exact (h.setChildren _).erase c
    · obtain ⟨e, heq⟩ := unlink_of_not_enters (not_exists.1 hc)
      rw [Tmpfs.exec, heq]
      exact h

/-- The state can take `n` more operations. -/
structure Ready (s : Tmpfs) (n : Nat) : Prop where
  inv : Inv s
  plain : Plain s
  ids : s.nextInode + n < 2 ^ 64

theorem Ready.exec {n : Nat} (h : Ready s (n + 1)) (o : Op) : Ready (s.exec o) n := by
  have hids := h.ids
  have hwrap : NoWrap s o := by
    cases o with
    | create | mkdir => exact show s.nextInode + 1 < 2 ^ 64 by omega
    | write | truncate | unlink => trivial
  have hle := s.exec_nextInode_le o
  exact ⟨(h.inv.exec hwrap).1, h.plain.exec o, by omega⟩

theorem Ready.step {n : Nat} (h : Ready s (n + 1)) (op : PathOp) : Ready (s.performAt op).2 n := by
  rcases s.performAt_exec op with heq | ⟨o, heq⟩
  · have hids := h.ids
    rw [heq]
    exact ⟨h.inv, h.plain, by omega⟩
  · rw [heq]
    exact h.exec o

theorem Ready.answers {n : Nat} {l : List PathOp} (h : Ready s (l.length + n)) :
    Ready (answers performAt s l).2 n := by
  induction l generalizing s with
  | nil =>
    rw [List.length_nil, Nat.zero_add] at h
    exact h
  | cons op l ih =>
    rw [List.length_cons, Nat.add_right_comm] at h
    exact ih (h.step op)

/-- A sequence of operations answers as on the map, and leaves the map. -/
theorem Ready.answers_refines {l : List PathOp} (h : Ready s l.length) :
    Run.answers PathMap.perform s.view l =
      ((Run.answers performAt s l).1, (Run.answers performAt s l).2.view) :=
  answers_refines_of (I := Ready)
    (fun _ op _ h => ⟨h.inv.performAt_refines h.plain op, h.step op⟩) h

theorem new_ready {n : Nat} (hn : n + 2 < 2 ^ 64) : Ready new n :=
  ⟨Inv.new, Plain.new, show 2 + n < 2 ^ 64 by omega⟩

theorem new_view : new.view = PathMap.empty := by
  funext cs
  unfold PathMap.empty
  cases cs with
  | nil =>
    rw [Function.update_self, view_of_follows (show Follows new.Enters rootInode [] rootInode from rfl),
      node_of_getElem? new_root]
    rfl
  | cons n cs =>
    rw [Function.update_of_ne (List.cons_ne_nil n cs)]
    refine view_of_not_follows fun x hx => ?_
    obtain ⟨m, hm, -⟩ := hx
    have hc := (child_iff new_root).1 hm.2
    simp [emptyInode] at hc

/-- Any sequence of operations on a new filesystem answers as on a map of paths, and leaves
the map. -/
theorem performAt_answers (l : List PathOp) (hl : l.length + 2 < 2 ^ 64) :
    answers PathMap.perform PathMap.empty l =
      ((answers performAt new l).1, (answers performAt new l).2.view) := by
  rw [← new_view]
  exact (new_ready hl).answers_refines

/-- A program is stored and read back. -/
theorem performAt_answers_stored :
    answers PathMap.perform PathMap.empty [.mkdir [] [0x62], .create [[0x62]] fileName,
        .write [[0x62], fileName] 0 [7, 8] (by decide), .read [[0x62], fileName] 1 [0] (by decide)] =
      ((answers performAt new [.mkdir [] [0x62], .create [[0x62]] fileName,
        .write [[0x62], fileName] 0 [7, 8] (by decide),
        .read [[0x62], fileName] 1 [0] (by decide)]).1,
      (answers performAt new [.mkdir [] [0x62], .create [[0x62]] fileName,
        .write [[0x62], fileName] 0 [7, 8] (by decide),
        .read [[0x62], fileName] 1 [0] (by decide)]).2.view) :=
  performAt_answers _ (by decide)

end Tmpfs

/-! ## Files that are left alone -/

/-- The operation changes neither what the path names nor what is above it. -/
def PathOp.Spares (path : List Path) : PathOp → Prop
  | .create dir name | .mkdir dir name => dir ++ [name] ≠ path
  | .unlink dir name => ¬ dir ++ [name] <+: path
  | .write file _ _ _ | .truncate file _ _ => file ≠ path
  | .read .. | .stat _ | .readdir _ => True

namespace PathMap

theorem perform_spares (v : PathMap) {path : List Path} {op : PathOp} (h : op.Spares path) :
    (v.perform op).2 path = v path := by
  have hadd : ∀ {dir name node}, dir ++ [name] ≠ path → (v.add dir name node).2 path = v path := by
    intro dir name node hne
    unfold add
    split
    · exact Function.update_of_ne (Ne.symm hne) _ _
    · rfl
  cases op with
  | create dir name => exact hadd h
  | mkdir dir name => exact hadd h
  | unlink dir name =>
    rw [perform]
    split
    · exact if_neg h
    · rfl
  | write file offset buf fits =>
    rw [perform]
    split
    · exact Function.update_of_ne (Ne.symm h) _ _
    · rfl
  | truncate file size fits =>
    rw [perform]
    split
    · exact Function.update_of_ne (Ne.symm h) _ _
    · rfl
  | read file offset buf fits =>
    rw [perform]
    split <;> rfl
  | stat cs =>
    rw [perform]
    split <;> rfl
  | readdir dir =>
    rw [perform]
    split <;> rfl

theorem answers_spares (v : PathMap) {path : List Path} {l : List PathOp}
    (h : ∀ op ∈ l, op.Spares path) : (answers perform v l).2 path = v path :=
  answers_keeps (R := fun v w : PathMap => w path = v path) (fun _ => rfl)
    (fun {_ _ _} h h' => Eq.trans h' h) (fun v op hop => v.perform_spares (h op hop)) v

end PathMap

namespace Tmpfs

end Tmpfs

end AeroOS.Fs
