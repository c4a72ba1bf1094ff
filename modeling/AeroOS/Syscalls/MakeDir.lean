import AeroOS.Fs.Resolution
import AeroOS.Syscalls.Dispatch
import Mathlib.Data.List.Find

/-!
# Making directories by path

`sys_mkdir` of `syscalls/mod.rs` and `mkdir` of `fs/tmpfs.rs` split a path at its
last slash, each with code of its own.

* `MakesDir` is what both do with the two pieces.
* `mkdirs_agree_iff`: the pieces are the same, and with them the calls, unless the
  last slash is the first byte.
* `TmpfsRooted` is a table with the in-memory filesystem at `/` and others beside it,
  and `makesDir_iff` says what is made there.
* `mkdir_makesNew_iff`: `sys_mkdir` makes the path it was given, unless the path ends
  with a slash and an entry with an empty name can be added.
-/

namespace AeroOS.Fs

open Separated

/-! ## The calls of the kernel -/

/-- `split_parent_name` of `fs/tmpfs.rs`. -/
def tmpfsSplitParentName (path : Path) : Path × Path :=
  match Vfs.rfindSlash path with
  | some 0 => ([slash], path.drop 1)
  | some i => (path.take i, path.drop (i + 1))
  | none => ([slash], path)

/-- `mkdir` of `fs/tmpfs.rs`. -/
def tmpfsMkdir {σ : Type} (v : Vfs σ) (path : Path) (s : σ) : Except String Unit × σ :=
  match v.findMount path with
  | none => (.error "no mount", s)
  | some (idx, _) =>
    match v.resolve (tmpfsSplitParentName path).1 s with
    | (.error e, s) => (.error e, s)
    | (.ok (_, parent), s) =>
      match v.mounts[idx]? with
      | none => (.error "no mount", s)
      | some m =>
        match m.ops.mkdir s parent (tmpfsSplitParentName path).2 with
        | (.error e, s) => (.error e, s)
        | (.ok _, s) => (.ok (), s)

namespace Vfs

/-! ## The last slash -/

theorem rfindSlash_append_cons (a : Path) {b : Path} (hb : slash ∉ b) :
    rfindSlash (a ++ slash :: b) = some a.length := by
  induction b using List.reverseRecOn with
  | nil =>
    rw [rfindSlash, List.length_append, List.length_singleton, List.range_succ,
      List.reverse_concat, List.find?_cons_of_pos]
    simp
  | append_singleton b c ih =>
    rw [List.mem_append, not_or, List.mem_singleton] at hb
    have hlen : (a ++ slash :: (b ++ [c])).length = (a ++ slash :: b).length + 1 := by
      simp only [List.length_append, List.length_cons, List.length_nil]
      omega
    rw [← ih hb.1, rfindSlash, rfindSlash, hlen, List.range_succ, List.reverse_concat,
      List.find?_cons_of_neg]
    · refine List.find?_congr fun i hi => ?_
      rw [List.mem_reverse, List.mem_range] at hi
      rw [← List.cons_append, ← List.append_assoc, List.getD_append _ _ _ _ hi]
    · rw [← List.cons_append, ← List.append_assoc, List.getD_append_right _ _ _ _ (Nat.le_refl _)]
      simpa using Ne.symm hb.2

theorem rfindSlash_of_not_mem {path : Path} (h : slash ∉ path) : rfindSlash path = none := by
  rw [rfindSlash, List.find?_eq_none]
  intro i hi hslash
  rw [List.mem_reverse, List.mem_range] at hi
  rw [List.getD_eq_getElem _ _ hi, beq_iff_eq] at hslash
  exact h (hslash ▸ List.getElem_mem hi)

theorem splitParentName_append_cons {a b : Path} (ha : a ≠ []) (hb : slash ∉ b) :
    splitParentName (a ++ slash :: b) = (a, b) := by
  obtain ⟨n, hn⟩ := Nat.exists_eq_add_one.2 (List.length_pos_iff.2 ha)
  rw [splitParentName, rfindSlash_append_cons a hb, hn]
  simp only
  rw [← hn, List.take_left, ← List.drop_drop, List.drop_left]
  rfl

theorem splitParentName_top {b : Path} (hb : slash ∉ b) :
    splitParentName (slash :: b) = ([slash], b) := by
  rw [splitParentName, ← List.nil_append (slash :: b), rfindSlash_append_cons [] hb]
  rfl

/-! ## What the two calls do -/

variable {σ : Type}

/-- A directory is made for the path in the parent, under the name. -/
def MakesDir (v : Vfs σ) (path : Path) (split : Path × Path) (s s' : σ) : Prop :=
  ∃ i rel r s₁ m x, v.findMount path = some (i, rel) ∧ v.resolve split.1 s = (.ok r, s₁) ∧
    v.mounts[i]? = some m ∧ m.ops.mkdir s₁ r.2 split.2 = (.ok x, s')

/-- The state after it is one. -/
theorem MakesDir.unique {v : Vfs σ} {path : Path} {split : Path × Path} {s s' s'' : σ}
    (h : MakesDir v path split s s') (h' : MakesDir v path split s s'') : s' = s'' := by
  obtain ⟨i, rel, r, s₁, m, x, hfind, hres, hm, hmk⟩ := h
  obtain ⟨i', rel', r', s₁', m', x', hfind', hres', hm', hmk'⟩ := h'
  obtain ⟨rfl, rfl⟩ := Prod.mk.inj (Option.some.inj (hfind.symm.trans hfind'))
  obtain ⟨hr, rfl⟩ := Prod.mk.inj (hres.symm.trans hres')
  obtain rfl := Except.ok.inj hr
  obtain rfl := Option.some.inj (hm.symm.trans hm')
  exact (Prod.mk.inj (hmk.symm.trans hmk')).2

theorem tmpfsMkdir_eq_iff {v : Vfs σ} {path : Path} {s s' : σ} :
    tmpfsMkdir v path s = (.ok (), s') ↔ MakesDir v path (splitParentName path) s s' := by
  rw [tmpfsMkdir, MakesDir, show tmpfsSplitParentName path = splitParentName path from ?_]
  · cases hfind : v.findMount path with
    | none => simp
    | some r =>
      obtain ⟨i, rel⟩ := r
      rcases hres : v.resolve (splitParentName path).1 s with ⟨_ | ⟨j, parent⟩, s₁⟩
      · simp
      · cases hm : v.mounts[i]? with
        | none => simp [hm]
        | some m =>
          rcases hmk : m.ops.mkdir s₁ parent (splitParentName path).2 with ⟨_ | x, s₂⟩ <;>
            simp [hm, hmk]
  · rw [tmpfsSplitParentName, splitParentName]
    rcases rfindSlash path with _ | _ | n <;> rfl

end Vfs

end AeroOS.Fs

namespace AeroOS.Syscalls

open Fs Vfs Tmpfs Labelled Separated
open AeroOS.Proc

/-! ## The pieces of a path -/

theorem splitLast_append_cons (a : Path) {b : Path} (hb : slash ∉ b) :
    splitLast (a ++ slash :: b) = (a, b) := by
  rw [splitLast, rfindSlash_append_cons a hb]
  simp only
  rw [List.take_left, ← List.drop_drop, List.drop_left]
  rfl

/-- Only for a name at the top the pieces differ. -/
theorem splitLast_eq_iff {a b : Path} (hb : slash ∉ b) :
    splitLast (a ++ slash :: b) = splitParentName (a ++ slash :: b) ↔ a ≠ [] := by
  rw [splitLast_append_cons a hb]
  constructor
  · rintro h rfl
    rw [List.nil_append, splitParentName_top hb] at h
    cases h
  · exact fun ha => (splitParentName_append_cons ha hb).symm

section calls

variable {τ : Type} {v : Vfs (Devices × τ)} {env : Env} {m : Machine τ} {ptr : Nat} {path : Path}

/-- `sys_mkdir` makes the directory and answers 0, or answers an error. -/
theorem sysMkdir_cases (hread : readPath env.mem ptr = .ok path) :
    (∃ s', MakesDir v path (splitLast path) m.fsState s' ∧
        sysMkdir v env m ptr = (.value 0, m.setFsState s')) ∨
      (∀ s', ¬ MakesDir v path (splitLast path) m.fsState s') ∧
        ∃ e s', e ≠ 0 ∧ sysMkdir v env m ptr = (.value e, m.setFsState s') := by
  rw [sysMkdir, hread]
  simp only [MakesDir]
  cases hfind : v.findMount path with
  | none => exact Or.inr ⟨by simp, ENOENT, m.fsState, by decide, rfl⟩
  | some r =>
    obtain ⟨i, rel⟩ := r
    rcases hres : v.resolve (splitLast path).1 m.fsState with ⟨_ | ⟨j, parent⟩, s₁⟩
    · exact Or.inr ⟨by simp, ENOENT, s₁, by decide, rfl⟩
    · cases hm : v.mounts[i]? with
      | none => exact Or.inr ⟨by simp [hm], ENOENT, s₁, by decide, by simp [hm]⟩
      | some mount =>
        rcases hmk : mount.ops.mkdir s₁ parent (splitLast path).2 with ⟨_ | x, s₂⟩
        · exact Or.inr ⟨by simp [hm, hmk], EINVAL, s₂, by decide, by simp [hm, hmk]⟩
        · exact Or.inl ⟨s₂, by simp [hm, hmk], by simp [hm, hmk]⟩

theorem sysMkdir_eq_iff (hread : readPath env.mem ptr = .ok path) {s' : Devices × τ} :
    sysMkdir v env m ptr = (.value 0, m.setFsState s') ↔
      MakesDir v path (splitLast path) m.fsState s' := by
  rcases sysMkdir_cases (v := v) (m := m) hread with ⟨t, ht, heq⟩ | ⟨hno, e, t, he, heq⟩
  · rw [heq]
    constructor
    · intro h
      have hst : t = s' := congrArg Machine.fsState (Prod.mk.inj h).2
      exact hst ▸ ht
    · intro h
      rw [h.unique ht]
  · rw [heq]
    refine ⟨fun h => absurd ?_ he, fun h => absurd h (hno s')⟩
    exact Option.some.inj (congrArg Reply.ret (Prod.mk.inj h).1)

/-- What holds when `sys_mkdir` answers 0. -/
theorem sysMkdir_zero_imp_iff (hread : readPath env.mem ptr = .ok path) (P : Devices × τ → Prop) :
    ((sysMkdir v env m ptr).1.ret = some 0 → P (sysMkdir v env m ptr).2.fsState) ↔
      ∀ s', MakesDir v path (splitLast path) m.fsState s' → P s' := by
  rcases sysMkdir_cases (v := v) (m := m) hread with ⟨t, ht, heq⟩ | ⟨hno, e, t, he, heq⟩
  · rw [heq]
    refine ⟨fun h s' hs' => ?_, fun h _ => h t ht⟩
    rw [hs'.unique ht]
    exact h rfl
  · rw [heq]
    exact ⟨fun _ s' hs' => absurd hs' (hno s'), fun _ hret => absurd (Option.some.inj hret) he⟩

end calls

/-! ## Names at the top -/

/-- A machine before its first process. -/
def bootMachine {τ : Type} (files : τ) : Machine τ where
  kernel := .boot
  fdTable := FdTable.new
  currentDir := [slash]
  devices := ⟨none, .new, ⟨0, 0, 0⟩⟩
  files := files

/-- A caller with a path at address 1. -/
def pathEnv (path : Path) : Env where
  mem n := path.getD (n - 1) 0
  serial := []
  clock := (0, 0)
  heap := none
  childCr3 := none
  image _ := .error ENOENT
  userRsp := 0
  rsp := 0
  stackTop _ := 0

theorem new_canAdd (name : Path) : Tmpfs.new.CanAdd rootInode name := by
  refine ⟨by decide +kernel, fun c hc => ?_⟩
  rw [child_iff new_root] at hc
  simp [emptyInode] at hc

/-- A directory at the top is made in the root directory. -/
theorem makesDir_top (b : Path) (s : Devices × Unit × Tmpfs) (hs : s.2.2 = Tmpfs.new) :
    MakesDir rootOnly (slash :: b) ([slash], b) s
      (s.1, s.2.1, s.2.2.link .directory rootInode b) :=
  ⟨0, _, (0, rootInode), s, rootMount, s.2.2.nextInode, rfl, rfl, rfl,
    rootOps_mkdir_ok_iff.2 ⟨hs ▸ new_canAdd b, rfl, rfl⟩⟩

/-- No directory is made under the empty path. -/
theorem not_makesDir_top (b : Path) (s s' : Devices × Unit × Tmpfs) :
    ¬ MakesDir rootOnly (slash :: b) ([], b) s s' := by
  rintro ⟨i, rel, r, s₁, m, x, -, hres, -⟩
  cases hres

/-- The pieces of a path are the same for `sys_mkdir` and `sys_unlink` as for
`split_parent_name`, unless the last slash is the first byte; and so `sys_mkdir` makes what
`tmpfs::mkdir` makes. -/
theorem mkdirs_agree_iff (path : Path) :
    (splitLast path = splitParentName path ↔ rfindSlash path ≠ some 0) ∧
      ∀ (env : Env) (ptr : Nat), readPath env.mem ptr = .ok path →
        ((∀ (τ : Type) (v : Vfs (Devices × τ)) (m : Machine τ) (s' : Devices × τ),
          sysMkdir v env m ptr = (.value 0, m.setFsState s') ↔
            tmpfsMkdir v path m.fsState = (.ok (), s')) ↔ rfindSlash path ≠ some 0) := by
  have hsplit : splitLast path = splitParentName path ↔ rfindSlash path ≠ some 0 := by
    by_cases hmem : slash ∈ path
    · obtain ⟨a, b, rfl, hb⟩ := exists_last slash hmem
      rw [splitLast_eq_iff hb, rfindSlash_append_cons a hb]
      simp
    · rw [splitLast, splitParentName, rfindSlash_of_not_mem hmem]
      simp
  refine ⟨hsplit, fun env ptr hread => ⟨fun h htop => ?_, fun h τ v m s' => ?_⟩⟩
  · have hmem : slash ∈ path := by
      by_contra hno
      rw [rfindSlash_of_not_mem hno] at htop
      cases htop
    obtain ⟨a, b, rfl, hb⟩ := exists_last slash hmem
    rw [rfindSlash_append_cons a hb, Option.some.injEq, List.length_eq_zero_iff] at htop
    subst htop
    have hiff := h (Unit × Tmpfs) rootOnly (bootMachine ((), Tmpfs.new))
    rw [List.nil_append] at hread hiff
    have hsys := (hiff _).2 (tmpfsMkdir_eq_iff.2 (splitParentName_top hb ▸ makesDir_top b _ rfl))
    rw [sysMkdir_eq_iff hread, ← List.nil_append (slash :: b), splitLast_append_cons [] hb] at hsys
    exact not_makesDir_top b _ _ hsys
  · rw [sysMkdir_eq_iff hread, tmpfsMkdir_eq_iff, hsplit.2 h]

/-- `/a`: `tmpfs::mkdir` makes it, and `sys_mkdir` does not find the directory it would be in. -/
theorem not_mkdirs_agree_top :
    readPath (pathEnv [slash, 0x61]).mem 1 = .ok [slash, 0x61] ∧
      splitLast [slash, 0x61] = ([], [0x61]) ∧
      splitParentName [slash, 0x61] = ([slash], [0x61]) ∧
      (sysMkdir rootOnly (pathEnv [slash, 0x61]) (bootMachine ((), Tmpfs.new)) 1).1 =
        .value ENOENT ∧
      (tmpfsMkdir rootOnly [slash, 0x61] (bootMachine ((), Tmpfs.new)).fsState).1 = .ok () := by
  refine ⟨rfl, rfl, rfl, rfl, ?_⟩
  exact congrArg Prod.fst (tmpfsMkdir_eq_iff.2 (makesDir_top [0x61] _ rfl))

/-! ## A table with the in-memory filesystem at `/` -/

variable {ρ : Type}

/-- The filesystem neither looks at the one in memory nor changes it on the way. -/
structure Beside (ops : FileOps (Devices × ρ × Tmpfs)) : Prop where
  fileType : ∀ d r t t' id, ops.fileType (d, r, t') id = ops.fileType (d, r, t) id
  lookup : ∀ d r t t' id n, (ops.lookup (d, r, t') id n).1 = (ops.lookup (d, r, t) id n).1 ∧
    (ops.lookup (d, r, t') id n).2.1 = (ops.lookup (d, r, t) id n).2.1 ∧
    (ops.lookup (d, r, t') id n).2.2.1 = (ops.lookup (d, r, t) id n).2.2.1

theorem Beside.walk {ops : FileOps (Devices × ρ × Tmpfs)} (h : Beside ops) (cs : List Path)
    (id : Nat) (d : Devices) (r : ρ) (t t' : Tmpfs) :
    (Vfs.walk ops cs id (d, r, t')).1 = (Vfs.walk ops cs id (d, r, t)).1 := by
  induction cs generalizing id d r t t' with
  | nil => rfl
  | cons c cs ih =>
    obtain ⟨hval, hdev, hrest⟩ := h.lookup d r t t' id c
    rw [Vfs.walk, Vfs.walk, h.fileType d r t t']
    split
    · rfl
    · rcases hl : ops.lookup (d, r, t) id c with ⟨x, d₁, r₁, t₁⟩
      rcases hl' : ops.lookup (d, r, t') id c with ⟨x', d₂, r₂, t₂⟩
      rw [hl, hl'] at hval hdev hrest
      obtain rfl : x' = x := hval
      obtain rfl : d₂ = d₁ := hdev
      obtain rfl : r₂ = r₁ := hrest
      cases x' with
      | error e => rfl
      | ok y => exact ih y d₂ r₂ t₁ t₂

/-- The in-memory filesystem is mounted at `/`, and others beside it. -/
structure TmpfsRooted (ms : List (Mount (Devices × ρ × Tmpfs))) : Prop where
  points : ∀ m ∈ ms, IsMountPoint m.mountPoint
  distinct : (ms.map (·.mountPoint)).Nodup
  root : rootMount ∈ ms
  beside : ∀ m ∈ ms, m ≠ rootMount → Beside m.ops

/-- The path is absolute, and no mount point but `/` is above it. -/
structure OnRoot (ms : List (Mount (Devices × ρ × Tmpfs))) (path : Path) : Prop where
  absolute : path.head? = some slash
  alone : ∀ m ∈ ms, m ≠ rootMount → ¬ Under m.mountPoint path

/-- What lies above a directory lies above what is in it. -/
theorem under_append_slash {p a : Path} (h : Under p a) (b : Path) : Under p (a ++ slash :: b) := by
  obtain ⟨rest, rfl, hrest⟩ := h
  refine ⟨rest ++ slash :: b, List.append_assoc .., ?_⟩
  rcases hrest with rfl | hrest | hrest
  · exact Or.inr (Or.inl rfl)
  · obtain ⟨rest, rfl⟩ := List.head?_eq_some_iff.1 hrest
    exact Or.inr (Or.inl rfl)
  · exact Or.inr (Or.inr hrest)

theorem OnRoot.parent {ms : List (Mount (Devices × ρ × Tmpfs))} {a b : Path} (ha : a ≠ [])
    (h : OnRoot ms (a ++ slash :: b)) : OnRoot ms a where
  absolute := by
    have habs := h.absolute
    rwa [List.head?_append_of_ne_nil _ ha] at habs
  alone m hm hne hunder := h.alone m hm hne (under_append_slash hunder b)

namespace TmpfsRooted

variable {ms : List (Mount (Devices × ρ × Tmpfs))} (h : TmpfsRooted ms)

include h

/-- The place of the root filesystem in the table. -/
theorem exists_index : ∃ i : Nat, (mountAll ms).mounts[i]? = some rootMount ∧
    ∀ j : Nat, (mountAll ms).mounts[j]? = some rootMount → j = i := by
  have hperm := perm_mountAll ms
  obtain ⟨i, hi⟩ := List.getElem?_of_mem (hperm.mem_iff.2 h.root)
  refine ⟨i, hi, fun j hj => ?_⟩
  have hnodup : (mountAll ms).mounts.Nodup := hperm.nodup_iff.2 (List.Nodup.of_map _ h.distinct)
  exact (List.getElem?_inj (List.getElem?_eq_some_iff.1 hj).1 hnodup).1 (hj.trans hi.symm)

theorem target_onRoot {i : Nat} (hi : ∀ j : Nat, (mountAll ms).mounts[j]? = some rootMount → j = i)
    {path : Path} (hon : OnRoot ms path) :
    (mountAll ms).target path = some (i, parts slash path) := by
  obtain ⟨hnone, hsome⟩ := findMount_longest h.points h.distinct path
  have hroot : Under [slash] path := by
    obtain ⟨rest, rfl⟩ := List.head?_eq_some_iff.1 hon.absolute
    exact ⟨rest, rfl, Or.inr (Or.inr rfl)⟩
  rw [target]
  cases hfind : (mountAll ms).findMount path with
  | none => exact absurd hroot (hnone.1 hfind rootMount h.root)
  | some r =>
    obtain ⟨j, rel⟩ := r
    obtain ⟨m, hm, hlong, happ⟩ := hsome j rel hfind
    obtain rfl : m = rootMount := by
      by_contra hne
      exact hon.alone m hlong.mem hne hlong.under
    rw [Option.map_some, hi j hm, ← happ]
    exact congrArg (fun cs => some (i, cs)) (parts_cons_self slash rel).symm

/-- A path that is not absolute has no mount. -/
theorem findMount_relative {path : Path} (hrel : path.head? ≠ some slash) :
    (mountAll ms).findMount path = none := by
  refine (findMount_longest h.points h.distinct path).1.2 fun m hm hunder => hrel ?_
  obtain ⟨p, hp⟩ := List.head?_eq_some_iff.1 (h.points m hm).absolute
  obtain ⟨rest, rfl, -⟩ := hunder
  rw [hp]
  rfl

/-- The path has its mount elsewhere, or lies on the root filesystem. -/
theorem onRoot_of_findMount {path rel : Path} {i : Nat}
    (hfind : (mountAll ms).findMount path = some (i, rel))
    (hm : (mountAll ms).mounts[i]? = some rootMount) : OnRoot ms path := by
  obtain ⟨m, hm', hlong, happ⟩ := (findMount_longest h.points h.distinct path).2 i rel hfind
  obtain rfl : rootMount = m := Option.some.inj (hm.symm.trans hm')
  refine ⟨happ ▸ rfl, fun m' hm' hne hunder => ?_⟩
  have hlt := hlong.longest m' hm' hunder hne
  have habs := (h.points m' hm').absolute
  rw [List.length_eq_zero_iff.1 (Nat.lt_one_iff.1 hlt)] at habs
  cases habs

variable {i : Nat} (hi : (mountAll ms).mounts[i]? = some rootMount)
  (hone : ∀ j : Nat, (mountAll ms).mounts[j]? = some rootMount → j = i)

include hi

omit h in
/-- On the root filesystem a path comes to where its components lead. -/
theorem resolves_iff {path : Path} {cs : List Path}
    (ht : (mountAll ms).target path = some (i, cs)) {s : Devices × ρ × Tmpfs} {r : Nat × Nat} :
    (mountAll ms).Resolves path s r ↔ r.1 = i ∧ Follows s.2.2.Enters rootInode cs r.2 :=
  (Vfs.resolves_iff ht hi).trans (and_congr_right fun _ => walk_ok_iff)

include hone

/-- What is made on the root filesystem. -/
theorem makesDir_iff {a b : Path} (hon : OnRoot ms (a ++ slash :: b)) {s s' : Devices × ρ × Tmpfs} :
    MakesDir (mountAll ms) (a ++ slash :: b) (a, b) s s' ↔
      a ≠ [] ∧ ∃ d, Follows s.2.2.Enters rootInode (parts slash a) d ∧ s.2.2.CanAdd d b ∧
        s' = (s.1, s.2.1, s.2.2.link .directory d b) := by
  have hres : ∀ r s₁, a ≠ [] → ((mountAll ms).resolve a s = (.ok r, s₁) ↔
      s₁ = s ∧ r.1 = i ∧ Follows s.2.2.Enters rootInode (parts slash a) r.2) := by
    intro r s₁ ha
    have ht := h.target_onRoot hone (hon.parent ha)
    have hstate : ((mountAll ms).resolve a s).2 = s := by
      rw [resolve_of_target ht hi]
      exact walk_state _ _ s
    rw [Prod.ext_iff, hstate, eq_comm (a := s), and_comm]
    exact and_congr_right fun _ => resolves_iff hi ht
  constructor
  · rintro ⟨j, rel, r, s₁, m, x, hfind, hparent, hm, hmk⟩
    have ha : a ≠ [] := by
      rintro rfl
      rw [resolve, h.findMount_relative (by simp)] at hparent
      cases hparent
    obtain ⟨rfl, -, hd⟩ := (hres r s₁ ha).1 hparent
    have hj : j = i := by
      have ht := h.target_onRoot hone hon
      rw [target, hfind] at ht
      exact congrArg Prod.fst (Option.some.inj ht)
    obtain rfl : m = rootMount := by
      rw [hj] at hm
      exact Option.some.inj (hm.symm.trans hi)
    obtain ⟨hcan, -, rfl⟩ := rootOps_mkdir_ok_iff.1 hmk
    exact ⟨ha, r.2, hd, hcan, rfl⟩
  · rintro ⟨ha, d, hd, hcan, rfl⟩
    obtain ⟨r, hfind, hr⟩ := Option.map_eq_some_iff.1 (h.target_onRoot hone hon)
    obtain ⟨hj, -⟩ := Prod.mk.inj hr
    exact ⟨r.1, r.2, (i, d), s, rootMount, _, hfind, (hres _ _ ha).2 ⟨rfl, rfl, hd⟩, hj ▸ hi,
      rootOps_mkdir_ok_iff.2 ⟨hcan, rfl, rfl⟩⟩

end TmpfsRooted

/-! ## The path that was given -/

/-- A path that came to nothing comes to a new empty directory, and a path with another
target comes to what it came to. -/
structure MakesNew {σ : Type} (v : Vfs σ) (path : Path) (s s' : σ) : Prop where
  failed : ∀ r, ¬ v.Resolves path s r
  made : ∃ r m, v.Resolves path s' r ∧ v.mounts[r.1]? = some m ∧
    m.ops.fileType s' r.2 = .directory ∧ (m.ops.readdir s' r.2).1 = .ok [] ∧
      ∀ q, ¬ v.Resolves q s r
  others : ∀ q, v.target q ≠ v.target path → ∀ r, v.Resolves q s' r ↔ v.Resolves q s r

/-- A new directory is empty. -/
theorem readdir_link {t : Tmpfs} {d : Nat} (n : Path) (hd : d ≠ t.nextInode) :
    (t.link .directory d n).fileType t.nextInode = .directory ∧
      (t.link .directory d n).readdir t.nextInode = .ok [] := by
  have hget : (t.link .directory d n).inodes[t.nextInode]? = some (emptyInode .directory) :=
    t.link_getElem? hd .directory
  refine ⟨(fileType_of_getElem? hget).trans rfl, ?_⟩
  rw [Tmpfs.readdir, hget]
  rfl

namespace TmpfsRooted

variable {ms : List (Mount (Devices × ρ × Tmpfs))} (h : TmpfsRooted ms)

include h

/-- A new entry of the root filesystem changes what one list of components comes to. -/
theorem resolves_of_link {i : Nat} (hi : (mountAll ms).mounts[i]? = some rootMount)
    (hone : ∀ j : Nat, (mountAll ms).mounts[j]? = some rootMount → j = i)
    {s : Devices × ρ × Tmpfs} (hinv : Inv s.2.2) {d : Nat} {b : Path} {cs : List Path}
    (hd : Follows s.2.2.Enters rootInode cs d) (hcan : s.2.2.CanAdd d b) {q : Path}
    (hq : (mountAll ms).target q ≠ some (i, cs ++ [b])) (r : Nat × Nat) :
    (mountAll ms).Resolves q (s.1, s.2.1, s.2.2.link .directory d b) r ↔
      (mountAll ms).Resolves q s r := by
  have hleaf := hinv.addsLeaf hcan .directory
  cases ht : (mountAll ms).target q with
  | none => rw [Resolves, Resolves, resolve_eq, resolve_eq, ht]; rfl
  | some t =>
    obtain ⟨j, qs⟩ := t
    cases hm : (mountAll ms).mounts[j]? with
    | none =>
      rw [Resolves, Resolves, resolve_eq, resolve_eq, resolveTarget, resolveTarget, ht,
        Option.bind_some, hm]
      rfl
    | some m =>
      by_cases hroot : m = rootMount
      · subst hroot
        obtain rfl := hone j hm
        rw [TmpfsRooted.resolves_iff hi ht, TmpfsRooted.resolves_iff hi ht, hleaf.follows_iff]
        refine and_congr_right fun _ => or_iff_left ?_
        rintro ⟨ds, rfl, hds, -⟩
        exact hq (ht.trans (by rw [hinv.rootedTree.follows_inj hds hd]))
      · rw [Vfs.resolves_iff ht hm, Vfs.resolves_iff ht hm]
        have hbeside := h.beside m ((perm_mountAll ms).mem_iff.1 (List.mem_of_getElem? hm)) hroot
        exact Eq.to_iff (congrArg (fun x => r.1 = j ∧ x = Except.ok r.2)
          (hbeside.walk qs m.rootInode s.1 s.2.1 s.2.2 _))

/-- With a name that is not empty the directory is made at the path. -/
theorem makesNew_of_makesDir {a b : Path} (hb : slash ∉ b) (hne : b ≠ [])
    (hon : OnRoot ms (a ++ slash :: b)) {s s' : Devices × ρ × Tmpfs} (hinv : Inv s.2.2)
    (hmake : MakesDir (mountAll ms) (a ++ slash :: b) (a, b) s s') :
    MakesNew (mountAll ms) (a ++ slash :: b) s s' := by
  obtain ⟨i, hi, hone⟩ := h.exists_index
  obtain ⟨-, d, hd, hcan, rfl⟩ := (h.makesDir_iff hi hone hon).1 hmake
  have ht : (mountAll ms).target (a ++ slash :: b) = some (i, parts slash a ++ [b]) := by
    rw [h.target_onRoot hone hon, parts_append_cons, parts_of_not_mem slash hne hb]
  have hleaf := hinv.addsLeaf hcan .directory
  have hdir : d ≠ s.2.2.nextInode := by
    rintro rfl
    exact hinv.nextInode_not_mem (hinv.follows_mem hd)
  obtain ⟨htype, hempty⟩ := readdir_link b hdir
  refine ⟨fun r hr => ?_, ⟨(i, s.2.2.nextInode), rootMount, ?_, hi, htype, hempty, fun q hq => ?_⟩,
    fun q hq r => h.resolves_of_link hi hone hinv hd hcan (ht ▸ hq) r⟩
  · obtain ⟨-, hr⟩ := (TmpfsRooted.resolves_iff hi ht).1 hr
    obtain ⟨x, hx, hlast⟩ := follows_concat.1 hr
    obtain rfl := follows_unique (R := s.2.2.Enters) enters_unique hd hx
    exact hcan.2 _ hlast.2
  · exact (TmpfsRooted.resolves_iff hi ht).2 ⟨rfl, hleaf.follows_iff.2 (Or.inr ⟨_, rfl, hd, rfl⟩)⟩
  · obtain ⟨cs, m, htq, -⟩ := hq.exists_target
    exact hinv.nextInode_not_mem (hinv.follows_mem ((TmpfsRooted.resolves_iff hi htq).1 hq).2)

/-- An empty name is made at a path that came to the directory already. -/
theorem not_makesNew {a : Path} {i : Nat} (hi : (mountAll ms).mounts[i]? = some rootMount)
    (hone : ∀ j : Nat, (mountAll ms).mounts[j]? = some rootMount → j = i)
    (hon : OnRoot ms (a ++ [slash])) {s s' : Devices × ρ × Tmpfs} {d : Nat}
    (hd : Follows s.2.2.Enters rootInode (parts slash a) d) :
    ¬ MakesNew (mountAll ms) (a ++ [slash]) s s' := by
  have ht := h.target_onRoot hone hon
  rw [parts_concat_self] at ht
  exact fun hnew => hnew.failed (i, d) ((TmpfsRooted.resolves_iff hi ht).2 ⟨rfl, hd⟩)

/-- When `sys_mkdir` answers 0 the path has come to a new empty directory, in every case but
this: the path lies on the root filesystem, ends with a slash and is not `/`, and the directory
that its components lead to has no entry with an empty name.  Other filesystems that make
directories are not above the path. -/
theorem mkdir_makesNew_iff {env : Env} {ptr : Nat} {path : Path}
    (hread : readPath env.mem ptr = .ok path) {m : Machine (ρ × Tmpfs)} (hinv : Inv m.files.2)
    (hother : ∀ c ∈ ms, c ≠ rootMount → Under c.mountPoint path →
      ∀ s d n x s', c.ops.mkdir s d n ≠ (.ok x, s')) :
    ((sysMkdir (mountAll ms) env m ptr).1.ret = some 0 → MakesNew (mountAll ms) path m.fsState
        (sysMkdir (mountAll ms) env m ptr).2.fsState) ↔
      (OnRoot ms path → path.getLast? = some slash → path ≠ [slash] →
        ∀ d, Follows m.files.2.Enters rootInode (parts slash path) d →
          ¬ m.files.2.CanAdd d []) := by
  obtain ⟨i, hi, hone⟩ := h.exists_index
  rw [sysMkdir_zero_imp_iff hread (MakesNew (mountAll ms) path m.fsState)]
  by_cases hon : OnRoot ms path
  · obtain ⟨a, b, rfl, hb⟩ := exists_last slash (List.mem_of_head? hon.absolute)
    rw [splitLast_append_cons a hb]
    by_cases hne : b = []
    · subst hne
      rw [parts_concat_self]
      constructor
      · intro hall _ _ hroot d hd hcan
        have ha : a ≠ [] := fun ha => hroot (by rw [ha]; rfl)
        exact h.not_makesNew hi hone hon hd
          (hall _ ((h.makesDir_iff hi hone hon).2 ⟨ha, d, hd, hcan, rfl⟩))
      · intro hno s' hmake
        obtain ⟨ha, d, hd, hcan, -⟩ := (h.makesDir_iff hi hone hon).1 hmake
        refine absurd hcan (hno hon (by simp) (fun heq => ha ?_) d hd)
        exact List.append_left_eq_self.1 heq
    · have hlast : (a ++ slash :: b).getLast? ≠ some slash := fun hlast => by
        rw [List.getLast?_append_of_ne_nil _ (List.cons_ne_nil _ _),
          List.getLast?_cons_of_ne_nil hne] at hlast
        exact hb (List.mem_of_getLast? hlast)
      exact ⟨fun _ _ hl => absurd hl hlast, fun _ s' hmake =>
        h.makesNew_of_makesDir hb hne hon hinv hmake⟩
  · refine ⟨fun _ hon' => absurd hon' hon, fun _ s' hmake => ?_⟩
    obtain ⟨j, rel, r, s₁, c, x, hfind, -, hc, hmk⟩ := hmake
    obtain ⟨c', hc', hlong, -⟩ := (findMount_longest h.points h.distinct path).2 j rel hfind
    obtain rfl := Option.some.inj (hc.symm.trans hc')
    refine absurd hmk (hother c hlong.mem ?_ hlong.under _ _ _ _ _)
    rintro rfl
    exact hon (h.onRoot_of_findMount hfind hc)

end TmpfsRooted

/-! ## The filesystems of the boot -/

theorem beside_devfs (totalSectors : Nat) : Beside (Devfs.ops (diskOf totalSectors)) where
  fileType _ _ _ _ _ := rfl
  lookup d r t t' id n := by
    simp only [Devfs.ops]
    split
    · exact ⟨rfl, rfl, rfl⟩
    · cases Devfs.devs.find? fun d => d.2.1 == n <;> exact ⟨rfl, rfl, rfl⟩

/-- The mounts of the boot. -/
def bootMounts (upper : List UInt8 → List UInt8) (totalSectors : Nat) :
    List (Mount (Devices × Fat32 × Tmpfs)) :=
  [rootMount, ⟨Build.diskPoint, 1, (Build.besideOps (Build.fileOps upper)).onRest⟩,
    ⟨Build.devPoint, 1, Devfs.ops (diskOf totalSectors)⟩]

/-- Mounted one after the other, they make the table of the boot. -/
theorem mountAll_bootMounts (upper : List UInt8 → List UInt8) (totalSectors : Nat) :
    mountAll (bootMounts upper totalSectors) = bootTable upper totalSectors := rfl

theorem tmpfsRooted_boot (upper : List UInt8 → List UInt8) (totalSectors : Nat) :
    TmpfsRooted (bootMounts upper totalSectors) where
  points m hm := by
    rcases List.mem_cons.1 hm with rfl | hm
    · exact ⟨rfl, fun _ => rfl⟩
    rcases List.mem_cons.1 hm with rfl | hm
    · exact isMountPoint_disk
    obtain rfl := List.mem_singleton.1 hm
    exact isMountPoint_dev
  distinct := by
    show [[slash], Build.diskPoint, Build.devPoint].Nodup
    decide
  root := List.mem_cons_self
  beside m hm hne := by
    rcases List.mem_cons.1 hm with rfl | hm
    · exact absurd rfl hne
    rcases List.mem_cons.1 hm with rfl | hm
    · exact ⟨fun _ _ _ _ _ => rfl, fun _ _ _ _ _ _ => ⟨rfl, rfl, rfl⟩⟩
    obtain rfl := List.mem_singleton.1 hm
    exact beside_devfs totalSectors

/-- `//a`. -/
def doubledA : Path := [slash, slash, 0x61]

theorem onRoot_doubledA : OnRoot (bootMounts id 64) doubledA where
  absolute := rfl
  alone m hm hne := by
    have hpoint := (tmpfsRooted_boot id 64).points m hm
    rw [← matched_iff hpoint]
    rcases List.mem_cons.1 hm with rfl | hm
    · exact absurd rfl hne
    rcases List.mem_cons.1 hm with rfl | hm
    · decide
    obtain rfl := List.mem_singleton.1 hm
    decide

/-- `mkdir("//a")` on the table of the boot. -/
theorem mkdir_makesNew_iff_doubled :
    (sysMkdir (mountAll (bootMounts id 64)) (pathEnv doubledA)
      (bootMachine (Fat32.emptyMount, Tmpfs.new)) 1).1.ret = some 0 ∧
    MakesNew (mountAll (bootMounts id 64)) doubledA
      (bootMachine (Fat32.emptyMount, Tmpfs.new)).fsState
      (sysMkdir (mountAll (bootMounts id 64)) (pathEnv doubledA)
        (bootMachine (Fat32.emptyMount, Tmpfs.new)) 1).2.fsState := by
  have hret : (sysMkdir (mountAll (bootMounts id 64)) (pathEnv doubledA)
      (bootMachine (Fat32.emptyMount, Tmpfs.new)) 1).1.ret = some 0 := by
    decide +kernel
  refine ⟨hret, ((tmpfsRooted_boot id 64).mkdir_makesNew_iff rfl Inv.new ?_).2 ?_ hret⟩
  · exact fun m hm hne hunder => absurd hunder (onRoot_doubledA.alone m hm hne)
  · exact fun _ hlast => absurd hlast (by decide)

/-- The filesystem with the directory `/a`. -/
def madeA : Tmpfs := Tmpfs.new.exec (.mkdir rootInode [0x61])

/-- `mkdir("/a/")` answers 0 where `/a/` is a directory. -/
theorem not_makesNew_slash :
    (sysMkdir (mountAll (bootMounts id 64)) (pathEnv [slash, 0x61, slash])
      (bootMachine (Fat32.emptyMount, madeA)) 1).1.ret = some 0 ∧
    (mountAll (bootMounts id 64)).Resolves [slash, 0x61, slash]
      (bootMachine (Fat32.emptyMount, madeA)).fsState (2, 2) := by
  refine ⟨by decide +kernel, ?_⟩
  rw [Resolves]
  decide +kernel

end AeroOS.Syscalls
