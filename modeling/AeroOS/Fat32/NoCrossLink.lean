import AeroOS.Fat32.DirEffects
import AeroOS.Fat32.Format
import AeroOS.Lib.Run

/-!
# FAT32: no cross-linking

Runs of the file operations, from a freshly mounted volume.

* `NoCrossLinks` is what the directory entries ought to keep: each names no
  chain, or one without a free cluster, and no two of them share a cluster.
* `Op.Safe` is the condition on a step under which it does not break this.  The
  operations that can are `truncate` to no bytes, which frees a chain and
  leaves it in the directory entry, and `unlink` and `lookup` of `.` and `..`.
* `noCrossLinks_of_safe_run` is the result for runs of safe steps.  The
  invariant is `InOrder`; `inOrder_exec` is the step.
* `not_noCrossLinks_truncate_zero` shows that the condition on `truncate` is
  needed, in every state in order.
-/

namespace AeroOS.Fat32

open Bytes Run

/-! ## Runs -/

/-- An operation of the file system. -/
inductive Op where
  | create (dirId : Nat) (name : List UInt8)
  | mkdir (dirId : Nat) (name : List UInt8)
  | lookup (dirId : Nat) (name : List UInt8)
  | readdir (dirId : Nat)
  | write (id offset : Nat) (buf : List UInt8)
  | truncate (id size : Nat)
  | unlink (dirId : Nat) (name : List UInt8)

section runs

variable (upper : List UInt8 → List UInt8)

/-- The state behind an operation, successful or not. -/
def Op.exec (s : Fat32) : Op → Fat32
  | .create dirId name => (s.create upper dirId name).2
  | .mkdir dirId name => (s.mkdir upper dirId name).2
  | .lookup dirId name => (s.lookup upper dirId name).2
  | .readdir dirId => (s.readdir dirId).2
  | .write id offset buf => (s.write id offset buf).2
  | .truncate id size => (s.truncate id size).2
  | .unlink dirId name => (s.unlink upper dirId name).2

/-- A directory entry that is in use: a slot of a directory, neither free nor
part of a long name, nor `.` or `..`. -/
def LiveEntry (s : Fat32) (d a : Nat) : Prop :=
  IsDir s d ∧ a ∈ s.slotAddrs d ∧ (s.entryAt a).isEntry = true

/-- No live entry names a free cluster, and no two of them share one. -/
structure NoCrossLinks (s : Fat32) : Prop where
  allocated : ∀ d a, LiveEntry s d a → (s.entryAt a).firstCluster = 0 ∨
    (s.geo.validCluster (s.entryAt a).firstCluster = true ∧
      ∀ c ∈ s.clusterChain (s.entryAt a).firstCluster, s.fatCache c ≠ 0)
  disjoint : ∀ d d' a a', LiveEntry s d a → LiveEntry s d' a' → a ≠ a' →
    ∀ c ∈ s.clusterChain (s.entryAt a).firstCluster,
      c ∉ s.clusterChain (s.entryAt a').firstCluster

/-- A freshly mounted volume without cross-links.  The root directory counts as
an entry, and no chain has a cycle. -/
structure CleanMount (geo : Geometry) (disk : Ata.Disk) (s : Fat32) : Prop where
  mounted : mount geo disk = some s
  sound : Sound s
  noCrossLinks : NoCrossLinks s
  root_valid : s.geo.validCluster s.geo.rootCluster = true
  root_allocated : ∀ c ∈ s.clusterChain s.geo.rootCluster, s.fatCache c ≠ 0
  root_disjoint : ∀ d a, LiveEntry s d a → ∀ c ∈ s.clusterChain (s.entryAt a).firstCluster,
    c ∉ s.clusterChain s.geo.rootCluster
  root_acyclic : (s.clusterChain s.geo.rootCluster).Nodup
  acyclic : ∀ d a, LiveEntry s d a → (s.clusterChain (s.entryAt a).firstCluster).Nodup

/-- The condition on a step. -/
def Op.Safe (s : Fat32) : Op → Prop
  | .truncate id size => size % 2 ^ 32 = 0 → ∀ i, s.inodes.get id = some i → i.isDir = false →
      s.clusterChain i.firstCluster ≠ [] →
        ∀ d a, LiveEntry s d a → (s.entryAt a).firstCluster ≠ i.firstCluster
  | .unlink dirId name => ∀ dir a, s.inodes.get dirId = some dir → dir.isDir = true →
      s.findSlot dir.firstCluster (toShortName upper name) = some a →
        ¬ IsDots (toShortName upper name) ∧
          removeFind s.entryAt (toShortName upper name) (s.slotAddrs dir.firstCluster) = some a
  | .lookup dirId name => IsDots (toShortName upper name) →
      ∀ dir a, s.inodes.get dirId = some dir → dir.isDir = true →
        s.findSlot dir.firstCluster (toShortName upper name) = some a →
          (s.entryAt a).isDir = true ∧
            ((s.entryAt a).firstCluster = 0 ∨ IsDir s (s.entryAt a).firstCluster)
  | _ => True

/-- Runs of safe operations. -/
def SafeRun : Fat32 → Fat32 → Prop :=
  Reaches (fun s op s' => s' = Op.exec upper s op) (Op.Safe upper)

end runs

/-! ## The invariant -/

/-- The names and chains of the volume are in order, and no directory names
itself. -/
structure InOrder (s : Fat32) : Prop where
  good : Good s
  noSelf : (namesOf s).NoSelf

theorem Described.inOrder {s : Fat32} {v : Names} (h : Described s v) (hself : v.NoSelf) :
    InOrder s :=
  ⟨h.good, hself.mono (h.covers.le h.ok)⟩

theorem liveEntry_iff {s : Fat32} {d a : Nat} :
    LiveEntry s d a ↔
      (namesOf s).slot d a (s.entryAt a).firstCluster (s.entryAt a).isDir :=
  ⟨fun ⟨hd, ha, he⟩ => ⟨hd, ha, he, rfl, rfl⟩, fun ⟨hd, ha, he, _, _⟩ => ⟨hd, ha, he⟩⟩

theorem slot_iff {s : Fat32} {d a h : Nat} {k : Bool} :
    (namesOf s).slot d a h k ↔
      LiveEntry s d a ∧ (s.entryAt a).firstCluster = h ∧ (s.entryAt a).isDir = k :=
  ⟨fun ⟨hd, ha, he, hh, hk⟩ => ⟨⟨hd, ha, he⟩, hh, hk⟩,
    fun ⟨⟨hd, ha, he⟩, hh, hk⟩ => ⟨hd, ha, he, hh, hk⟩⟩

/-- A volume in order has no cross-links. -/
theorem Good.noCrossLinks {s : Fat32} (hg : Good s) : NoCrossLinks s where
  allocated d a ha := by
    have hh : (namesOf s).heads (s.entryAt a).firstCluster :=
      Or.inr (Or.inl ⟨d, a, _, liveEntry_iff.mp ha⟩)
    exact (hg.chains.valid _ hh).imp_right fun hv => ⟨hv, hg.chains.alloc _ hh⟩
  disjoint d d' a a' ha ha' hne c hc := by
    have hh := liveEntry_iff.mp ha
    have hh' := liveEntry_iff.mp ha'
    have h0 : (s.entryAt a).firstCluster ≠ 0 := by
      intro h0
      rw [h0, clusterChain_def, chainOf_zero] at hc
      exact absurd hc List.not_mem_nil
    have hheads : (s.entryAt a).firstCluster ≠ (s.entryAt a').firstCluster := by
      intro heq
      rw [heq] at hh h0
      exact hne (hg.names.slot_unique hh hh' h0)
    exact hg.chains.disj _ _ (Or.inr (Or.inl ⟨d, a, _, hh⟩)) (Or.inr (Or.inl ⟨d', a', _, hh'⟩))
      hheads c hc

/-! ## Steps -/

/-- A step keeps the order when it leaves the slots, or has a directory name
something else than itself. -/
theorem InOrder.step {s s' : Fat32} (hs : InOrder s) {w : Names} (hd : Described s' w)
    (h : ∀ d a x k, w.slot d a x k → x ≠ 0 → (namesOf s).slot d a x k ∨ x ≠ d) :
    InOrder s' := by
  refine hd.inOrder fun {d a x k} hslot h0 => ?_
  rcases h d a x k hslot h0 with hold | hne
  · exact hs.noSelf hold h0
  · exact hne

/-- A safe `truncate` edits its file, and gives up the head only when no slot names it. -/
theorem truncate_safe {upper : List UInt8 → List UInt8} {s : Fat32} (hg : Good s) {id : Nat}
    {i : FatInode} (hi : s.inodes.get id = some i) (hk : i.isDir = false) {size : Nat}
    (h : Op.Safe upper s (.truncate id size)) :
    ∃ f', (f' = i.firstCluster ∨
        f' = 0 ∧ ∀ d a k, ¬ (namesOf s).slot d a i.firstCluster k) ∧
      FileEdit (namesOf s) s (s.truncate id size).2 id i.firstCluster f' :=
  truncate_described hg.described hi hk size fun h0 hne d a k hslot => by
    obtain ⟨hlive, hhead, -⟩ := slot_iff.mp hslot
    exact h h0 i hi hk hne d a hlive hhead

section steps

variable {upper : List UInt8 → List UInt8} {s : Fat32} (hs : InOrder s)

include hs

theorem inOrder_create (dirId : Nat) (name : List UInt8) :
    InOrder (s.create upper dirId name).2 := by
  cases hdir : s.inodes.get dirId with
  | none =>
    rw [create, hdir]
    exact hs
  | some dir =>
    rcases create_described hs.good.described hdir name with
      ⟨e, s', heq, hd, -⟩ | ⟨a, s₁, -, -, -, -, heq, hd⟩
    · rw [heq]
      exact hd.inOrder hs.noSelf
    · rw [heq]
      refine hs.step hd fun _ _ _ _ hslot h0 => ?_
      rcases hslot with hold | ⟨-, -, h, -⟩
      · exact Or.inl hold
      · exact absurd h h0

theorem inOrder_mkdir (dirId : Nat) (name : List UInt8) :
    InOrder (s.mkdir upper dirId name).2 := by
  cases hdir : s.inodes.get dirId with
  | none =>
    rw [mkdir, hdir]
    exact hs
  | some dir =>
    have hgood := hs.good.described
    rcases mkdir_described hgood hdir name with
      ⟨e, s', heq, hd, -⟩ | ⟨c, a, s₁, s₂, -, -, hc, -, -, -, -, -, heq, hd⟩
    · rw [heq]
      exact hd.inOrder hs.noSelf
    · rw [heq]
      refine hs.step hd fun _ _ _ _ hslot _ => ?_
      rcases hslot with hold | ⟨hdd, -, hx, -⟩
      · exact Or.inl hold
      · right
        rw [hdd, hx]
        rintro rfl
        exact hc (hgood.heads_dir hdir)

theorem inOrder_lookup (dirId : Nat) (name : List UInt8)
    (h : Op.Safe upper s (.lookup dirId name)) : InOrder (s.lookup upper dirId name).2 := by
  rcases lookup_described hs.good.described upper dirId name h with
    ⟨e, heq⟩ | ⟨dir, a, id, s', w, -, -, -, heq, hw, hd⟩
  · rw [heq]
    exact hs
  · rw [heq]
    refine hs.step hd fun _ _ _ _ hslot _ => Or.inl ?_
    rcases hw with rfl | rfl
    · exact hslot
    · exact hslot

theorem inOrder_readdir (dirId : Nat) : InOrder (s.readdir dirId).2 := by
  rcases readdir_described hs.good.described dirId with
    ⟨e, heq⟩ | ⟨dir, out, s', w, -, -, heq, hd, hmore, -⟩
  · rw [heq]
    exact hs
  · rw [heq]
    exact hs.step hd fun _ _ _ _ hslot _ => Or.inl (hmore.slot ▸ hslot)

theorem FileEdit.inOrder {s' : Fat32} {id f f' : Nat} (h : FileEdit (namesOf s) s s' id f f') :
    InOrder s' :=
  hs.step h.described fun _ _ _ _ hslot _ => Or.inl hslot

theorem inOrder_write (id offset : Nat) (buf : List UInt8) :
    InOrder (s.write id offset buf).2 := by
  cases hi : s.inodes.get id with
  | none =>
    rw [write, hi]
    exact hs
  | some i =>
    cases hk : i.isDir with
    | true =>
      rw [write, hi]
      simp only [hk, if_true]
      exact hs
    | false =>
      obtain ⟨f', -, hedit⟩ := write_described hs.good.described hi hk offset buf
      exact hedit.inOrder hs

theorem inOrder_truncate (id size : Nat) (h : Op.Safe upper s (.truncate id size)) :
    InOrder (s.truncate id size).2 := by
  cases hi : s.inodes.get id with
  | none =>
    rw [truncate, hi]
    exact hs
  | some i =>
    cases hk : i.isDir with
    | true =>
      rw [truncate, hi]
      simp only [hk, if_true]
      exact hs
    | false =>
      obtain ⟨f', -, hedit⟩ := truncate_safe hs.good hi hk h
      exact hedit.inOrder hs

theorem inOrder_unlink (dirId : Nat) (name : List UInt8)
    (h : Op.Safe upper s (.unlink dirId name)) : InOrder (s.unlink upper dirId name).2 := by
  rcases unlink_described hs.good.described hs.noSelf dirId name h with
    ⟨e, heq⟩ | ⟨dir, a, s', gone, -, -, -, heq, hun⟩
  · rw [heq]
    exact hs
  · rw [heq]
    exact hs.step hun.described fun _ _ _ _ hslot _ => Or.inl hslot.1

/-- Every safe step keeps the volume in order. -/
theorem inOrder_exec (op : Op) (h : op.Safe upper s) : InOrder (op.exec upper s) := by
  cases op with
  | create dirId name => exact inOrder_create hs dirId name
  | mkdir dirId name => exact inOrder_mkdir hs dirId name
  | lookup dirId name => exact inOrder_lookup hs dirId name h
  | readdir dirId => exact inOrder_readdir hs dirId
  | write id offset buf => exact inOrder_write hs id offset buf
  | truncate id size => exact inOrder_truncate hs id size h
  | unlink dirId name => exact inOrder_unlink hs dirId name h

end steps

/-! ## The start -/

/-- A mount interns the root directory only. -/
theorem mount_inode {geo : Geometry} {disk : Ata.Disk} {s : Fat32}
    (h : mount geo disk = some s) {id : Nat} {i : FatInode} (hi : s.inodes.get id = some i) :
    id = 1 ∧ i.firstCluster = s.geo.rootCluster ∧ i.isDir = true := by
  rw [mount, Option.map_eq_some_iff] at h
  obtain ⟨table, -, rfl⟩ := h
  by_cases hid : id = 1
  · subst hid
    cases hi
    exact ⟨rfl, rfl, rfl⟩
  · have hget := InodeTable.empty.insert_get_of_ne
      { firstCluster := geo.rootCluster, size := 0, isDir := true } (show id ≠ 1 from hid)
    rw [hget] at hi
    cases hi

namespace CleanMount

variable {geo : Geometry} {disk : Ata.Disk} {s : Fat32} (h : CleanMount geo disk s)

include h

theorem root_mem : s.geo.rootCluster ∈ s.clusterChain s.geo.rootCluster :=
  mem_chainOf_self h.root_valid

/-- The head of an entry is a cluster of its chain. -/
theorem head_mem {d a : Nat} (ha : LiveEntry s d a) (h0 : (s.entryAt a).firstCluster ≠ 0) :
    (s.entryAt a).firstCluster ∈ s.clusterChain (s.entryAt a).firstCluster := by
  rcases h.noCrossLinks.allocated d a ha with hz | ⟨hv, -⟩
  · exact absurd hz h0
  · exact mem_chainOf_self hv

theorem ne_root {d a : Nat} (ha : LiveEntry s d a) (h0 : (s.entryAt a).firstCluster ≠ 0) :
    (s.entryAt a).firstCluster ≠ s.geo.rootCluster := by
  intro heq
  refine h.root_disjoint d a ha _ (h.head_mem ha h0) ?_
  rw [heq]
  exact h.root_mem

/-- Two entries with one head are one entry. -/
theorem entry_unique {d d' a a' : Nat} (ha : LiveEntry s d a) (ha' : LiveEntry s d' a')
    (heq : (s.entryAt a).firstCluster = (s.entryAt a').firstCluster)
    (h0 : (s.entryAt a).firstCluster ≠ 0) : a = a' := by
  by_contra hne
  refine h.noCrossLinks.disjoint d d' a a' ha ha' hne _ (h.head_mem ha h0) ?_
  rw [heq] at h0 ⊢
  exact h.head_mem ha' h0

/-- A directory is the root, or an entry names it. -/
theorem dir_cases {d : Nat} (hd : IsDir s d) : d = s.geo.rootCluster ∨
    ∃ d' a, LiveEntry s d' a ∧ (s.entryAt a).isDir = true ∧ (s.entryAt a).firstCluster = d := by
  cases hd with
  | root => exact Or.inl rfl
  | inode hi _ => exact Or.inl (mount_inode h.mounted hi).2.1
  | slot hd ha he hk => exact Or.inr ⟨_, _, ⟨hd, ha, he⟩, hk, rfl⟩

/-- A head is the root, or an entry names it. -/
theorem head_cases {x : Nat} (hx : (namesOf s).heads x) : x = s.geo.rootCluster ∨
    ∃ d a, LiveEntry s d a ∧ (s.entryAt a).firstCluster = x := by
  rcases hx with hx | ⟨d, a, k, hx⟩ | ⟨id, k, i, hi, rfl, -⟩
  · rcases h.dir_cases hx with heq | ⟨d', a, hl, -, heq⟩
    · exact Or.inl heq
    · exact Or.inr ⟨d', a, hl, heq⟩
  · obtain ⟨hl, heq, -⟩ := slot_iff.mp hx
    exact Or.inr ⟨d, a, hl, heq⟩
  · exact Or.inl (mount_inode h.mounted hi).2.1

theorem chains : ChainsOk s.geo s.fatCache (namesOf s).heads where
  valid x hx := by
    rcases h.head_cases hx with rfl | ⟨d, a, hl, rfl⟩
    · exact Or.inr h.root_valid
    · exact (h.noCrossLinks.allocated d a hl).imp_right And.left
  nodup x hx := by
    rcases h.head_cases hx with rfl | ⟨d, a, hl, rfl⟩
    · exact h.root_acyclic
    · exact h.acyclic d a hl
  alloc x hx := by
    rcases h.head_cases hx with rfl | ⟨d, a, hl, rfl⟩
    · exact h.root_allocated
    · rcases h.noCrossLinks.allocated d a hl with h0 | ⟨-, hal⟩
      · rw [h0]
        simp
      · exact hal
  disj x y hx hy hne c hc hc' := by
    rcases h.head_cases hx with rfl | ⟨d, a, hl, rfl⟩
    · rcases h.head_cases hy with rfl | ⟨d', a', hl', rfl⟩
      · exact hne rfl
      · exact h.root_disjoint d' a' hl' c hc' hc
    · rcases h.head_cases hy with rfl | ⟨d', a', hl', rfl⟩
      · exact h.root_disjoint d a hl c hc hc'
      · refine h.noCrossLinks.disjoint d d' a a' hl hl' ?_ c hc hc'
        rintro rfl
        exact hne rfl

/-- A file is no directory. -/
theorem file_not_dir {d a : Nat} (ha : LiveEntry s d a) (hk : (s.entryAt a).isDir = false)
    (h0 : (s.entryAt a).firstCluster ≠ 0) : ¬ IsDir s (s.entryAt a).firstCluster := by
  intro hd
  rcases h.dir_cases hd with heq | ⟨d', a', hl, hk', heq⟩
  · exact h.ne_root ha h0 heq
  · rw [h.entry_unique ha hl heq.symm h0, hk'] at hk
    cases hk

theorem names : (namesOf s).Ok where
  root_dir := IsDir.root
  slot_dir hs := by
    obtain ⟨⟨hd, ha, he⟩, rfl, hk⟩ := slot_iff.mp hs
    exact IsDir.slot hd ha he hk
  ino_dir hi := by
    obtain ⟨i, hi, rfl, hk⟩ := hi
    exact IsDir.inode hi hk
  slot_file hs h0 := by
    obtain ⟨hl, rfl, hk⟩ := slot_iff.mp hs
    exact h.file_not_dir hl hk h0
  ino_file hi := by
    obtain ⟨i, hi, -, hk⟩ := hi
    rw [(mount_inode h.mounted hi).2.2] at hk
    cases hk
  slot_unique hs hs' h0 := by
    obtain ⟨hl, heq, -⟩ := slot_iff.mp hs
    obtain ⟨hl', heq', -⟩ := slot_iff.mp hs'
    exact h.entry_unique hl hl' (heq.trans heq'.symm) (heq ▸ h0)
  slot_root hs h0 := by
    obtain ⟨hl, rfl, -⟩ := slot_iff.mp hs
    exact h.ne_root hl h0
  ino_unique hi hi' _ := by
    obtain ⟨i, hi, -⟩ := hi
    obtain ⟨i', hi', -⟩ := hi'
    exact (mount_inode h.mounted hi).1.trans (mount_inode h.mounted hi').1.symm

/-- A directory that names itself would have its name in two directories. -/
theorem head_ne_dir {d : Nat} (hd : IsDir s d) : ∀ a, LiveEntry s d a →
    (s.entryAt a).firstCluster ≠ 0 → (s.entryAt a).firstCluster ≠ d := by
  induction hd with
  | root => exact fun a hl h0 => h.ne_root hl h0
  | inode hi _ =>
    rw [(mount_inode h.mounted hi).2.1]
    exact fun a hl h0 => h.ne_root hl h0
  | @slot d' b hd' hb he hk ih =>
    intro a hl h0 hx
    have hlb : LiveEntry s d' b := ⟨hd', hb, he⟩
    have hab : a = b := h.entry_unique hl hlb hx h0
    subst hab
    by_cases hdd : d' = (s.entryAt a).firstCluster
    · exact ih a hlb h0 hdd.symm
    -- the slot lies in a cluster of both directories
    obtain ⟨c, hc, hin⟩ := Geometry.inCluster_of_mem_slotsOf hl.2.1
    obtain ⟨c', hc', hin'⟩ := Geometry.inCluster_of_mem_slotsOf hb
    have hv := (Geometry.validCluster_iff.mp (s.valid_clusterChain _ c hc)).1
    have hv' := (Geometry.validCluster_iff.mp (s.valid_clusterChain _ c' hc')).1
    have hcc := Geometry.InCluster.unique hv hv' (hin 0 (by omega)) (hin' 0 (by omega))
    subst hcc
    exact h.chains.disj _ _ (Or.inl hl.1) (Or.inl hd') (Ne.symm hdd) c hc hc'

theorem noSelf : (namesOf s).NoSelf := fun hs h0 => by
  obtain ⟨hl, rfl, -⟩ := slot_iff.mp hs
  exact h.head_ne_dir hl.1 _ hl h0

theorem inOrder : InOrder s := ⟨⟨h.sound, h.names, h.chains⟩, h.noSelf⟩

end CleanMount

/-! ## Whole runs -/

/-- From a mounted volume without cross-links, no run of safe operations makes
one. -/
theorem noCrossLinks_of_safe_run {upper : List UInt8 → List UInt8} {geo : Geometry}
    {disk : Ata.Disk} {s s' : Fat32} (h : CleanMount geo disk s) (hrun : SafeRun upper s s') :
    NoCrossLinks s' := by
  have horder : InOrder s' := hrun.invariant (fun s op s' hs hok heq => by
    rw [heq]
    exact inOrder_exec hs op hok) h.inOrder
  exact horder.good.noCrossLinks

/-! ## Truncating to nothing -/

/-- The first cluster of a chain that `cutFile` gives up is free. -/
theorem cutFile_head {s : Fat32} {id f : Nat} (hne : s.clusterChain f ≠ []) :
    (s.cutFile id (s.clusterChain f) 0).fatCache f = 0 := by
  have hpos : 0 < (s.clusterChain f).length := List.length_pos_iff.mpr hne
  have hneed : s.clustersFor 0 = 0 := rfl
  have hhead : (s.clusterChain f).getD 0 0 = f := by
    have hhd : (chainOf s.geo s.fatCache f).head? = some f :=
      head?_chainOf (chainOf_ne_nil_iff.mp hne)
    rw [List.getD_eq_getElem?_getD, ← List.head?_eq_getElem?, clusterChain_def, hhd]
    rfl
  rw [cutFile, if_pos ⟨hneed ▸ hpos, hne⟩]
  simp only [if_true, hhead]
  exact setFat_self _ f fatFree

/-- Directories stay directories. -/
theorem IsDir.of_kept {s s' : Fat32} (hk : KeptSlots (IsDir s) s s')
    (hino : ∀ id i, s.inodes.get id = some i → i.isDir = true → s'.inodes.get id = some i)
    {d : Nat} (hd : IsDir s d) : IsDir s' d := by
  induction hd with
  | root => exact hk.geo ▸ IsDir.root
  | inode hi hkd => exact IsDir.inode (hino _ _ hi hkd) hkd
  | @slot d a hd ha he hka ih =>
    have hkey := hk.slot d a hd ha
    rw [← hkey.firstCluster]
    refine IsDir.slot ih ?_ (hkey.isEntry ▸ he) (hkey.isDir ▸ hka)
    rw [hk.slotAddrs hd]
    exact ha

theorem LiveEntry.of_kept {s s' : Fat32} (hk : KeptSlots (IsDir s) s s')
    (hino : ∀ id i, s.inodes.get id = some i → i.isDir = true → s'.inodes.get id = some i)
    {d a : Nat} (h : LiveEntry s d a) : LiveEntry s' d a := by
  obtain ⟨hd, ha, he⟩ := h
  refine ⟨hd.of_kept hk hino, ?_, (hk.slot d a hd ha).isEntry ▸ he⟩
  rw [hk.slotAddrs hd]
  exact ha

/-- In a volume in order, truncating a file that has a chain and a directory
entry to no bytes leaves an entry that names a free cluster. -/
theorem not_noCrossLinks_truncate_zero {s : Fat32} (hg : Good s) {id : Nat} {i : FatInode}
    (hi : s.inodes.get id = some i) (hk : i.isDir = false) {size : Nat}
    (h0 : size % 2 ^ 32 = 0) (hne : s.clusterChain i.firstCluster ≠ []) {d a : Nat}
    (hl : LiveEntry s d a) (hhead : (s.entryAt a).firstCluster = i.firstCluster) :
    ¬ NoCrossLinks (s.truncate id size).2 := by
  have hd := hg.described
  have hv : s.geo.validCluster i.firstCluster = true := chainOf_ne_nil_iff.mp hne
  obtain ⟨f', hcut⟩ := cutFile_spec hd.chains (hd.heads_self hi hk) id (size % 2 ^ 32)
  have hfree : (s.cutFile id (s.clusterChain i.firstCluster) (size % 2 ^ 32)).fatCache
      i.firstCluster = 0 := by
    rw [h0]
    exact cutFile_head hne
  rw [truncate_eq hi hk]
  generalize s.cutFile id (s.clusterChain i.firstCluster) (size % 2 ^ 32) = s₁ at *
  obtain ⟨hi₂, hother⟩ := hcut.inodes hi hk (size % 2 ^ 32)
  have hs₂ : Sound (s₁.setSize id (size % 2 ^ 32)) :=
    hg.sound.of_eq hcut.geo (by rw [setSize_disk, hcut.disk])
  have hcommit := commit_spec hs₂ hi₂ rfl
  have hkept := (hcut.kept hd hi hk (size % 2 ^ 32)).trans (hcommit.kept _)
  have hinodes : ∀ id' i', s.inodes.get id' = some i' → i'.isDir = true →
      ((s₁.setSize id (size % 2 ^ 32)).commit id).2.inodes.get id' = some i' := by
    intro id' i' hi' hk'
    rw [hcommit.inodes, hother id' ?_, hi']
    rintro rfl
    rw [hi', Option.some.injEq] at hi
    rw [hi, hk] at hk'
    cases hk'
  intro hno
  -- the entry still names the head, which is free
  have hkey := hkept.slot d a hl.1 hl.2.1
  have hheads : (((s₁.setSize id (size % 2 ^ 32)).commit id).2.entryAt a).firstCluster =
      i.firstCluster := hkey.firstCluster.trans hhead
  rcases hno.allocated d a (hl.of_kept hkept hinodes) with hz | ⟨-, halloc⟩
  · rw [hheads] at hz
    rw [hz] at hv
    cases hv
  · rw [hheads] at halloc
    refine halloc i.firstCluster ?_ ?_
    · rw [clusterChain_def, hcommit.geo]
      exact mem_chainOf_self (hcut.geo ▸ hv)
    · rw [hcommit.fatCache]
      exact hfree

/-- A volume in order is clean when it has just been mounted. -/
theorem CleanMount.of_good {geo : Geometry} {disk : Ata.Disk} {s : Fat32}
    (hm : mount geo disk = some s) (hg : Good s)
    (hv : s.geo.validCluster s.geo.rootCluster = true) : CleanMount geo disk s where
  mounted := hm
  sound := hg.sound
  noCrossLinks := hg.noCrossLinks
  root_valid := hv
  root_allocated := hg.chains.alloc _ (Or.inl IsDir.root)
  root_disjoint d a hl c hc hc' := by
    have hslot := liveEntry_iff.mp hl
    refine hg.chains.disj _ _ (Or.inr (Or.inl ⟨d, a, _, hslot⟩)) (Or.inl IsDir.root) ?_ c hc hc'
    refine hg.names.slot_root hslot fun h0 => ?_
    rw [h0, clusterChain_def, chainOf_zero] at hc
    exact absurd hc List.not_mem_nil
  root_acyclic := hg.chains.nodup _ (Or.inl IsDir.root)
  acyclic d a hl := hg.chains.nodup _ (Or.inr (Or.inl ⟨d, a, _, liveEntry_iff.mp hl⟩))

/-- A volume with a file `A` of 1024 bytes in clusters 3 and 4, as mounted. -/
def oneFileMount : Fat32 := flatMount smallGeometry twoClusterFat [entryA 3 1024]

theorem twoClusterFat_lt (x : Nat) : twoClusterFat x < 2 ^ 32 := by
  unfold twoClusterFat
  split_ifs <;> decide

theorem oneFileMount_clean : CleanMount smallGeometry
    (flatDisk smallGeometry twoClusterFat [entryA 3 1024]) oneFileMount :=
  CleanMount.of_good flat_twoCluster.mount_eq (flat_twoCluster.good_mount twoClusterFat_lt)
    flat_twoCluster.root_valid

/-- The volume after `A` was looked up. -/
def oneFileLookedUp : Fat32 := (oneFileMount.internInode 3 1024 false).2

theorem oneFileMount_entry :
    LiveEntry oneFileMount 2 (rootSlot smallGeometry 0) ∧
      oneFileMount.entryAt (rootSlot smallGeometry 0) = entryA 3 1024 := by
  have hdirs : SameDirs (flatVolume smallGeometry twoClusterFat [entryA 3 1024]) oneFileMount :=
    Flat.sameDirs_mount twoClusterFat_lt
  have hroot : IsDir (flatVolume smallGeometry twoClusterFat [entryA 3 1024]) 2 := IsDir.root
  have hmem : rootSlot smallGeometry 0 ∈
      (flatVolume smallGeometry twoClusterFat [entryA 3 1024]).slotAddrs 2 :=
    flat_twoCluster.mem_slotAddrs.mpr ⟨0, by decide, rfl⟩
  have hent : oneFileMount.entryAt (rootSlot smallGeometry 0) = entryA 3 1024 :=
    (hdirs.entryAt hroot hmem).trans (flat_twoCluster.entryAt_slot (by decide))
  refine ⟨⟨IsDir.root, ?_, ?_⟩, hent⟩
  · rw [hdirs.slotAddrs hroot]
    exact hmem
  · rw [hent]
    decide

theorem oneFileMount_lookup :
    oneFileMount.lookup id 1 [0x41] = (.ok 2, oneFileLookedUp) := by
  have hdirs : SameDirs (flatVolume smallGeometry twoClusterFat [entryA 3 1024]) oneFileMount :=
    Flat.sameDirs_mount twoClusterFat_lt
  have hname : toShortName id [0x41] = nameA := by decide
  have hino : oneFileMount.inodes.get 1 =
      some { firstCluster := 2, size := 0, isDir := true } := rfl
  have hfind : oneFileMount.findSlot 2 nameA = some (rootSlot smallGeometry 0) :=
    (hdirs.findSlot IsDir.root nameA).trans (flat_twoCluster.findSlot_first (by decide))
  rw [lookup, hino]
  simp only [Bool.true_eq_false, if_false]
  rw [hname, findEntry_eq oneFileMount_clean.sound, hfind, Option.map_some, oneFileMount_entry.2]
  rfl

theorem oneFileMount_safe : Op.Safe id oneFileMount (.lookup 1 [0x41]) := fun hdots =>
  absurd hdots (by unfold IsDots; decide)

theorem oneFileLookedUp_inOrder : InOrder oneFileLookedUp := by
  have h := inOrder_lookup oneFileMount_clean.inOrder 1 [0x41] oneFileMount_safe
  rwa [oneFileMount_lookup] at h

theorem oneFileLookedUp_inode :
    oneFileLookedUp.inodes.get 2 = some { firstCluster := 3, size := 1024, isDir := false } := by
  decide

/-- A run that looks `A` up and cuts it to one cluster. -/
theorem noCrossLinks_of_safe_run_cut :
    NoCrossLinks (oneFileLookedUp.truncate 2 512).2 :=
  noCrossLinks_of_safe_run oneFileMount_clean
    (((Reaches.refl _).snoc oneFileMount_safe (by
        rw [Op.exec, oneFileMount_lookup])).snoc (e := .truncate 2 512)
      (fun h => absurd h (by decide)) rfl)

/-- Looking `A` up and truncating it to nothing succeeds, and leaves its entry
with a free cluster. -/
theorem not_noCrossLinks_truncate_one_file :
    CleanMount smallGeometry (flatDisk smallGeometry twoClusterFat [entryA 3 1024])
      oneFileMount ∧
    oneFileMount.lookup id 1 [0x41] = (.ok 2, oneFileLookedUp) ∧
    (oneFileLookedUp.truncate 2 0).1 = .ok () ∧
    ¬ NoCrossLinks (oneFileLookedUp.truncate 2 0).2 := by
  obtain ⟨hlive, hent⟩ := oneFileMount_entry
  have hdirs := sameDirs_internInode oneFileMount 3 1024 false
  have hroot : IsDir oneFileLookedUp 2 := IsDir.root
  have hslots : rootSlot smallGeometry 0 ∈ oneFileLookedUp.slotAddrs 2 :=
    hdirs.slotAddrs hlive.1 ▸ hlive.2.1
  have hent' : oneFileLookedUp.entryAt (rootSlot smallGeometry 0) = entryA 3 1024 :=
    (hdirs.entryAt hlive.1 hlive.2.1).trans hent
  have hlive' : LiveEntry oneFileLookedUp 2 (rootSlot smallGeometry 0) :=
    ⟨hroot, hslots, by
      rw [hent']
      decide⟩
  have hchain : oneFileLookedUp.clusterChain 3 ≠ [] := by
    rw [clusterChain_def]
    exact chainOf_ne_nil_iff.mpr (by decide)
  have hflat : RootFlat oneFileLookedUp := fun a ha he => by
    have ha' : a ∈ oneFileMount.slotAddrs 2 := hdirs.slotAddrs hlive.1 ▸ ha
    rw [oneFileLookedUp, hdirs.entryAt hlive.1 ha'] at he ⊢
    exact flat_twoCluster.rootFlat_mount twoClusterFat_lt a ha' he
  refine ⟨oneFileMount_clean, oneFileMount_lookup, ?_, ?_⟩
  · exact truncate_ok oneFileLookedUp_inOrder.good.described oneFileLookedUp_inode rfl hflat
      IsDir.root 0
  · exact not_noCrossLinks_truncate_zero oneFileLookedUp_inOrder.good oneFileLookedUp_inode rfl
      rfl hchain hlive' (by rw [hent']; rfl)

end AeroOS.Fat32
