import AeroOS.Fat32.Frame

/-!
# FAT32: edits of the names

The effects of the operations on the view of a volume, each with the condition
under which the view stays in order.

* `addIno` and `setIno`: an inode is interned, or gets another head.
* `addSlot` and `addDir`: a directory entry is written, a directory is made.
* `drop`: an entry goes, with the directory and the inode that it named.

`internInode_cases` and `Described.intern` are the interning of inodes over
this.
-/

namespace AeroOS.Fat32

namespace Names

variable {v : Names}

/-- Inode `id` with head `h` besides. -/
def addIno (v : Names) (id h : Nat) (k : Bool) : Names :=
  { v with ino := fun id' h' k' => v.ino id' h' k' ∨ (id' = id ∧ h' = h ∧ k' = k) }

/-- Inode `id` as a file with head `h` instead of what it was. -/
def setIno (v : Names) (id h : Nat) : Names :=
  { v with ino := fun id' h' k' =>
      (v.ino id' h' k' ∧ id' ≠ id) ∨ (id' = id ∧ h' = h ∧ k' = false) }

/-- The slot at `a` of directory `d` naming `h` besides. -/
def addSlot (v : Names) (d a h : Nat) (k : Bool) : Names :=
  { v with slot := fun d' a' h' k' =>
      v.slot d' a' h' k' ∨ (d' = d ∧ a' = a ∧ h' = h ∧ k' = k) }

/-- Directory `h` besides. -/
def addDir (v : Names) (h : Nat) : Names := { v with dir := fun h' => v.dir h' ∨ h' = h }

/-- Without slot `a`, which names `h`, without the directory `h` and its slots,
and without the inodes in `gone`. -/
def drop (v : Names) (a h : Nat) (gone : Nat → Prop) : Names where
  root := v.root
  dir h' := v.dir h' ∧ (h' = h → h' = 0)
  slot d' a' h' k' := v.slot d' a' h' k' ∧ a' ≠ a ∧ (d' = h → d' = 0)
  ino id' h' k' := v.ino id' h' k' ∧ ¬ gone id'

namespace Ok

theorem addIno (hv : v.Ok) {id h : Nat} {k : Bool} (hdir : k = true → v.dir h)
    (hfile : k = false → h ≠ 0 → ¬ v.dir h) (hnew : h ≠ 0 → ∀ id' k', ¬ v.ino id' h k') :
    (v.addIno id h k).Ok where
  root_dir := hv.root_dir
  slot_dir := hv.slot_dir
  ino_dir hi := by
    rcases hi with hi | ⟨-, rfl, rfl⟩
    · exact hv.ino_dir hi
    · exact hdir rfl
  slot_file := hv.slot_file
  ino_file hi h0 := by
    rcases hi with hi | ⟨-, rfl, rfl⟩
    · exact hv.ino_file hi h0
    · exact hfile rfl h0
  slot_unique := hv.slot_unique
  slot_root := hv.slot_root
  ino_unique hi hi' h0 := by
    rcases hi with hi | ⟨rfl, rfl, rfl⟩
    · rcases hi' with hi' | ⟨rfl, rfl, rfl⟩
      · exact hv.ino_unique hi hi' h0
      · exact absurd hi (hnew h0 _ _)
    · rcases hi' with hi' | ⟨rfl, -, -⟩
      · exact absurd hi' (hnew h0 _ _)
      · rfl

theorem setIno (hv : v.Ok) {id h : Nat} (hnew : h ≠ 0 → ¬ v.heads h ∨ v.ino id h false) :
    (v.setIno id h).Ok where
  root_dir := hv.root_dir
  slot_dir := hv.slot_dir
  ino_dir hi := by
    rcases hi with ⟨hi, -⟩ | ⟨-, -, hk⟩
    · exact hv.ino_dir hi
    · cases hk
  slot_file := hv.slot_file
  ino_file hi h0 hd := by
    rcases hi with ⟨hi, -⟩ | ⟨-, rfl, -⟩
    · exact hv.ino_file hi h0 hd
    · rcases hnew h0 with hnot | hold
      · exact hnot (Or.inl hd)
      · exact hv.ino_file hold h0 hd
  slot_unique := hv.slot_unique
  slot_root := hv.slot_root
  ino_unique hi hi' h0 := by
    have hother : ∀ {x k}, v.ino x h k → h ≠ 0 → x = id := fun hx h0 => by
      rcases hnew h0 with hnot | hold
      · exact absurd (Or.inr (Or.inr ⟨_, _, hx⟩)) hnot
      · exact hv.ino_unique hx hold h0
    rcases hi with ⟨hi, hne⟩ | ⟨rfl, rfl, -⟩
    · rcases hi' with ⟨hi', -⟩ | ⟨rfl, rfl, -⟩
      · exact hv.ino_unique hi hi' h0
      · exact hother hi h0
    · rcases hi' with ⟨hi', -⟩ | ⟨rfl, -, -⟩
      · exact (hother hi' h0).symm
      · rfl

theorem addSlot (hv : v.Ok) {d a h : Nat} {k : Bool} (hdir : k = true → v.dir h)
    (hfile : k = false → h ≠ 0 → ¬ v.dir h) (hroot : h ≠ 0 → h ≠ v.root)
    (hnew : h ≠ 0 → ∀ d' a' k', ¬ v.slot d' a' h k') : (v.addSlot d a h k).Ok where
  root_dir := hv.root_dir
  slot_dir hs := by
    rcases hs with hs | ⟨-, -, rfl, rfl⟩
    · exact hv.slot_dir hs
    · exact hdir rfl
  ino_dir := hv.ino_dir
  slot_file hs h0 := by
    rcases hs with hs | ⟨-, -, rfl, rfl⟩
    · exact hv.slot_file hs h0
    · exact hfile rfl h0
  ino_file := hv.ino_file
  slot_unique hs hs' h0 := by
    rcases hs with hs | ⟨-, rfl, rfl, -⟩
    · rcases hs' with hs' | ⟨-, rfl, rfl, -⟩
      · exact hv.slot_unique hs hs' h0
      · exact absurd hs (hnew h0 _ _ _)
    · rcases hs' with hs' | ⟨-, rfl, -, -⟩
      · exact absurd hs' (hnew h0 _ _ _)
      · rfl
  slot_root hs h0 := by
    rcases hs with hs | ⟨-, -, rfl, -⟩
    · exact hv.slot_root hs h0
    · exact hroot h0
  ino_unique := hv.ino_unique

theorem addDir (hv : v.Ok) {h : Nat} (hnew : h ≠ 0 → ¬ v.heads h) : (v.addDir h).Ok where
  root_dir := Or.inl hv.root_dir
  slot_dir hs := Or.inl (hv.slot_dir hs)
  ino_dir hi := Or.inl (hv.ino_dir hi)
  slot_file hs h0 hd := by
    rcases hd with hd | rfl
    · exact hv.slot_file hs h0 hd
    · exact hnew h0 (Or.inr (Or.inl ⟨_, _, _, hs⟩))
  ino_file hi h0 hd := by
    rcases hd with hd | rfl
    · exact hv.ino_file hi h0 hd
    · exact hnew h0 (Or.inr (Or.inr ⟨_, _, hi⟩))
  slot_unique := hv.slot_unique
  slot_root := hv.slot_root
  ino_unique := hv.ino_unique

theorem drop (hv : v.Ok) {d a h : Nat} {k : Bool} {gone : Nat → Prop} (hs : v.slot d a h k)
    (hgone : ∀ id, v.ino id h true → h ≠ 0 → gone id) : (v.drop a h gone).Ok := by
  refine hv.mono ⟨rfl, fun h => h.1, fun h => h.1, fun h => h.1⟩ ⟨hv.root_dir, ?_⟩ ?_ ?_
  · intro heq
    by_contra h0
    exact hv.slot_root hs (heq ▸ h0) heq.symm
  · rintro d' a' h' ⟨hs', hne, -⟩
    refine ⟨hv.slot_dir hs', fun heq => ?_⟩
    by_contra h0
    exact hne (hv.slot_unique hs' (heq ▸ hs) h0)
  · rintro id h' ⟨hi, hng⟩
    refine ⟨hv.ino_dir hi, fun heq => ?_⟩
    subst heq
    by_contra h0
    exact hng (hgone id hi h0)

end Ok

theorem heads_addIno {id h x : Nat} {k : Bool} (hx : (v.addIno id h k).heads x) :
    v.heads x ∨ x = h := by
  rcases hx with hx | hx | ⟨id', k', hx | ⟨-, rfl, -⟩⟩
  · exact Or.inl (Or.inl hx)
  · exact Or.inl (Or.inr (Or.inl hx))
  · exact Or.inl (Or.inr (Or.inr ⟨id', k', hx⟩))
  · exact Or.inr rfl

theorem heads_setIno {id h x : Nat} (hx : (v.setIno id h).heads x) : v.heads x ∨ x = h := by
  rcases hx with hx | hx | ⟨id', k', ⟨hx, -⟩ | ⟨-, rfl, -⟩⟩
  · exact Or.inl (Or.inl hx)
  · exact Or.inl (Or.inr (Or.inl hx))
  · exact Or.inl (Or.inr (Or.inr ⟨id', k', hx⟩))
  · exact Or.inr rfl

theorem heads_addSlot {d a h x : Nat} {k : Bool} (hx : (v.addSlot d a h k).heads x) :
    v.heads x ∨ x = h := by
  rcases hx with hx | ⟨d', a', k', hx | ⟨-, -, rfl, -⟩⟩ | hx
  · exact Or.inl (Or.inl hx)
  · exact Or.inl (Or.inr (Or.inl ⟨d', a', k', hx⟩))
  · exact Or.inr rfl
  · exact Or.inl (Or.inr (Or.inr hx))

theorem heads_addDir {h x : Nat} (hx : (v.addDir h).heads x) : v.heads x ∨ x = h := by
  rcases hx with (hx | rfl) | hx | hx
  · exact Or.inl (Or.inl hx)
  · exact Or.inr rfl
  · exact Or.inl (Or.inr (Or.inl hx))
  · exact Or.inl (Or.inr (Or.inr hx))

theorem heads_drop {a h x : Nat} {gone : Nat → Prop} (hx : (v.drop a h gone).heads x) :
    v.heads x := by
  rcases hx with ⟨hx, -⟩ | ⟨d', a', k', hx, -⟩ | ⟨id', k', hx, -⟩
  · exact Or.inl hx
  · exact Or.inr (Or.inl ⟨d', a', k', hx⟩)
  · exact Or.inr (Or.inr ⟨id', k', hx⟩)

end Names

/-! ## Interning an inode -/

theorem InodeTable.find?_eq_some {t : InodeTable} {h id : Nat} {k : Bool}
    (hf : t.find? h k = some id) :
    ∃ i, t.get id = some i ∧ i.firstCluster = h ∧ i.isDir = k := by
  have hp := List.find?_some hf
  cases hi : t.get id with
  | none =>
    rw [hi] at hp
    cases hp
  | some i =>
    rw [hi] at hp
    simp only [Bool.and_eq_true, beq_iff_eq] at hp
    exact ⟨i, rfl, hp.1, hp.2⟩

theorem InodeTable.find?_eq_none {t : InodeTable} {h : Nat} {k : Bool}
    (hf : t.find? h k = none) {id : Nat} {i : FatInode} (hi : t.get id = some i) :
    ¬ (i.firstCluster = h ∧ i.isDir = k) := by
  have hlt : id < t.next := by
    by_contra hge
    rw [t.fresh id (by omega)] at hi
    cases hi
  have hp := List.find?_eq_none.mp hf id (List.mem_range.mpr hlt)
  rw [hi] at hp
  simpa using hp

theorem InodeTable.insert_get_self (t : InodeTable) (i : FatInode) :
    (t.insert i).get t.next = some i := if_pos rfl

theorem InodeTable.insert_get_of_ne (t : InodeTable) (i : FatInode) {id : Nat}
    (h : id ≠ t.next) : (t.insert i).get id = t.get id := if_neg h

/-- `intern_inode` finds an inode with this cluster and type, or makes the only
one. -/
theorem internInode_cases (s : Fat32) (h size : Nat) (k : Bool) :
    (∃ id i, s.internInode h size k = (id, s) ∧ s.inodes.get id = some i ∧
      i.firstCluster = h ∧ i.isDir = k) ∨
    ((∀ id i, s.inodes.get id = some i → ¬ (i.firstCluster = h ∧ i.isDir = k)) ∧
      s.internInode h size k =
        (s.inodes.next,
          { s with inodes := s.inodes.insert { firstCluster := h, size, isDir := k } })) := by
  rw [internInode]
  cases hf : s.inodes.find? h k with
  | some id =>
    obtain ⟨i, hi, hh, hk⟩ := InodeTable.find?_eq_some hf
    exact Or.inl ⟨id, i, rfl, hi, hh, hk⟩
  | none => exact Or.inr ⟨fun id i hi => InodeTable.find?_eq_none hf hi, rfl⟩

@[simp] theorem internInode_geo (s : Fat32) (h size : Nat) (k : Bool) :
    (s.internInode h size k).2.geo = s.geo := by
  rw [internInode]
  split <;> rfl

@[simp] theorem internInode_fatCache (s : Fat32) (h size : Nat) (k : Bool) :
    (s.internInode h size k).2.fatCache = s.fatCache := by
  rw [internInode]
  split <;> rfl

@[simp] theorem internInode_disk (s : Fat32) (h size : Nat) (k : Bool) :
    (s.internInode h size k).2.disk = s.disk := by
  rw [internInode]
  split <;> rfl

/-- Interning an inode does not concern the directories. -/
theorem sameDirs_internInode (s : Fat32) (h size : Nat) (k : Bool) :
    SameDirs s (s.internInode h size k).2 where
  geo := internInode_geo s h size k
  chain d _ := by
    rw [clusterChain_def, clusterChain_def, internInode_geo, internInode_fatCache]
  bytes _ _ _ _ _ _ := by rw [internInode_disk]

/-- The inode that was interned. -/
theorem internInode_get (s : Fat32) (h size : Nat) (k : Bool) :
    ∃ i, (s.internInode h size k).2.inodes.get (s.internInode h size k).1 = some i ∧
      i.firstCluster = h ∧ i.isDir = k := by
  rcases internInode_cases s h size k with ⟨id, i, heq, hi, hh, hk⟩ | ⟨-, heq⟩
  · rw [heq]
    exact ⟨i, hi, hh, hk⟩
  · rw [heq]
    exact ⟨_, s.inodes.insert_get_self _, rfl, rfl⟩

/-- The inodes that were there before. -/
theorem internInode_get_of_some {s : Fat32} {h size id : Nat} {k : Bool} {i : FatInode}
    (hi : s.inodes.get id = some i) :
    (s.internInode h size k).2.inodes.get id = some i := by
  rcases internInode_cases s h size k with ⟨id', i', heq, -⟩ | ⟨-, heq⟩
  · rw [heq]
    exact hi
  · rw [heq]
    refine (s.inodes.insert_get_of_ne _ ?_).trans hi
    rintro rfl
    rw [s.inodes.fresh _ (Nat.le_refl _)] at hi
    cases hi

/-- The inodes after interning are those from before and the new one. -/
theorem internInode_get_cases {s : Fat32} {h size id : Nat} {k : Bool} {i : FatInode}
    (hi : (s.internInode h size k).2.inodes.get id = some i) :
    s.inodes.get id = some i ∨ i = ⟨h, size, k⟩ := by
  rcases internInode_cases s h size k with ⟨id', i', heq, -⟩ | ⟨-, heq⟩
  · rw [heq] at hi
    exact Or.inl hi
  · rw [heq] at hi
    by_cases hid : id = s.inodes.next
    · subst hid
      rw [InodeTable.insert_get_self] at hi
      exact Or.inr (Option.some.inj hi).symm
    · rw [InodeTable.insert_get_of_ne _ _ hid] at hi
      exact Or.inl hi

/-- Inodes were added, under new ids. -/
structure InodesGrow (s s' : Fat32) : Prop where
  next : s.inodes.next ≤ s'.inodes.next
  old : ∀ id, id < s.inodes.next → s'.inodes.get id = s.inodes.get id

theorem InodesGrow.of_eq {s s' : Fat32} (h : s'.inodes = s.inodes) : InodesGrow s s' :=
  ⟨by rw [h], fun _ _ => by rw [h]⟩

theorem InodesGrow.trans {s s' s'' : Fat32} (h : InodesGrow s s') (h' : InodesGrow s' s'') :
    InodesGrow s s'' where
  next := h.next.trans h'.next
  old id hid := (h'.old id (lt_of_lt_of_le hid h.next)).trans (h.old id hid)

theorem internInode_grow (s : Fat32) (h size : Nat) (k : Bool) :
    InodesGrow s (s.internInode h size k).2 := by
  rcases internInode_cases s h size k with ⟨id, i, heq, -⟩ | ⟨-, heq⟩
  · rw [heq]
    exact InodesGrow.of_eq rfl
  · rw [heq]
    exact ⟨Nat.le_succ _, fun id hid => s.inodes.insert_get_of_ne _ (Nat.ne_of_lt hid)⟩

theorem Names.addIno_eq_self {v : Names} {id h : Nat} {k : Bool} (hi : v.ino id h k) :
    v.addIno id h k = v := by
  have heq : (fun id' h' k' => v.ino id' h' k' ∨ (id' = id ∧ h' = h ∧ k' = k)) = v.ino := by
    funext id' h' k'
    refine propext ⟨fun hor => ?_, Or.inl⟩
    rcases hor with hor | ⟨rfl, rfl, rfl⟩
    · exact hor
    · exact hi
  rw [Names.addIno, heq]

/-- Interning the inode of a name that the view has. -/
theorem Described.intern {s : Fat32} {v : Names} (hd : Described s v) {h : Nat} {k : Bool}
    (hdir : k = true → v.dir h) (hfile : k = false → h ≠ 0 → ¬ v.dir h)
    (hhead : h = 0 ∨ v.heads h) (size : Nat) :
    Described (s.internInode h size k).2 (v.addIno (s.internInode h size k).1 h k) := by
  rcases internInode_cases s h size k with ⟨id, i, heq, hi, hh, hk⟩ | ⟨hnone, heq⟩
  · rw [heq, Names.addIno_eq_self ((hd.covers.ino id h k).mpr ⟨i, hi, hh, hk⟩)]
    exact hd
  rw [heq]
  refine ⟨hd.sound.of_eq rfl rfl, ⟨hd.covers.root, hd.covers.slot, fun id h' k' => ?_⟩, ?_, ?_⟩
  · by_cases hid : id = s.inodes.next
    · subst hid
      have hno : ¬ v.ino s.inodes.next h' k' := by
        intro hi
        obtain ⟨i, hi, -⟩ := (hd.covers.ino _ _ _).mp hi
        rw [s.inodes.fresh _ (Nat.le_refl _)] at hi
        cases hi
      simp only [InodeTable.insert_get_self]
      constructor
      · rintro (hi | ⟨-, rfl, rfl⟩)
        · exact absurd hi hno
        · exact ⟨_, rfl, rfl, rfl⟩
      · rintro ⟨i, hi, rfl, rfl⟩
        cases hi
        exact Or.inr ⟨rfl, rfl, rfl⟩
    · rw [InodeTable.insert_get_of_ne _ _ hid, ← hd.covers.ino id h' k']
      exact ⟨fun hor => hor.elim (fun hi => hi) fun heq => absurd heq.1 hid, Or.inl⟩
  · refine hd.ok.addIno hdir hfile fun h0 id' k' hi => ?_
    obtain ⟨i, hget, hh, hk⟩ := (hd.covers.ino _ _ _).mp hi
    have hne : k' ≠ k := fun hkk => hnone id' i hget ⟨hh, hk.trans hkk⟩
    cases k with
    | false =>
      have hk' : k' = true := by simpa using hne
      exact hfile rfl h0 (hd.ok.ino_dir (hk' ▸ hi))
    | true =>
      have hk' : k' = false := by simpa using hne
      exact hd.ok.ino_file (hk' ▸ hi) h0 (hdir rfl)
  · refine hd.chains.mono fun x hx => ?_
    rcases Names.heads_addIno hx with hx | rfl
    · exact Or.inr hx
    · exact hhead

end AeroOS.Fat32
