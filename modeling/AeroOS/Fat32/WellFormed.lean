import AeroOS.Fat32.NameEdits

/-!
# FAT32: well-formed volumes

* `readAll` is a file as `read` returns it, `slotContents` a file as its
  directory entry describes it.
* `WellFormed` is a volume whose chains end, do not meet and hold their files.
  `WellFormed.good` gives the order of names and chains that the operations
  rely on.
* `WellFormed.refill`: other bytes in one file and in the free clusters leave
  a volume well formed.
-/

namespace AeroOS.Fat32

open Bytes

/-! ## Contents -/

/-- The whole file as `read` returns it. -/
def readAll (s : Fat32) (id : Nat) : Option (List UInt8) :=
  match s.read id 0 (List.replicate (s.size id) 0) with
  | .ok (n, buf) => some (buf.take n)
  | .error _ => none

theorem readAll_eq {s : Fat32} (hs : Sound s) {id : Nat} {i : FatInode}
    (hi : s.inodes.get id = some i) (hk : i.isDir = false)
    (hsize : i.size ≤ (s.clusterChain i.firstCluster).length * s.geo.bytesPerCluster)
    (hlt : i.size < 2 ^ 64) :
    s.readAll id = some (readBytes (fileView s.geo (s.clusterChain i.firstCluster)
      s.disk.bytes) 0 i.size) := by
  have hsz : s.size id = i.size := by
    rw [size, hi]
    rfl
  rw [readAll, read, hi, hsz]
  simp only [hk, Bool.false_eq_true, false_or]
  by_cases h0 : i.size = 0
  · simp [h0]
  rw [if_neg (by simpa using h0), if_neg (by omega)]
  have hstop : min i.size ((0 + (List.replicate i.size (0 : UInt8)).length) % 2 ^ 64) =
      i.size := by
    rw [List.length_replicate, Nat.zero_add, Nat.mod_eq_of_lt hlt, Nat.min_self]
  rw [hstop, readLoop_eq hs (s.valid_clusterChain _) hsize (Nat.le_refl 0) (by simp)]
  simp only [Nat.sub_zero, Nat.zero_add]
  rw [patch_all (by simp), List.take_of_length_le (by simp)]

/-- A regular file on the disk: the slot of a directory that names it. -/
def IsFileSlot (s : Fat32) (a : Nat) : Prop :=
  (∃ d, IsDir s d ∧ a ∈ s.slotAddrs d) ∧ (s.entryAt a).isEntry = true ∧
    (s.entryAt a).isDir = false

/-- The slot of a file is a name of the volume. -/
theorem IsFileSlot.slot {s : Fat32} {a : Nat} (ha : IsFileSlot s a) :
    ∃ d, (namesOf s).slot d a (s.entryAt a).firstCluster false := by
  obtain ⟨⟨d, hd, had⟩, he, hk⟩ := ha
  exact ⟨d, hd, had, he, rfl, hk⟩

theorem IsFileSlot.heads {s : Fat32} {a : Nat} (ha : IsFileSlot s a) :
    (namesOf s).heads (s.entryAt a).firstCluster := by
  obtain ⟨d, hslot⟩ := ha.slot
  exact Or.inr (Or.inl ⟨d, a, _, hslot⟩)

/-- The contents of the file that a slot names. -/
def slotContents (s : Fat32) (a : Nat) : List UInt8 :=
  readBytes (fileView s.geo (s.clusterChain (s.entryAt a).firstCluster) s.disk.bytes) 0
    (s.entryAt a).fileSize

/-- A volume whose files and directories have chains of their own, each ended
by an end mark and without a cycle, and long enough for the file. -/
structure WellFormed (s : Fat32) : Prop where
  sound : Sound s
  names : (namesOf s).Ok
  valid : ∀ h, (namesOf s).heads h → h = 0 ∨ s.geo.validCluster h = true
  acyclic : ∀ h, (namesOf s).heads h → (s.clusterChain h).Nodup
  ended : ∀ h, (namesOf s).heads h → ∀ x ∈ (s.clusterChain h).getLast?,
    fatEoc - 1 ≤ s.fatCache x
  disjoint : ∀ h h', (namesOf s).heads h → (namesOf s).heads h' → h ≠ h' →
    ∀ x ∈ s.clusterChain h, x ∉ s.clusterChain h'
  inodeFits : ∀ id i, s.inodes.get id = some i → i.isDir = false →
    i.size ≤ (s.clusterChain i.firstCluster).length * s.geo.bytesPerCluster
  slotFits : ∀ a, IsFileSlot s a → (s.entryAt a).fileSize ≤
    (s.clusterChain (s.entryAt a).firstCluster).length * s.geo.bytesPerCluster

/-- A file reads as before when its inode, its chain and the bytes of the chain are kept. -/
theorem readAll_congr {s s' : Fat32} (hs : Sound s) (hs' : Sound s') (hgeo : s'.geo = s.geo)
    {id : Nat} {i : FatInode} (hi : s.inodes.get id = some i)
    (hget : s'.inodes.get id = s.inodes.get id)
    (hchain : s'.clusterChain i.firstCluster = s.clusterChain i.firstCluster ∧
      ∀ c ∈ s.clusterChain i.firstCluster, ∀ x, s.geo.InCluster c x →
        s'.disk.bytes x = s.disk.bytes x) : s'.readAll id = s.readAll id := by
  have hsz : s'.size id = s.size id := by rw [size, size, hget]
  rw [readAll, readAll, hsz, read_congr hs hs' hgeo hget fun j hj => ?_]
  rw [hi] at hj
  exact Option.some.inj hj ▸ hchain

/-- The store has other bytes in the chain of `first` and in free clusters at
most. -/
def Refilled (s : Fat32) (first : Nat) (m : Store) : Prop :=
  ∀ x, (∀ c, s.geo.validCluster c = true → c ∈ s.clusterChain first ∨ s.fatCache c = 0 →
    ¬ s.geo.InCluster c x) → m x = s.disk.bytes x

namespace WellFormed

variable {s : Fat32} (hw : WellFormed s)

include hw

/-- A chain with an end mark has no free cluster. -/
theorem good : Good s where
  sound := hw.sound
  names := hw.names
  chains :=
    { valid := hw.valid
      nodup := hw.acyclic
      alloc := fun h hh x hx h0 => by
        have hnone : nextCluster s.fatCache x = none := if_pos (Or.inr h0)
        have hlast := Chain.getLast?_walk_of_none hx hnone
        have := hw.ended h hh x hlast
        simp only [fatEoc] at this
        omega
      disj := hw.disjoint }

/-- Other bytes in the file and in free clusters leave the directories alone. -/
theorem sameDirs {id : Nat} {i : FatInode} (hi : s.inodes.get id = some i)
    (hk : i.isDir = false) {m : Store} (hm : s.Refilled i.firstCluster m) :
    SameDirs s (s.setBytes m) where
  geo := rfl
  chain _ _ := rfl
  bytes d hd c hc x hin := by
    refine hm x fun c' hv' hor hin' => ?_
    have hv := s.valid_clusterChain d c hc
    have heq := Geometry.InCluster.unique (Geometry.validCluster_iff.mp hv).1
      (Geometry.validCluster_iff.mp hv').1 hin hin'
    subst heq
    rcases hor with hor | hor
    · exact hw.good.file_disjoint_dir hi hk hd c hor hc
    · exact hw.good.chains.alloc d (Or.inl hd) c hc hor

/-- Other bytes in the file and in free clusters leave a volume well formed. -/
theorem refill {id : Nat} {i : FatInode} (hi : s.inodes.get id = some i)
    (hk : i.isDir = false) {m : Store} (hm : s.Refilled i.firstCluster m) :
    WellFormed (s.setBytes m) := by
  have hdirs := hw.sameDirs hi hk hm
  have hc : Covers (s.setBytes m) (namesOf s) := hdirs.covers rfl
  have hle := hc.le hw.names
  have hg : Good (s.setBytes m) :=
    Described.good ⟨hw.sound.setBytes m, hc, hw.names, hw.good.chains⟩
  exact
    { sound := hg.sound
      names := hg.names
      valid := hg.chains.valid
      acyclic := hg.chains.nodup
      ended := fun h hh => hw.ended h (hle.heads hh)
      disjoint := hg.chains.disj
      inodeFits := hw.inodeFits
      slotFits := fun a ha => by
        obtain ⟨⟨d, hd, had⟩, he, hk'⟩ := ha
        have hd' : IsDir s d := hle.dir hd
        have had' : a ∈ s.slotAddrs d := had
        have hent := hdirs.entryAt hd' had'
        rw [hent] at he hk' ⊢
        exact hw.slotFits a ⟨⟨d, hd', had'⟩, he, hk'⟩ }

theorem size_lt {id : Nat} {i : FatInode} (hi : s.inodes.get id = some i)
    (hk : i.isDir = false) : i.size < 2 ^ 64 := by
  have hfit := hw.inodeFits id i hi hk
  have hlen := chainOf_length_lt (hw.acyclic _ (heads_of_inode hi))
  have hB : s.geo.bytesPerCluster < 2 ^ 17 := by
    have := s.geo.sectorsPerCluster_lt
    rw [s.geo.bytesPerCluster_eq]
    omega
  have hmul := Nat.mul_le_mul (Nat.le_of_lt hlen) (Nat.le_of_lt hB)
  simp only [chainGuard] at hmul
  exact (hfit.trans hmul).trans_lt (by decide)

theorem readAll_eq {id : Nat} {i : FatInode} (hi : s.inodes.get id = some i)
    (hk : i.isDir = false) :
    s.readAll id = some (readBytes (fileView s.geo (s.clusterChain i.firstCluster)
      s.disk.bytes) 0 i.size) :=
  Fat32.readAll_eq hw.sound hi hk (hw.inodeFits id i hi hk) (hw.size_lt hi hk)

/-- The chain of a file on the disk meets no directory. -/
theorem slot_disjoint_dir {a : Nat} (ha : IsFileSlot s a) {d : Nat} (hd : IsDir s d) :
    ∀ c ∈ s.clusterChain (s.entryAt a).firstCluster, c ∉ s.clusterChain d := by
  intro c hc
  by_cases h0 : (s.entryAt a).firstCluster = 0
  · rw [h0, clusterChain_def, chainOf_zero] at hc
    exact absurd hc List.not_mem_nil
  · obtain ⟨d', hslot⟩ := ha.slot
    refine hw.disjoint _ d ha.heads (Or.inl hd) ?_ c hc
    rintro rfl
    exact hw.names.slot_file hslot h0 hd

/-- A file on the disk keeps its contents when its entry, its chain and the bytes of the
chain are kept. -/
theorem slotContents_congr {s' : Fat32} {a : Nat} (ha : IsFileSlot s a) (hgeo : s'.geo = s.geo)
    (hentry : s'.entryAt a = s.entryAt a)
    (hchain : s'.clusterChain (s.entryAt a).firstCluster =
        s.clusterChain (s.entryAt a).firstCluster ∧
      ∀ c ∈ s.clusterChain (s.entryAt a).firstCluster, ∀ x, s.geo.InCluster c x →
        s'.disk.bytes x = s.disk.bytes x) : s'.slotContents a = s.slotContents a := by
  have hfit := hw.slotFits a ha
  rw [slotContents, slotContents, hentry, hchain.1, hgeo]
  exact readBytes_congr fun p _ hp => fileView_congr (by omega) hchain.2

/-- Interning a name of the volume leaves it well formed. -/
theorem intern {d a h size : Nat} {k : Bool} (hslot : (namesOf s).slot d a h k)
    (hsize : k = false → size ≤ (s.clusterChain h).length * s.geo.bytesPerCluster) :
    WellFormed (s.internInode h size k).2 := by
  have hdir : k = true → (namesOf s).dir h := fun hk => hw.names.slot_dir (hk ▸ hslot)
  have hfile : k = false → h ≠ 0 → ¬ (namesOf s).dir h := fun hk h0 =>
    hw.names.slot_file (hk ▸ hslot) h0
  have hhead : (namesOf s).heads h := Or.inr (Or.inl ⟨d, a, k, hslot⟩)
  have hd := hw.good.described.intern hdir hfile (Or.inr hhead) size
  have hg := hd.good
  have hheads : ∀ x, (namesOf (s.internInode h size k).2).heads x → (namesOf s).heads x := by
    intro x hx
    rcases Names.heads_addIno ((hd.covers.le hd.ok).heads hx) with hx | rfl
    · exact hx
    · exact hhead
  have hchain : ∀ x, (s.internInode h size k).2.clusterChain x = s.clusterChain x := fun x => by
    rw [clusterChain_def, clusterChain_def, internInode_geo, internInode_fatCache]
  have hslots : ∀ x, (s.internInode h size k).2.entryAt x = s.entryAt x := fun x => by
    rw [entryAt, entryAt, internInode_disk]
  refine ⟨hg.sound, hg.names, hg.chains.valid, hg.chains.nodup, ?_, hg.chains.disj, ?_, ?_⟩
  · intro x hx y hy
    rw [hchain] at hy
    rw [internInode_fatCache]
    exact hw.ended x (hheads x hx) y hy
  · intro id i hi hk'
    rw [hchain, internInode_geo]
    rcases internInode_get_cases hi with hold | rfl
    · exact hw.inodeFits id i hold hk'
    · exact hsize hk'
  · rintro x ⟨⟨d', hd', hx⟩, he, hk'⟩
    have hdd : IsDir s d' := (hd.covers.le hd.ok).dir hd'
    rw [slotAddrs, hchain, internInode_geo] at hx
    rw [hslots] at he hk' ⊢
    rw [hchain, internInode_geo]
    exact hw.slotFits x ⟨⟨d', hdd, hx⟩, he, hk'⟩

end WellFormed

end AeroOS.Fat32
