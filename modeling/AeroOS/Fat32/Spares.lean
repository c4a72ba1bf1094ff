import AeroOS.Fat32.ListedNames
import AeroOS.Fat32.Tidy

/-!
# FAT32: what operations on directories leave to the files

* `SameChain`: a chain keeps its clusters and the bytes in them.
* `Spares`: every file that is not removed keeps its chain, its inode and its slot, and what
  is new is empty or comes from the disk.  `create_spares`, .., `unlink_spares` say so of the
  operations.
* `Spares.tidy` and `Spares.readAll_eq` are what follows.
-/

namespace AeroOS.Fat32

open Bytes

/-! ## Chains that stay -/

/-- The chain of head `h` keeps its clusters and the bytes in them. -/
structure SameChain (s s' : Fat32) (h : Nat) : Prop where
  geo : s'.geo = s.geo
  chain : s'.clusterChain h = s.clusterChain h
  bytes : ∀ c ∈ s.clusterChain h, ∀ x, s.geo.InCluster c x →
    s'.disk.bytes x = s.disk.bytes x

/-- A head whose chain meets no directory. -/
structure FileHead (s : Fat32) (h : Nat) : Prop where
  head : (namesOf s).heads h
  apart : ∀ d, IsDir s d → ∀ c ∈ s.clusterChain h, c ∉ s.clusterChain d

theorem FileHead.of_inode {s : Fat32} (hg : Good s) {id : Nat} {i : FatInode}
    (hi : s.inodes.get id = some i) (hk : i.isDir = false) : FileHead s i.firstCluster :=
  ⟨heads_of_inode hi, fun _ hd => hg.file_disjoint_dir hi hk hd⟩

theorem FileHead.of_slot {s : Fat32} (hw : WellFormed s) {a : Nat} (ha : IsFileSlot s a) :
    FileHead s (s.entryAt a).firstCluster :=
  ⟨ha.heads, fun _ hd => hw.slot_disjoint_dir ha hd⟩

/-- A file head is no directory, if it has a chain. -/
theorem FileHead.not_dir {s : Fat32} {h : Nat} (hf : FileHead s h) {c : Nat}
    (hc : c ∈ s.clusterChain h) : ¬ IsDir s h := fun hd => hf.apart h hd c hc hc

namespace SameChain

variable {s s' s'' : Fat32} {h : Nat}

theorem refl (s : Fat32) (h : Nat) : SameChain s s h := ⟨rfl, rfl, fun _ _ _ _ => rfl⟩

theorem trans (h₁ : SameChain s s' h) (h₂ : SameChain s' s'' h) : SameChain s s'' h where
  geo := h₂.geo.trans h₁.geo
  chain := h₂.chain.trans h₁.chain
  bytes c hc x hin := (h₂.bytes c (h₁.chain ▸ hc) x (h₁.geo ▸ hin)).trans (h₁.bytes c hc x hin)

/-- Nothing of the volume changes but the inodes and the sectors before the data. -/
theorem of_frame (hgeo : s'.geo = s.geo) (hfat : s'.fatCache = s.fatCache)
    (hdata : ∀ x, s.geo.dataAddr ≤ x → s'.disk.bytes x = s.disk.bytes x) : SameChain s s' h where
  geo := hgeo
  chain := by rw [clusterChain_def, clusterChain_def, hgeo, hfat]
  bytes _ _ _ hin := hdata _ hin.dataAddr_le

theorem zero (hgeo : s'.geo = s.geo) : SameChain s s' 0 := by
  have hnil : ∀ t : Fat32, t.clusterChain 0 = [] := fun t => by
    rw [clusterChain_def, chainOf_zero]
  refine ⟨hgeo, by rw [hnil, hnil], fun c hc => ?_⟩
  rw [hnil] at hc
  exact absurd hc List.not_mem_nil

theorem flush (s : Fat32) (h : Nat) : SameChain s (s.setBytes s.flushedBytes) h :=
  of_frame rfl rfl fun _ hx => s.flushedBytes_out hx

theorem intern (s : Fat32) (first size : Nat) (k : Bool) (h : Nat) :
    SameChain s (s.internInode first size k).2 h :=
  of_frame (internInode_geo ..) (internInode_fatCache ..) fun _ _ => by rw [internInode_disk]

/-- A cluster that was free is marked, and no cluster of the chain is written to. -/
theorem mark {H : Nat → Prop} (hk : ChainsOk s.geo s.fatCache H) (hh : H h) {c : Nat}
    (hc : s.fatCache c = 0) (hgeo : s'.geo = s.geo)
    (hfat : ∀ x, x ≠ c → s'.fatCache x = s.fatCache x)
    (hdata : ∀ c' x, c' ≠ c → 2 ≤ c' → s.geo.InCluster c' x → s'.disk.bytes x = s.disk.bytes x) :
    SameChain s s' h := by
  have hne : ∀ x ∈ s.clusterChain h, x ≠ c := fun x hx hxc =>
    hk.not_mem_of_free hc hh (hxc ▸ hx)
  refine ⟨hgeo, ?_, fun c' hc' x hin => hdata c' x (hne c' hc') ?_ hin⟩
  · rw [clusterChain_def, hgeo]
    exact chainOf_congr fun x hx => hfat x (hne x hx)
  · exact (Geometry.validCluster_iff.mp (s.valid_clusterChain h c' hc')).1

theorem lose {H : Nat → Prop} (hk : ChainsOk s.geo s.fatCache H) (hh : H h) {c : Nat}
    (hc : s.fatCache c = 0) : SameChain s (s.setFat c fatEoc) h :=
  mark hk hh hc rfl (fun _ hx => setFat_of_ne s c fatEoc hx) fun _ _ _ _ _ => rfl

/-- A new directory is made in a free cluster. -/
theorem makeDir {H : Nat → Prop} (hk : ChainsOk s.geo s.fatCache H) (hh : H h) {c : Nat}
    (hv : s.geo.validCluster c = true) (hc : s.fatCache c = 0) (parent : Nat) :
    SameChain s (s.makeDir c parent) h := by
  refine mark hk hh hc rfl (fun _ hx => setFat_of_ne s c fatEoc hx) fun c' x hne h2 hin => ?_
  refine writeBytes_out _ ?_
  rw [freshCluster_length (dotEntries_fit s.geo c parent)]
  have hout : ¬ s.geo.InCluster c x := fun hin' =>
    hne (Geometry.InCluster.unique h2 (Geometry.validCluster_iff.mp hv).1 hin hin')
  unfold Geometry.InCluster at hout
  omega

/-- An entry is written into another chain. -/
theorem entered {H : Nat → Prop} {d a : Nat} {e : RawDirEntry} (he : Entered H s s' d a e)
    (hh : H h) (hd : H d) (hne : h ≠ d) : SameChain s s' h where
  geo := he.geo
  chain := he.others h hh hne
  bytes c hc x hin := by
    refine he.bytes c x (Geometry.validCluster_iff.mp (s.valid_clusterChain h c hc)).1 ?_ hin
    rw [← he.others h hh hne] at hc
    exact he.chains.disj h d hh hd hne c hc

end SameChain

theorem SameChain.entryAt {s s' : Fat32} {d a : Nat} (h : SameChain s s' d)
    (ha : a ∈ s.slotAddrs d) : s'.entryAt a = s.entryAt a := by
  obtain ⟨c, hc, hin⟩ := Geometry.inCluster_of_mem_slotsOf ha
  exact RawDirEntry.ofBytes_congr fun i hi => h.bytes c hc _ (hin i hi)

/-! ## What operations on directories leave -/

/-- The inode is that of an empty file, or agrees with a slot that names a file. -/
def Founded (s : Fat32) (i : FatInode) : Prop :=
  (i.firstCluster = 0 ∧ i.size = 0) ∨ ∃ a, IsFileSlot s a ∧
    (s.entryAt a).firstCluster = i.firstCluster ∧ (s.entryAt a).fileSize = i.size

/-- The files keep their chains, inodes and slots as long as they have them, and what is
new is empty or taken from the disk. -/
structure Spares (s s' : Fat32) : Prop where
  geo : s'.geo = s.geo
  chain : ∀ h, FileHead s h → (namesOf s').heads h → SameChain s s' h
  next : s.inodes.next ≤ s'.inodes.next
  old : ∀ id, id < s.inodes.next →
    s'.inodes.get id = s.inodes.get id ∨ s'.inodes.get id = none
  inode : ∀ id i, s'.inodes.get id = some i → i.isDir = false →
    s.inodes.get id = some i ∨ Founded s i
  slot : ∀ a, IsFileSlot s' a →
    ((s'.entryAt a).firstCluster = 0 ∧ (s'.entryAt a).fileSize = 0) ∨
      IsFileSlot s a ∧ s'.entryAt a = s.entryAt a

theorem isFileSlot_of_slot {s : Fat32} {d a h : Nat} (hs : (namesOf s).slot d a h false) :
    IsFileSlot s a := by
  obtain ⟨hd, ha, he, -, hk⟩ := hs
  exact ⟨⟨d, hd, ha⟩, he, hk⟩

/-- A slot of a file is a slot of every view of the state. -/
theorem Described.fileSlot {s : Fat32} {v : Names} (hd : Described s v) {a : Nat}
    (ha : IsFileSlot s a) : ∃ d, v.slot d a (s.entryAt a).firstCluster false := by
  obtain ⟨d, hslot⟩ := ha.slot
  exact ⟨d, (hd.covers.le hd.ok).slot hslot⟩

namespace Spares

variable {s s' : Fat32}

theorem refl (s : Fat32) : Spares s s where
  geo := rfl
  chain h _ _ := SameChain.refl s h
  next := Nat.le_refl _
  old _ _ := Or.inl rfl
  inode _ _ hi _ := Or.inl hi
  slot _ ha := Or.inr ⟨ha, rfl⟩

/-- Other inodes over the same disk and table. -/
theorem of_frame {w : Names} (hframe : s'.geo = s.geo ∧ s'.fatCache = s.fatCache ∧ s'.disk = s.disk)
    (hw : Described s' w) (hslot : w.slot = (namesOf s).slot) (hgrow : InodesGrow s s')
    (hinode : ∀ id i, s'.inodes.get id = some i → i.isDir = false →
      s.inodes.get id = some i ∨ Founded s i) : Spares s s' where
  geo := hframe.1
  chain _ _ _ := SameChain.of_frame hframe.1 hframe.2.1 fun _ _ => by rw [hframe.2.2]
  next := hgrow.next
  old id hid := Or.inl (hgrow.old id hid)
  inode := hinode
  slot a ha := by
    obtain ⟨d, hs⟩ := hw.fileSlot ha
    rw [hslot] at hs
    exact Or.inr ⟨isFileSlot_of_slot hs, by rw [entryAt, entryAt, hframe.2.2]⟩

/-- A tidy volume stays tidy. -/
theorem tidy (h : Spares s s') (ht : Tidy s) (ho : InOrder s') (hl : LinksOk s') : Tidy s' where
  toInOrder := ho
  links := hl
  inodeFits id i hi hk := by
    rw [h.geo]
    rcases h.inode id i hi hk with hold | ⟨-, h0⟩ | ⟨a, ha, hhead, hsize⟩
    · rw [(h.chain _ (FileHead.of_inode ht.good hold hk) (heads_of_inode hi)).chain]
      exact ht.inodeFits id i hold hk
    · rw [h0]
      exact Nat.zero_le _
    · have hsame := h.chain _ (FileHead.of_slot ht.wellFormed ha)
      rw [hhead] at hsame
      rw [(hsame (heads_of_inode hi)).chain, ← hhead, ← hsize]
      exact ht.slotFits a ha
  slotFits a ha := by
    rw [h.geo]
    rcases h.slot a ha with ⟨-, h0⟩ | ⟨hold, heq⟩
    · rw [h0]
      exact Nat.zero_le _
    · have hhead := ha.heads
      rw [heq] at hhead ⊢
      rw [(h.chain _ (FileHead.of_slot ht.wellFormed hold) hhead).chain]
      exact ht.slotFits a hold

/-- A file that is still there reads as before. -/
theorem readAll_eq (h : Spares s s') (hg : Good s) (hg' : Good s') {id : Nat} {i : FatInode}
    (hi : s.inodes.get id = some i) (hk : i.isDir = false)
    (hlive : s'.inodes.get id ≠ none) : s'.readAll id = s.readAll id := by
  have hi' := ((h.old id (InodeTable.lt_of_get hi)).resolve_right hlive).trans hi
  have hsame := h.chain _ (FileHead.of_inode hg hi hk) (heads_of_inode hi')
  exact readAll_congr hg.sound hg'.sound h.geo hi (hi'.trans hi.symm) ⟨hsame.chain, hsame.bytes⟩

end Spares

section operations

variable {upper : List UInt8 → List UInt8} {s : Fat32} (hg : Good s)

include hg

theorem lookup_spares (dirId : Nat) (name : List UInt8)
    (h : Op.Safe upper s (.lookup dirId name)) : Spares s (s.lookup upper dirId name).2 := by
  have hgrow := lookup_grow upper s dirId name
  have hframe := lookup_frame upper s dirId name
  rcases lookup_described hg.described upper dirId name (fun hdots dir a hd hk hf =>
      h hdots dir a hd hk hf) with
    ⟨e, heq⟩ | ⟨dir, a, id, s', w, hdir, hk, hfind, heq, hw, hd⟩
  · rw [heq]
    exact Spares.refl s
  have hslot : (w.addIno id (s.entryAt a).firstCluster (s.entryAt a).isDir).slot =
      (namesOf s).slot := by
    rcases hw with rfl | rfl <;> rfl
  have hentry : findEntry (s.readDirRaw dir.firstCluster) (toShortName upper name) =
      some (s.entryAt a) := by
    rw [findEntry_eq hg.sound, hfind]
    rfl
  have heq' := heq
  rw [lookup, hdir] at heq'
  simp only [hk, Bool.true_eq_false, if_false, hentry] at heq'
  have hs' : s' = (s.internInode (s.entryAt a).firstCluster (s.entryAt a).fileSize
      (s.entryAt a).isDir).2 := (Prod.mk.inj heq').2.symm
  rw [heq] at hgrow hframe ⊢
  refine Spares.of_frame hframe hd hslot hgrow fun id' i hi hk' => ?_
  rw [hs'] at hi
  rcases internInode_get_cases hi with hold | rfl
  · exact Or.inl hold
  have hka : (s.entryAt a).isDir = false := hk'
  -- `.` and `..` name directories
  have hdots : ¬ IsDots (toShortName upper name) := fun hdots => by
    rw [(h hdots dir a hdir hk hfind).1] at hka
    cases hka
  have hs := hg.described.slot_of_find (hg.described.dir_self hdir hk) hfind hdots
  rw [hka] at hs
  exact Or.inr (Or.inr ⟨a, isFileSlot_of_slot hs, rfl, rfl⟩)

omit hg in
/-- The inodes behind a listing. -/
theorem listEntries_inode {es : List RawDirEntry} {s : Fat32} {id : Nat} {i : FatInode}
    (hi : (listEntries es s).2.inodes.get id = some i) : s.inodes.get id = some i ∨
      ∃ e ∈ es, e.isListed = true ∧ i = ⟨e.firstCluster, e.fileSize, e.isDir⟩ := by
  induction es generalizing s with
  | nil => exact Or.inl hi
  | cons e es ih =>
    rw [listEntries] at hi
    split at hi
    · rcases ih hi with hold | ⟨e', he', h⟩
      · exact Or.inl hold
      · exact Or.inr ⟨e', List.mem_cons_of_mem e he', h⟩
    · rename_i hlisted
      rcases ih hi with hold | ⟨e', he', h⟩
      · rcases internInode_get_cases hold with hold | heq
        · exact Or.inl hold
        · exact Or.inr ⟨e, List.mem_cons_self, by rw [RawDirEntry.isListed]; simpa using hlisted,
            heq⟩
      · exact Or.inr ⟨e', List.mem_cons_of_mem e he', h⟩

theorem readdir_spares (dirId : Nat) : Spares s (s.readdir dirId).2 := by
  have hgrow := readdir_grow s dirId
  have hframe := readdir_frame s dirId
  rcases readdir_described hg.described dirId with
    ⟨e, heq⟩ | ⟨dir, out, s', w, hdir, hk, heq, hd, hmore, -⟩
  · rw [heq]
    exact Spares.refl s
  have heq' := heq
  rw [readdir, hdir] at heq'
  simp only [hk, Bool.true_eq_false, if_false] at heq'
  have hs' : s' = (listEntries (s.readDirRaw dir.firstCluster) s).2 := (Prod.mk.inj heq').2.symm
  rw [heq] at hgrow hframe ⊢
  refine Spares.of_frame hframe hd hmore.slot hgrow fun id' i hi hk' => ?_
  rw [hs'] at hi
  rcases listEntries_inode hi with hold | ⟨e, he, hlisted, rfl⟩
  · exact Or.inl hold
  rw [readDirRaw_eq hg.sound] at he
  obtain ⟨a, ha, rfl⟩ := List.mem_map.mp he
  have hka : (s.entryAt a).isDir = false := hk'
  exact Or.inr (Or.inr ⟨a, ⟨⟨_, hg.described.dir_self hdir hk, ha⟩,
    RawDirEntry.isEntry_of_isListed hlisted, hka⟩, rfl, rfl⟩)

omit hg in
/-- A slot of a file that was there before an entry was written keeps its entry. -/
theorem Entered.fileSlot {H : Nat → Prop} {s' : Fat32} {d a b f : Nat} {e : RawDirEntry}
    (h : Entered H s s' d a e) (hd : H d) (hf : H f) (hb : b ∈ s.slotAddrs f)
    (hused : (s.entryAt b).isFree = false) : s'.entryAt b = s.entryAt b := by
  by_cases hfd : f = d
  · subst hfd
    refine (h.kept b hb).2 fun hba => ?_
    subst hba
    rw [h.wasFree f hf hb] at hused
    cases hused
  · exact h.other_slot hd hf hfd hb

omit hg in
theorem RawDirEntry.isFree_of_isEntry {e : RawDirEntry} (h : e.isEntry = true) :
    e.isFree = false := by
  simp only [isEntry, Bool.and_eq_true, Bool.not_eq_true'] at h
  exact h.1.1.1

omit hg in
/-- Clusters were marked, and no slot and no inode is other than before. -/
theorem Spares.of_sameChains {s' : Fat32} {w : Names} (hgeo : s'.geo = s.geo)
    (hino : s'.inodes = s.inodes) (hsame : ∀ h, (namesOf s).heads h → SameChain s s' h)
    (hw : Described s' w) (hslot : w.slot = (namesOf s).slot) : Spares s s' where
  geo := hgeo
  chain h hf _ := hsame h hf.head
  next := by rw [hino]
  old _ _ := Or.inl (by rw [hino])
  inode _ _ hi _ := Or.inl (by rw [← hino]; exact hi)
  slot b hb := by
    obtain ⟨d, hs⟩ := hw.fileSlot hb
    rw [hslot] at hs
    have hold := isFileSlot_of_slot hs
    obtain ⟨hd, hb', -⟩ := hs
    exact Or.inr ⟨hold, (hsame d (Or.inl hd)).entryAt hb'⟩

/-- An entry was written and its inode interned, behind a change that keeps the chains. -/
theorem Spares.of_entered {s₁ s₂ : Fat32} {H : Nat → Prop} {d a f n : Nat} {k : Bool}
    {e : RawDirEntry} {w : Names} (hgeo : s₁.geo = s.geo) (hino : s₁.inodes = s.inodes)
    (hsame : ∀ h, (namesOf s).heads h → SameChain s s₁ h)
    (hH : ∀ h, (namesOf s).heads h → H h) (hd : IsDir s d) (hent : Entered H s₁ s₂ d a e)
    (hfresh : k = true ∨ f = 0 ∧ n = 0) (hw : Described (s₂.internInode f n k).2 w)
    (hslot : ∀ d' b h, w.slot d' b h false → (namesOf s).slot d' b h false ∨
      b = a ∧ e.firstCluster = 0 ∧ e.fileSize = 0) :
    Spares s (s₂.internInode f n k).2 where
  geo := (internInode_geo ..).trans (hent.geo.trans hgeo)
  chain h hf _ := by
    by_cases h0 : h = 0
    · rw [h0]
      exact SameChain.zero ((internInode_geo ..).trans (hent.geo.trans hgeo))
    have hne : h ≠ d := by
      -- a directory and a file share no chain
      rintro rfl
      have hnil : s.clusterChain h = [] :=
        List.eq_nil_iff_forall_not_mem.mpr fun c hc => hf.not_dir hc hd
      exact chainOf_ne_nil_iff.mpr ((hg.chains.valid h hf.head).resolve_left h0) hnil
    have hstep := SameChain.entered hent (hH h hf.head) (hH d (Or.inl hd)) hne
    exact (hsame h hf.head).trans (hstep.trans (SameChain.intern s₂ f n k h))
  next := by
    rw [← hino, ← hent.inodes]
    exact (internInode_grow s₂ f n k).next
  old id hid := by
    rw [← hino, ← hent.inodes] at hid ⊢
    exact Or.inl ((internInode_grow s₂ f n k).old id hid)
  inode _ _ hi hk := by
    rcases internInode_get_cases hi with hold | rfl
    · rw [hent.inodes, hino] at hold
      exact Or.inl hold
    · rcases hfresh with hk' | h0
      · exact absurd (hk'.symm.trans hk) (by decide)
      · exact Or.inr (Or.inl h0)
  slot b hb := by
    rw [internInode_entryAt]
    obtain ⟨d', hs⟩ := hw.fileSlot hb
    rcases hslot d' b _ hs with hs | ⟨rfl, hzero⟩
    · have hold := isFileSlot_of_slot hs
      obtain ⟨hd', hb', he', -, -⟩ := hs
      have hstep := hsame d' (Or.inl hd')
      have hentry := hstep.entryAt hb'
      have hb₁ : b ∈ s₁.slotAddrs d' := by
        rw [slotAddrs, hgeo, hstep.chain]
        exact hb'
      refine Or.inr ⟨hold, Eq.trans ?_ hentry⟩
      exact hent.fileSlot (hH d (Or.inl hd)) (hH d' (Or.inl hd')) hb₁
        (hentry ▸ RawDirEntry.isFree_of_isEntry he')
    · rw [hent.entry]
      exact Or.inl hzero

theorem create_spares (dirId : Nat) (name : List UInt8) :
    Spares s (s.create upper dirId name).2 := by
  cases hdir : s.inodes.get dirId with
  | none =>
    rw [create, hdir]
    exact Spares.refl s
  | some dir =>
  rcases @create_described upper _ _ hg.described _ _ hdir name with
    ⟨e, s', heq, hd, -, -⟩ | ⟨a, s₁, hk, -, hent, -, heq, hd⟩
  · rcases @create_cases upper _ _ hg.sound hg.chains _ _ hdir (heads_of_inode hdir) name with
      ⟨e', heq'⟩ | ⟨c, e', -, hc, heq'⟩ | ⟨-, -, a, s₁, -, heq'⟩
    · rw [heq']
      exact Spares.refl s
    · rw [heq'] at heq ⊢
      obtain ⟨-, rfl⟩ := Prod.mk.inj heq
      exact Spares.of_sameChains rfl rfl (fun h hh => SameChain.lose hg.chains hh hc) hd rfl
    · rw [heq'] at heq
      cases heq
  · rw [heq]
    refine Spares.of_entered hg rfl rfl (fun h _ => SameChain.refl s h) (fun _ hh => hh)
      (IsDir.inode hdir hk) hent (Or.inr ⟨rfl, rfl⟩) hd fun d' b h hs => ?_
    rcases hs with hs | ⟨-, rfl, -, -⟩
    · exact Or.inl hs
    · exact Or.inr ⟨rfl, RawDirEntry.firstCluster_new (by decide), rfl⟩

theorem mkdir_spares (dirId : Nat) (name : List UInt8) :
    Spares s (s.mkdir upper dirId name).2 := by
  cases hdir : s.inodes.get dirId with
  | none =>
    rw [mkdir, hdir]
    exact Spares.refl s
  | some dir =>
  rcases @mkdir_cases upper _ hg.sound _ _ hdir name with
    ⟨e, heq⟩ | ⟨c, hv, hc, hk, -, hcases⟩
  · rw [heq]
    exact Spares.refl s
  have hmade : ∀ h, (namesOf s).heads h → SameChain s (s.makeDir c dir.firstCluster) h :=
    fun h hh => SameChain.makeDir hg.chains hh hv hc dir.firstCluster
  obtain ⟨hd₁, -⟩ := hg.described.made hv hc dir.firstCluster
  have hH : ∀ h, (namesOf s).heads h → ((namesOf s).addDir c).heads h := fun h hh =>
    hh.imp_left Or.inl
  have hstored : (newDirEntry upper name c).stored = newDirEntry upper name c :=
    RawDirEntry.stored_new _ _ _ _
  have hwrite := writeDirEntry_cases hd₁.sound hd₁.chains (hH _ (heads_of_inode hdir)) hstored
  rcases @mkdir_described upper _ _ hg.described _ _ hdir name with
    ⟨e', s', heq', hd, -, -⟩ | ⟨c', a', s₁, s₂, -, -, -, -, -, -, -, -, heq', hd⟩
  · rcases hcases with ⟨e, t, hw, heq⟩ | ⟨t, hw, heq⟩
    · rw [heq] at heq' ⊢
      obtain ⟨-, rfl⟩ := Prod.mk.inj heq'
      rcases hwrite with ⟨e₂, hw'⟩ | ⟨c₂, e₂, -, hc₂, hw'⟩ | ⟨a, s₂, -, hw'⟩
      · rw [hw] at hw'
        obtain ⟨-, rfl⟩ := Prod.mk.inj hw'
        exact Spares.of_sameChains rfl rfl hmade hd rfl
      · rw [hw] at hw'
        obtain ⟨-, rfl⟩ := Prod.mk.inj hw'
        exact Spares.of_sameChains rfl rfl (fun h hh => (hmade h hh).trans
          (SameChain.lose hd₁.chains (hH h hh) hc₂)) hd rfl
      · rw [hw] at hw'
        cases hw'
    · rcases hwrite with ⟨e₂, hw'⟩ | ⟨c₂, e₂, -, -, hw'⟩ | ⟨a, s₂, hent, hw'⟩
      · rw [hw] at hw'
        cases hw'
      · rw [hw] at hw'
        cases hw'
      · rw [hw] at hw'
        obtain ⟨-, rfl⟩ := Prod.mk.inj hw'
        rw [heq (hd₁.sound.of_eq hent.geo hent.present)] at heq'
        cases heq'
  · rcases hcases with ⟨e, t, -, heq⟩ | ⟨t, hw, heq⟩
    · rw [heq] at heq'
      cases heq'
    rcases hwrite with ⟨e₂, hw'⟩ | ⟨c₂, e₂, -, -, hw'⟩ | ⟨a, s₃, hent, hw'⟩
    · rw [hw] at hw'
      cases hw'
    · rw [hw] at hw'
      cases hw'
    rw [hw] at hw'
    obtain ⟨-, rfl⟩ := Prod.mk.inj hw'
    have hend := heq (hd₁.sound.of_eq hent.geo hent.present)
    rw [hend] at heq' ⊢
    rw [← (Prod.mk.inj heq').2] at hd
    have hino : (s.makeDir c dir.firstCluster).inodes = s.inodes := rfl
    refine Spares.of_entered hg (hmade _ (heads_of_inode hdir)).geo hino hmade hH
      (IsDir.inode hdir hk) hent.flush (Or.inl rfl) hd fun d' b h hs => ?_
    rcases hs with hs | ⟨-, -, -, hkind⟩
    · exact Or.inl hs
    · cases hkind

omit hg in
/-- The disk behind the removal of an entry. -/
theorem erase_bytes (s : Fat32) (h r : Nat) (k : Bool) {x : Nat} (hx : s.geo.dataAddr ≤ x) :
    (s.erase h r k).disk.bytes x = writeBytes s.disk.bytes r [0xE5] x := by
  obtain ⟨hgeo, -, -, -⟩ := s.freeEntry_frame h
  rw [erase]
  simp only [dropVictim_disk, setBytes_bytes]
  rw [Fat32.flushedBytes_out _ (by rw [setBytes_geo, hgeo]; exact hx), setBytes_bytes]

omit hg in
theorem erase_get (s : Fat32) (h r : Nat) (k : Bool) (x : Nat) : (s.erase h r k).inodes.get x =
    if s.inodes.find? h k = some x then none else s.inodes.get x := by
  obtain ⟨-, hino, -, -⟩ := s.freeEntry_frame h
  rw [erase, dropVictim_get, setBytes_inodes, setBytes_inodes, hino]

omit hg in
theorem erase_clusterChain (s : Fat32) (h r : Nat) (k : Bool) (x : Nat) :
    (s.erase h r k).clusterChain x = (s.freeEntry h).clusterChain x := by
  rw [clusterChain_def, clusterChain_def, erase, dropVictim_geo, dropVictim_fatCache, setBytes_geo,
    setBytes_geo, setBytes_fatCache, setBytes_fatCache]

theorem unlink_spares (hself : (namesOf s).NoSelf) (dirId : Nat) (name : List UInt8)
    (hsafe : Op.Safe upper s (.unlink dirId name)) :
    Spares s (s.unlink upper dirId name).2 := by
  rcases unlink_described hg.described hself dirId name hsafe with
    ⟨e, heq⟩ | ⟨dir, a, s', gone, hdir, hk, hfind, heq, hun⟩
  · rw [heq]
    exact Spares.refl s
  rcases @unlink_cases upper _ hg.sound dirId name with
    ⟨e, heq'⟩ | ⟨dir', a', hdir', -, hfind', hcase⟩
  · rw [heq'] at heq
    cases heq
  obtain rfl := Option.some.inj (hdir.symm.trans hdir')
  obtain rfl := Option.some.inj (hfind.symm.trans hfind')
  rcases hcase with ⟨-, heq'⟩ | ⟨r, hr, heq'⟩
  · rw [heq'] at heq
    cases heq
  rw [heq'] at heq ⊢
  obtain ⟨-, rfl⟩ := Prod.mk.inj heq
  obtain ⟨hisDir, ha, -⟩ := hun.slot
  obtain ⟨hchain, -⟩ := hg.described.freeEntry_chains hun.slot
  have hra : r = a := by
    have hne : dir.firstCluster = (s.entryAt a).firstCluster → dir.firstCluster = 0 := fun heq => by
      by_contra h0
      exact hself hun.slot (heq ▸ h0) heq.symm
    rw [slotAddrs, hchain _ (Or.inl hisDir) hne, (s.freeEntry_frame _).1, ← slotAddrs,
      (hsafe dir a hdir hk hfind).2] at hr
    exact (Option.some.inj hr).symm
  subst hra
  have hgeo : (s.erase (s.entryAt r).firstCluster r (s.entryAt r).isDir).geo = s.geo := by
    rw [erase, dropVictim_geo, setBytes_geo, setBytes_geo, (s.freeEntry_frame _).1]
  refine ⟨hgeo, fun h hf hh => ?_, hun.next.ge, fun id _ => ?_, fun id i hi _ => ?_,
    fun b hb => ?_⟩
  · -- the head that goes is no head any more
    have hne : h = (s.entryAt r).firstCluster → h = 0 := fun heq => by
      by_contra h0
      refine hg.described.not_heads_drop hun.slot hun.gone_iff (heq ▸ h0) ?_
      exact heq ▸ (hun.described.covers.le hun.described.ok).heads hh
    refine ⟨hgeo, (erase_clusterChain ..).trans (hchain h hf.head hne), fun c hc x hin => ?_⟩
    rw [erase_bytes _ _ _ _ hin.dataAddr_le]
    refine writeBytes_out _ ?_
    rw [List.length_singleton]
    -- the byte that is written lies in the directory
    obtain ⟨c', hc', hin'⟩ := Geometry.inCluster_of_mem_slotsOf ha
    have hcc : c ≠ c' := fun heq => hf.apart _ hisDir c hc (heq ▸ hc')
    have hrx : r ≠ x := by
      rintro rfl
      exact hcc (Geometry.InCluster.unique
        (Geometry.validCluster_iff.mp (s.valid_clusterChain h c hc)).1
        (Geometry.validCluster_iff.mp (s.valid_clusterChain _ c' hc')).1 hin (hin' 0 (by omega)))
    omega
  · rw [erase_get]
    split
    · exact Or.inr rfl
    · exact Or.inl rfl
  · rw [erase_get] at hi
    split at hi
    · cases hi
    · exact Or.inl hi
  · obtain ⟨d', hs, hbr, hd'⟩ := hun.described.fileSlot hb
    have hold := isFileSlot_of_slot hs
    obtain ⟨hdd, hb', -⟩ := hs
    exact Or.inr ⟨hold, (hun.kept d' hdd hd').2 b hb' hbr⟩

end operations

end AeroOS.Fat32
