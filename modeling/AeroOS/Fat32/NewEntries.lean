import AeroOS.Fat32.ListedNames
import AeroOS.Fat32.Persist

/-!
# FAT32: seeing what was made

`create` and `mkdir` put the short name of the new entry where `readdir` and
`lookup` read the marks of free slots and of the dot entries.

* `Joined`: a directory has one entry more, and is otherwise the same.
* `visible_of_joined`: when the entry is found under its name, listed, and found
  under the name it is listed by.
* `visible_iff` is this for `create` and `mkdir`.
-/

namespace AeroOS.Fat32

open Build Bytes

variable {upper : List UInt8 → List UInt8} {s s₁ s' : Fat32} {d dirId : Nat} {e : RawDirEntry}
  {name short : List UInt8}

/-! ## One entry more -/

theorem Geometry.slotsOf_nodup {g : Geometry} {cs : List Nat} (hnd : cs.Nodup)
    (hcs : ∀ c ∈ cs, g.validCluster c = true) : (g.slotsOf cs).Nodup := by
  refine List.nodup_flatMap.mpr ⟨fun c _ => ?_, hnd.imp_of_mem fun hc hc' hne => ?_⟩
  · exact List.nodup_range.map fun i j h => by
      simp only [Nat.add_left_cancel_iff] at h
      omega
  · intro a ha ha'
    obtain ⟨i, hi, rfl⟩ := List.mem_map.mp ha
    obtain ⟨j, hj, heq⟩ := List.mem_map.mp ha'
    rw [List.mem_range] at hi hj
    have hin : ∀ c k, k < g.bytesPerCluster / 32 → g.InCluster c (g.clusterAddr c + k * 32) :=
      fun c k hk => Geometry.inCluster_add (by omega)
    exact hne (Geometry.InCluster.unique (Geometry.validCluster_iff.mp (hcs _ hc)).1
      (Geometry.validCluster_iff.mp (hcs _ hc')).1 (hin _ i hi) (heq ▸ hin _ j hj))

/-- The entries of a directory whose slots are in use. -/
def usedEntries (s : Fat32) (d : Nat) : List RawDirEntry :=
  (s.readDirRaw d).filter fun e => !e.isFree

/-- The directory has entry `e` in addition, if it marks its slot as used. -/
structure Joined (s s' : Fat32) (d : Nat) (e : RawDirEntry) : Prop where
  used : (s'.usedEntries d).Perm ((if e.isFree then [] else [e]) ++ s.usedEntries d)
  plain : e.isLfn = false
  new : findEntry (s.readDirRaw d) e.name = none

theorem usedEntries_eq (hs : Sound s) (d : Nat) : s.usedEntries d =
    ((s.slotAddrs d).filter fun a => !(s.entryAt a).isFree).map s.entryAt := by
  rw [usedEntries, readDirRaw_eq hs, List.filter_map]
  rfl

theorem Entered.joined {H : Nat → Prop} {a : Nat} (h : Entered H s s' d a e) (hs : Sound s)
    (hs' : Sound s') (hd : H d) (hnd : (s.clusterChain d).Nodup) (hplain : e.isLfn = false)
    (hnew : findEntry (s.readDirRaw d) e.name = none) : Joined s s' d e := by
  refine ⟨?_, hplain, hnew⟩
  have hne : ∀ b ∈ s.slotAddrs d, (s.entryAt b).isFree = false → b ≠ a := fun b hb hused hba => by
    subst hba
    rw [h.wasFree d hd hb] at hused
    cases hused
  have hold : ∀ b ∈ s.slotAddrs d, (s.entryAt b).isFree = false →
      b ∈ s'.slotAddrs d ∧ s'.entryAt b = s.entryAt b := fun b hb hused =>
    ⟨(h.kept b hb).1, (h.kept b hb).2 (hne b hb hused)⟩
  -- the slots in use are those from before, and the slot of the entry
  have hslots : ((s'.slotAddrs d).filter fun b => !(s'.entryAt b).isFree).Perm
      ((if e.isFree then [] else [a]) ++ (s.slotAddrs d).filter fun b => !(s.entryAt b).isFree) := by
    refine (List.perm_ext_iff_of_nodup ?_ ?_).mpr fun b => ?_
    · exact (Geometry.slotsOf_nodup (h.chains.nodup d hd) (s'.valid_clusterChain d)).filter _
    · refine List.Nodup.append ?_
        ((Geometry.slotsOf_nodup hnd (s.valid_clusterChain d)).filter _) ?_
      · split_ifs
        · exact List.nodup_nil
        · exact List.nodup_singleton a
      · intro b hb hb'
        obtain ⟨hb', hused⟩ := List.mem_filter.mp hb'
        split_ifs at hb
        · cases hb
        · exact hne b hb' (by simpa using hused) (List.mem_singleton.mp hb)
    · rw [List.mem_filter, List.mem_append, List.mem_filter]
      constructor
      · rintro ⟨hb, hused⟩
        rw [Bool.not_eq_true'] at hused
        by_cases hba : b = a
        · subst hba
          rw [h.entry] at hused
          left
          rw [hused]
          exact List.mem_singleton_self _
        rcases h.slot b hb with hb' | hb' | hfree
        · exact absurd hb' hba
        · rw [(h.kept b hb').2 hba] at hused
          exact Or.inr ⟨hb', by rw [hused]; rfl⟩
        · rw [hused] at hfree
          cases hfree
      · rintro (hb | ⟨hb, hused⟩)
        · split_ifs at hb with hfree
          · cases hb
          · rw [List.mem_singleton.mp hb, h.entry]
            exact ⟨h.mem, by simpa using hfree⟩
        · obtain ⟨hb', heq⟩ := hold b hb (by simpa using hused)
          rw [heq]
          exact ⟨hb', hused⟩
  rw [usedEntries_eq hs', usedEntries_eq hs]
  refine (hslots.map s'.entryAt).trans (List.Perm.of_eq ?_)
  rw [List.map_append]
  congr 1
  · split_ifs
    · rfl
    · rw [List.map_singleton, h.entry]
  · refine List.map_congr_left fun b hb => ?_
    obtain ⟨hb, hused⟩ := List.mem_filter.mp hb
    exact (hold b hb (by simpa using hused)).2

/-! ## Seeing it -/

/-- What a listing shows of an item. -/
def DirEntry.shown (x : DirEntry) : List UInt8 × Bool := (x.name, x.isDir)

/-- From `s` to `s'` a name has become visible in a directory: it is found, and the
listing has one item more, which is found under the name that it is listed by. -/
structure Visible (upper : List UInt8 → List UInt8) (s s' : Fat32) (dirId : Nat)
    (name : List UInt8) : Prop where
  found : ∃ id, (s'.lookup upper dirId name).1 = .ok id
  listed : ∃ out out' s'' x, (s.readdir dirId).1 = .ok out ∧ s'.readdir dirId = (.ok out', s'') ∧
    x ∈ out' ∧ (out'.map DirEntry.shown).Perm (x.shown :: out.map DirEntry.shown) ∧
      ∃ id, (s''.lookup upper dirId x.name).1 = .ok id

/-- The short name marks no free slot and no dot entry, and comes back from the name
that it is listed by, or as the name of another entry. -/
def NameShows (upper : List UInt8 → List UInt8) (s : Fat32) (d : Nat) (short : List UInt8) :
    Prop :=
  short.getD 0 0 ≠ 0x00 ∧ short.getD 0 0 ≠ 0xE5 ∧ short.getD 0 0 ≠ 0x2E ∧
    (relisted upper short = short ∨
      findEntry (s.readDirRaw d) (relisted upper short) ≠ none)

theorem lookup_ok_iff {dir : FatInode} (hdir : s.inodes.get dirId = some dir)
    (hk : dir.isDir = true) (name : List UInt8) :
    (∃ id, (s.lookup upper dirId name).1 = .ok id) ↔
      findEntry (s.readDirRaw dir.firstCluster) (toShortName upper name) ≠ none := by
  rw [lookup, hdir]
  simp only [hk, Bool.true_eq_false, if_false]
  cases findEntry (s.readDirRaw dir.firstCluster) (toShortName upper name) with
  | none =>
    refine iff_of_false ?_ fun h => h rfl
    rintro ⟨_, h⟩
    cases h
  | some e => exact iff_of_true ⟨_, rfl⟩ (Option.some_ne_none e)

/-- The listing shows the entries that are listed. -/
theorem listEntries_shown (es : List RawDirEntry) (s : Fat32) :
    (listEntries es s).1.map DirEntry.shown =
      (es.filter RawDirEntry.isListed).map fun e => (fromShortName e.name, e.isDir) := by
  have hall := listEntries_forall₂ es s
  generalize (listEntries es s).1 = out, (listEntries es s).2 = t, es.filter _ = l at hall ⊢
  induction hall with
  | nil => rfl
  | cons hab _ ih => rw [List.map_cons, List.map_cons, ih, DirEntry.shown, hab.1, hab.2.1]

theorem filter_isListed (s : Fat32) (d : Nat) :
    (s.usedEntries d).filter RawDirEntry.isListed =
      (s.readDirRaw d).filter RawDirEntry.isListed := by
  rw [usedEntries, List.filter_filter]
  refine List.filter_congr fun e _ => ?_
  cases hfree : e.isFree <;> simp [RawDirEntry.isListed, hfree]

/-- A name is found when an entry in use has it. -/
theorem findEntry_ne_none (d : Nat) (short : List UInt8) :
    findEntry (s.readDirRaw d) short ≠ none ↔
      ∃ e ∈ s.usedEntries d, e.isLfn = false ∧ e.name = short := by
  rw [findEntry, ← Option.isSome_iff_ne_none, List.find?_isSome]
  constructor
  · rintro ⟨e, he, hhit⟩
    simp only [Bool.and_eq_true, Bool.not_eq_true', Bool.or_eq_false_iff, beq_iff_eq] at hhit
    exact ⟨e, List.mem_filter.mpr ⟨he, by rw [hhit.1.1]; rfl⟩, hhit.1.2, hhit.2⟩
  · rintro ⟨e, he, hlfn, hname⟩
    obtain ⟨he, hused⟩ := List.mem_filter.mp he
    exact ⟨e, he, by simpa [hlfn, hname] using hused⟩

namespace Joined

variable (h : Joined s s' d e)

include h

/-- With the entry, its name is found if it marks its slot as used. -/
theorem findEntry_iff (short : List UInt8) :
    findEntry (s'.readDirRaw d) short ≠ none ↔
      e.isFree = false ∧ e.name = short ∨ findEntry (s.readDirRaw d) short ≠ none := by
  rw [findEntry_ne_none, findEntry_ne_none]
  constructor
  · rintro ⟨x, hx, hlfn, hname⟩
    rcases List.mem_append.mp (h.used.mem_iff.mp hx) with hx | hx
    · split_ifs at hx with hfree
      · cases hx
      · rw [List.mem_singleton.mp hx] at hname
        exact Or.inl ⟨by simpa using hfree, hname⟩
    · exact Or.inr ⟨x, hx, hlfn, hname⟩
  · rintro (⟨hfree, hname⟩ | ⟨x, hx, hlfn, hname⟩)
    · refine ⟨e, h.used.mem_iff.mpr (List.mem_append_left _ ?_), h.plain, hname⟩
      rw [hfree]
      exact List.mem_singleton_self e
    · exact ⟨x, h.used.mem_iff.mpr (List.mem_append_right _ hx), hlfn, hname⟩

/-- With the entry, the listing shows one item more, if it marks neither a free slot
nor a dot entry. -/
theorem shown_perm (t t' : Fat32) :
    ((listEntries (s'.readDirRaw d) t').1.map DirEntry.shown).Perm
      ((if e.isListed then [(fromShortName e.name, e.isDir)] else []) ++
        (listEntries (s.readDirRaw d) t).1.map DirEntry.shown) := by
  rw [listEntries_shown, listEntries_shown, ← filter_isListed, ← filter_isListed]
  refine ((h.used.filter _).map _).trans (List.Perm.of_eq ?_)
  rw [List.filter_append, List.map_append]
  congr 1
  cases hl : e.isListed with
  | false => cases hfree : e.isFree <;> simp [hl]
  | true =>
    have hfree : e.isFree = false := by
      simp only [RawDirEntry.isListed, Bool.not_eq_true', Bool.or_eq_false_iff] at hl
      exact hl.1.1
    simp [hfree, hl]

end Joined

/-- A new entry is seen if and only if its short name shows. -/
theorem visible_of_joined (h : Joined s s' d e) {dir : FatInode} (hd : dir.firstCluster = d)
    (hdir : s.inodes.get dirId = some dir) (hdir' : s'.inodes.get dirId = some dir)
    (hk : dir.isDir = true) (hname : e.name = toShortName upper name) :
    Visible upper s s' dirId name ↔ NameShows upper s d (toShortName upper name) := by
  subst hd
  obtain ⟨hgeo, hfat, hdisk⟩ := listEntries_frame (s'.readDirRaw dir.firstCluster) s'
  have hkept : (listEntries (s'.readDirRaw dir.firstCluster) s').2.inodes.get dirId = some dir :=
    ((listEntries_grow _ s').old dirId (InodeTable.lt_of_get hdir')).trans hdir'
  have hraw := readDirRaw_congr hgeo hfat hdisk dir.firstCluster
  have hlook : ∀ n, (∃ id, ((listEntries (s'.readDirRaw dir.firstCluster) s').2.lookup upper dirId
        n).1 = .ok id) ↔ e.isFree = false ∧ e.name = toShortName upper n ∨
          findEntry (s.readDirRaw dir.firstCluster) (toShortName upper n) ≠ none := fun n => by
    rw [lookup_ok_iff hkept hk, hraw, h.findEntry_iff]
  have hlisted : e.isListed = true ↔ (e.name.getD 0 0 ≠ 0x00 ∧ e.name.getD 0 0 ≠ 0xE5) ∧
      e.name.getD 0 0 ≠ 0x2E := by
    simp [RawDirEntry.isListed, RawDirEntry.isFree, h.plain, and_assoc]
  have hused : e.isListed = true → e.isFree = false := fun hl => by
    simp only [RawDirEntry.isListed, Bool.not_eq_true', Bool.or_eq_false_iff] at hl
    exact hl.1.1
  have hperm := h.shown_perm s s'
  rw [NameShows, ← hname, ← and_assoc, ← and_assoc, ← hlisted]
  constructor
  · rintro ⟨-, out, out', s'', x, hout, hout', -, hx, hfound⟩
    rw [readdir_of_dir hdir hk] at hout
    obtain rfl := Except.ok.inj hout
    rw [readdir_of_dir hdir' hk] at hout'
    obtain ⟨hlist, rfl⟩ := Prod.mk.inj hout'
    obtain rfl := Except.ok.inj hlist
    have hsame := hx.symm.trans hperm
    have hl : e.isListed = true := by
      by_contra hno
      rw [if_neg hno] at hsame
      have := hsame.length_eq
      simp at this
    rw [if_pos hl, List.singleton_append] at hsame
    have hshown : x.shown = (fromShortName e.name, e.isDir) :=
      List.singleton_perm_singleton.mp ((List.perm_append_right_iff _).mp hsame)
    have hxname : x.name = fromShortName e.name := congrArg Prod.fst hshown
    rw [hlook, hxname, ← relisted] at hfound
    exact ⟨hl, hfound.imp_left fun h => h.2.symm⟩
  · rintro ⟨hl, hback⟩
    refine ⟨?_, ?_⟩
    · rw [lookup_ok_iff hdir' hk, h.findEntry_iff]
      exact Or.inl ⟨hused hl, hname⟩
    · rw [if_pos hl, List.singleton_append] at hperm
      obtain ⟨x, hx, hshown⟩ := List.mem_map.mp (hperm.mem_iff.mpr List.mem_cons_self)
      have hxname : x.name = fromShortName e.name := congrArg Prod.fst hshown
      refine ⟨_, _, _, x, congrArg Prod.fst (readdir_of_dir hdir hk), readdir_of_dir hdir' hk, hx,
        hshown ▸ hperm, (hlook _).mpr ?_⟩
      rw [hxname, ← relisted]
      exact hback.imp_left fun h => ⟨hused hl, h.symm⟩

/-! ## `create` and `mkdir` -/

theorem usedEntries_congr {t t' : Fat32} (h : t'.readDirRaw d = t.readDirRaw d) :
    t'.usedEntries d = t.usedEntries d := by rw [usedEntries, usedEntries, h]

theorem Joined.congr {t t' : Fat32} (h : Joined s s' d e) (ht : t.readDirRaw d = s.readDirRaw d)
    (ht' : t'.readDirRaw d = s'.readDirRaw d) : Joined t t' d e where
  used := by
    rw [usedEntries_congr ht, usedEntries_congr ht']
    exact h.used
  plain := h.plain
  new := ht ▸ h.new

theorem readDirRaw_internInode (s : Fat32) (h size : Nat) (k : Bool) (d : Nat) :
    (s.internInode h size k).2.readDirRaw d = s.readDirRaw d :=
  readDirRaw_congr (internInode_geo s h size k) (internInode_fatCache s h size k)
    (internInode_disk s h size k) d

theorem create_joined {dir : FatInode} (hs : Sound s) (hdir : s.inodes.get dirId = some dir)
    (horder : DirInOrder s dir.firstCluster) {id : Nat}
    (h : s.create upper dirId name = (.ok id, s')) :
    dir.isDir = true ∧ s'.inodes.get dirId = some dir ∧
      Joined s s' dir.firstCluster (newFileEntry upper name) := by
  rcases create_cases hs horder.chains hdir (Or.inr rfl) name with
    ⟨e, heq⟩ | ⟨c, e, -, -, heq⟩ | ⟨hk, hnone, a, t, hent, heq⟩
  · rw [h] at heq
    cases heq
  · rw [h] at heq
    cases heq
  · rw [h] at heq
    obtain ⟨-, rfl⟩ := Prod.mk.inj heq
    refine ⟨hk, internInode_get_of_some (hent.inodes ▸ hdir), ?_⟩
    exact (hent.joined hs (hs.of_eq hent.geo hent.present) (Or.inr rfl) horder.acyclic
      (newFileEntry_plain upper name) hnone).congr rfl (readDirRaw_internInode _ _ _ _ _)

/-- A directory in order is not touched by a new one. -/
theorem makeDir_keeps (hs : Sound s) (horder : DirInOrder s d) {c : Nat}
    (hv : s.geo.validCluster c = true) (hc : s.fatCache c = 0) (parent : Nat) :
    DirInOrder (s.makeDir c parent) d ∧ (s.makeDir c parent).readDirRaw d = s.readDirRaw d := by
  have hnot : c ∉ s.clusterChain d := fun hmem => horder.allocated c hmem hc
  have hsame : ∀ x ∈ s.clusterChain d, (s.setFat c fatEoc).fatCache x = s.fatCache x :=
    fun x hx => setFat_of_ne s c fatEoc fun heq => hnot (heq ▸ hx)
  have hchain : (s.makeDir c parent).clusterChain d = s.clusterChain d := chainOf_congr hsame
  refine ⟨⟨horder.valid, hchain ▸ horder.acyclic, fun x hx => ?_⟩, ?_⟩
  · rw [hchain] at hx
    exact (hsame x hx).symm ▸ horder.allocated x hx
  · have hs' : Sound (s.makeDir c parent) := hs.of_eq rfl rfl
    rw [readDirRaw_eq hs', readDirRaw_eq hs, slotAddrs, hchain]
    refine List.map_congr_left fun a ha => RawDirEntry.ofBytes_congr fun i hi => ?_
    obtain ⟨c', hc', hin⟩ := Geometry.inCluster_of_mem_slotsOf ha
    refine writeBytes_out _ ?_
    rw [freshCluster_length (dotEntries_fit s.geo c parent)]
    by_contra hmeet
    have hv' := (Geometry.validCluster_iff.mp (s.valid_clusterChain d c' hc')).1
    have hmeet : s.geo.InCluster c (a + i) := by
      change ¬ (a + i < s.geo.clusterAddr c ∨
        s.geo.clusterAddr c + s.geo.bytesPerCluster ≤ a + i) at hmeet
      rw [Geometry.InCluster]
      omega
    have heq := Geometry.InCluster.unique hv' (Geometry.validCluster_iff.mp hv).1 (hin i hi) hmeet
    exact hnot (heq ▸ hc')

theorem mkdir_joined {dir : FatInode} (hs : Sound s) (hdir : s.inodes.get dirId = some dir)
    (horder : DirInOrder s dir.firstCluster) {id : Nat}
    (h : s.mkdir upper dirId name = (.ok id, s')) :
    dir.isDir = true ∧ s'.inodes.get dirId = some dir ∧
      ∃ c, Joined s s' dir.firstCluster (newDirEntry upper name c) := by
  rcases mkdir_cases hs hdir name with ⟨e, heq⟩ | ⟨c, hv, hc, hk, hnone, hrest⟩
  · rw [h] at heq
    cases heq
  obtain ⟨horder₁, hraw₁⟩ := makeDir_keeps hs horder hv hc dir.firstCluster
  have hs₁ : Sound (s.makeDir c dir.firstCluster) := hs.of_eq rfl rfl
  have hstored : (newDirEntry upper name c).stored = newDirEntry upper name c :=
    RawDirEntry.stored_new _ _ _ _
  rcases hrest with ⟨e, t, -, heq⟩ | ⟨t, hwrite, heq⟩
  · rw [h] at heq
    cases heq
  rcases writeDirEntry_cases hs₁ horder₁.chains (Or.inr rfl) hstored with
    ⟨err, heq'⟩ | ⟨c', err, -, -, heq'⟩ | ⟨a, t', hent, heq'⟩
  · rw [hwrite] at heq'
    cases heq'
  · rw [hwrite] at heq'
    cases heq'
  · rw [hwrite] at heq'
    obtain ⟨-, rfl⟩ := Prod.mk.inj heq'
    have ht : Sound t := hs₁.of_eq hent.geo hent.present
    rw [heq ht] at h
    obtain ⟨-, rfl⟩ := Prod.mk.inj h
    refine ⟨hk, internInode_get_of_some (hent.inodes ▸ hdir), c, ?_⟩
    exact (hent.flush.joined hs₁ (ht.setBytes _) (Or.inr rfl) horder₁.acyclic
      (newDirEntry_plain upper name c) (hraw₁ ▸ hnone)).congr hraw₁.symm
      (readDirRaw_internInode _ _ _ _ _)

/-- In a directory whose chain has no cycle and no free cluster, a name that was
made is seen if and only if its short name shows. -/
theorem visible_iff (hs : Sound s) {dir : FatInode} (hdir : s.inodes.get dirId = some dir)
    (horder : DirInOrder s dir.firstCluster) {id : Nat}
    (h : s.create upper dirId name = (.ok id, s') ∨ s.mkdir upper dirId name = (.ok id, s')) :
    Visible upper s s' dirId name ↔
      NameShows upper s dir.firstCluster (toShortName upper name) := by
  rcases h with h | h
  · obtain ⟨hk, hdir', hjoined⟩ := create_joined hs hdir horder h
    exact visible_of_joined hjoined rfl hdir hdir' hk rfl
  · obtain ⟨hk, hdir', c, hjoined⟩ := mkdir_joined hs hdir horder h
    exact visible_of_joined hjoined rfl hdir hdir' hk rfl

theorem emptyMount_sound : Sound emptyMount :=
  (show Good emptyMount from flat_empty.good_mount rootFat_lt).sound

theorem visible_iff_empty : ∃ id s', emptyMount.create (fun x => x) 1 [0x41] = (.ok id, s') ∧
    (Visible (fun x => x) emptyMount s' 1 [0x41] ↔
      NameShows (fun x => x) emptyMount 2 (toShortName (fun x => x) [0x41])) := by
  obtain ⟨a, s, -, hcreate, -⟩ := emptyMount_create (fun x => x) [0x41]
  have hiff := visible_iff emptyMount_sound emptyMount_root emptyMount_dirInOrder (Or.inl hcreate)
  exact ⟨_, _, hcreate, hiff⟩

/-- On an empty volume the file `.A` is made, and not listed. -/
theorem not_visible_dotted :
    ∃ id s', emptyMount.create (fun x => x) 1 [0x2E, 0x41] = (.ok id, s') ∧
      ¬ Visible (fun x => x) emptyMount s' 1 [0x2E, 0x41] := by
  obtain ⟨a, s, -, hcreate, -⟩ := emptyMount_create (fun x => x) [0x2E, 0x41]
  refine ⟨_, _, hcreate, fun hvis => ?_⟩
  have hjoined := create_joined emptyMount_sound emptyMount_root emptyMount_dirInOrder hcreate
  have hshows : NameShows (fun x => x) emptyMount 2 (toShortName (fun x => x) [0x2E, 0x41]) :=
    (visible_of_joined hjoined.2.2 rfl emptyMount_root hjoined.2.1 hjoined.1 rfl).mp hvis
  exact hshows.2.2.1 (by decide)

end AeroOS.Fat32
