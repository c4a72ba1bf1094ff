import AeroOS.Fat32.Create
import AeroOS.Fat32.Effects
import AeroOS.Fat32.Format

/-!
# FAT32: what the operations on directories do to the names

* `create` and `mkdir` add a slot and an inode (`create_described`,
  `mkdir_described`).
* `lookup` and `readdir` intern what they find (`lookup_described`,
  `listEntries_described`).
* `unlink` drops a slot, and what it named (`unlink_described`).

The hypotheses of `unlink_described` are the conditions under which the code
removes the entry whose chain it has freed.
-/

namespace AeroOS.Fat32

open Bytes

/-! ## `create` and `mkdir` -/

section create

variable {upper : List UInt8 → List UInt8} {s : Fat32} {v : Names} (hd : Described s v)
  {dirId : Nat} {dir : FatInode} (hdir : s.inodes.get dirId = some dir) (name : List UInt8)

include hd hdir

theorem Described.heads_dir : v.heads dir.firstCluster :=
  Or.inr (Or.inr ⟨dirId, dir.isDir, (hd.covers.ino _ _ _).mpr ⟨dir, hdir, rfl, rfl⟩⟩)

theorem Described.dir_self (hk : dir.isDir = true) : v.dir dir.firstCluster :=
  hd.ok.ino_dir ((hd.covers.ino _ _ _).mpr ⟨dir, hdir, rfl, hk⟩)

/-- `create` fails without a trace in the names, or adds a slot without a chain
and its inode. -/
theorem create_described :
    (∃ e s', s.create upper dirId name = (.error e, s') ∧ Described s' v ∧
      s'.inodes = s.inodes ∧ KeptSlots v.dir s s') ∨
    ∃ a s₁, dir.isDir = true ∧
      findEntry (s.readDirRaw dir.firstCluster) (toShortName upper name) = none ∧
      Entered v.heads s s₁ dir.firstCluster a (newFileEntry upper name) ∧
      Described s₁ (v.addSlot dir.firstCluster a 0 false) ∧
      s.create upper dirId name =
        (.ok (s₁.internInode 0 0 false).1, (s₁.internInode 0 0 false).2) ∧
      Described (s₁.internInode 0 0 false).2
        ((v.addSlot dir.firstCluster a 0 false).addIno (s₁.internInode 0 0 false).1 0 false) := by
  rcases create_cases hd.sound hd.chains hdir (hd.heads_dir hdir) name with
    ⟨e, heq⟩ | ⟨c, e, -, hc, heq⟩ | ⟨hk, hnone, a, s₁, hent, heq⟩
  · exact Or.inl ⟨e, s, heq, hd, rfl, rfl, fun _ _ => rfl, fun _ _ _ _ => SameKey.refl _⟩
  · refine Or.inl ⟨e, _, heq, hd.lose hc, rfl, rfl, fun d hdd => ?_, fun _ _ _ _ => SameKey.of_eq rfl⟩
    refine chainOf_congr fun x hx => setFat_of_ne _ _ _ fun hxc => ?_
    exact hd.chains.not_mem_of_free hc (Or.inl hdd) (hxc ▸ hx)
  · have h0 : (newFileEntry upper name).firstCluster = 0 :=
      RawDirEntry.firstCluster_new (by decide)
    have hfile := newFileEntry_isDir upper name
    have hdesc := hd.entered (hd.dir_self hdir hk) hent
      (fun h => absurd (hfile.symm.trans h) Bool.false_ne_true)
      (fun _ h => absurd h0 h) (fun h => absurd h0 h) (fun h => absurd h0 h) (Or.inl h0)
    rw [h0, hfile] at hdesc
    exact Or.inr ⟨a, s₁, hk, hnone, hent, hdesc, heq,
      hdesc.intern (fun h => by cases h) (fun _ h => absurd rfl h) (Or.inl rfl) 0⟩

omit hd hdir in
/-- The slots of a new directory are `.`, `..` and free ones. -/
theorem slot_makeDir (s : Fat32) (c parent : Nat) {a : Nat} (ha : a ∈ s.geo.slotsOf [c]) :
    ((s.makeDir c parent).entryAt a).isFree = true ∨
      ((s.makeDir c parent).entryAt a).name = dotName ∨
      ((s.makeDir c parent).entryAt a).name = dotdotName := by
  obtain ⟨c', hc', i, hi, rfl⟩ := Geometry.mem_slotsOf.mp ha
  rw [List.mem_singleton] at hc'
  subst hc'
  by_cases hi2 : (dotEntries c' parent).length ≤ i
  · exact Or.inl (isFree_freshCluster s.disk.bytes (s.geo.clusterAddr c') hi2 hi)
  · have hi' : i < (dotEntries c' parent).length := by omega
    have hent : (s.makeDir c' parent).entryAt (s.geo.clusterAddr c' + i * 32) =
        (dotEntries c' parent)[i].stored :=
      ofBytes_freshCluster s.disk.bytes (s.geo.clusterAddr c') hi'
    rw [hent]
    have hcases : i = 0 ∨ i = 1 := by
      simp only [dotEntries, List.length_cons, List.length_nil] at hi'
      omega
    rcases hcases with rfl | rfl
    · exact Or.inr (Or.inl rfl)
    · exact Or.inr (Or.inr rfl)

omit hd hdir in
theorem isEntry_makeDir (s : Fat32) (c parent : Nat) {a : Nat} (ha : a ∈ s.geo.slotsOf [c]) :
    ((s.makeDir c parent).entryAt a).isEntry = false := by
  rcases slot_makeDir s c parent ha with hfree | hdots
  · rw [RawDirEntry.isEntry, hfree]
    rfl
  · exact RawDirEntry.isEntry_of_dot hdots

omit hdir in
/-- A free cluster made into a directory. -/
theorem Described.made {c : Nat} (hv : s.geo.validCluster c = true) (hc : s.fatCache c = 0)
    (parent : Nat) : Described (s.makeDir c parent) (v.addDir c) ∧
      KeptSlots v.dir s (s.makeDir c parent) := by
  have hnot := hd.chains.not_head_of_free hv hc
  have hc2 := (Geometry.validCluster_iff.mp hv).1
  have hfat : ∀ x, x ≠ c → (s.makeDir c parent).fatCache x = s.fatCache x := fun x hx =>
    setFat_of_ne s c fatEoc hx
  have hnew : (s.makeDir c parent).fatCache c = fatEoc := setFat_self s c fatEoc
  obtain ⟨hchain, hok⟩ := hd.chains.alloc_head hv hc hfat hnew
  have hsingle : (s.makeDir c parent).clusterChain c = [c] := chainOf_singleton hv hnew
  have hlen := dotEntries_fit s.geo c parent
  have hout : ∀ x, ¬ s.geo.InCluster c x →
      (s.makeDir c parent).disk.bytes x = s.disk.bytes x := fun x hx => by
    refine writeBytes_out _ ?_
    rw [freshCluster_length hlen]
    unfold Geometry.InCluster at hx
    omega
  have hslot : ∀ d, v.dir d → ∀ a ∈ s.slotAddrs d,
      (s.makeDir c parent).entryAt a = s.entryAt a := fun d hdd a ha => by
    obtain ⟨c', hc', hin⟩ := Geometry.inCluster_of_mem_slotsOf ha
    have hv' := (Geometry.validCluster_iff.mp (s.valid_clusterChain d c' hc')).1
    refine RawDirEntry.ofBytes_congr fun i hi => hout _ fun hinc => ?_
    have heq := Geometry.InCluster.unique hv' hc2 (hin i hi) hinc
    subst heq
    exact hd.chains.not_mem_of_free hc (Or.inl hdd) hc'
  have hkept : KeptSlots v.dir s (s.makeDir c parent) :=
    ⟨rfl, fun d hdd => hchain d (Or.inl hdd), fun d a hdd ha => SameKey.of_eq (hslot d hdd a ha)⟩
  refine ⟨⟨hd.sound.of_eq rfl rfl, ⟨hd.covers.root, ?_, hd.covers.ino⟩,
    hd.ok.addDir fun _ => hnot, ?_⟩, hkept⟩
  · rintro d a (hdd | rfl) ha he
    · rw [hkept.slotAddrs hdd] at ha
      rw [hslot d hdd a ha] at he ⊢
      exact hd.covers.slot d a hdd ha he
    · rw [slotAddrs, hsingle] at ha
      rw [s.isEntry_makeDir d parent ha] at he
      cases he
  · refine hok.mono fun x hx => Or.inr ?_
    exact Names.heads_addDir hx

/-- `mkdir` fails and loses a cluster or two, or adds a directory, the slot
that names it and its inode. -/
theorem mkdir_described :
    (∃ e s', s.mkdir upper dirId name = (.error e, s') ∧ Described s' v ∧
      s'.inodes = s.inodes ∧ KeptSlots v.dir s s') ∨
    ∃ c a s₁ s₂, dir.isDir = true ∧
      findEntry (s.readDirRaw dir.firstCluster) (toShortName upper name) = none ∧
      ¬ v.heads c ∧ c ≠ 0 ∧
      KeptSlots v.dir s s₁ ∧ s₁.inodes = s.inodes ∧ Described s₁ (v.addDir c) ∧
      Entered (v.addDir c).heads s₁ s₂ dir.firstCluster a (newDirEntry upper name c) ∧
      s.mkdir upper dirId name =
        (.ok (s₂.internInode c 0 true).1, (s₂.internInode c 0 true).2) ∧
      Described (s₂.internInode c 0 true).2
        (((v.addDir c).addSlot dir.firstCluster a c true).addIno
          (s₂.internInode c 0 true).1 c true) := by
  rcases mkdir_cases hd.sound hdir name with ⟨e, heq⟩ | ⟨c, hv, hc, hk, hnone, hcases⟩
  · exact Or.inl ⟨e, s, heq, hd, rfl, rfl, fun _ _ => rfl, fun _ _ _ _ => SameKey.refl _⟩
  obtain ⟨hmade, hkept⟩ := hd.made hv hc dir.firstCluster
  have hnot := hd.chains.not_head_of_free hv hc
  have hc2 := (Geometry.validCluster_iff.mp hv).1
  -- without the entry the new directory has no name
  have hback : ∀ s', Described s' (v.addDir c) → s'.inodes = s.inodes → KeptSlots v.dir s s' →
      Described s' v := fun s' hs' hino hk' => by
    refine ⟨hs'.sound, hd.covers.of_kept hk' rfl (fun _ h => h) (fun _ _ _ _ h => h) ?_, hd.ok,
      hs'.chains.mono fun x hx => Or.inr ?_⟩
    · rw [hino]
      exact hd.covers.ino
    · exact hx.imp (fun h => Or.inl h) id
  have hheads : (v.addDir c).heads dir.firstCluster :=
    Or.inl (Or.inl (hd.dir_self hdir hk))
  have hstored : (newDirEntry upper name c).stored = newDirEntry upper name c :=
    RawDirEntry.stored_new _ _ _ _
  rcases hcases with ⟨e, s', hw, heq⟩ | ⟨s', hw, heq⟩
  · rcases writeDirEntry_cases hmade.sound hmade.chains hheads hstored with
      ⟨e', hw'⟩ | ⟨c', e', hv', hc', hw'⟩ | ⟨a, s₂, hent, hw'⟩
    · rw [hw] at hw'
      obtain ⟨-, rfl⟩ := Prod.mk.inj hw'
      exact Or.inl ⟨e, _, heq, hback _ hmade rfl hkept, rfl, hkept⟩
    · rw [hw] at hw'
      obtain ⟨-, rfl⟩ := Prod.mk.inj hw'
      have hlose : KeptSlots v.dir s ((s.makeDir c dir.firstCluster).setFat c' fatEoc) := by
        refine hkept.trans ⟨rfl, fun d hdd => ?_, fun _ _ _ _ => SameKey.of_eq rfl⟩
        refine chainOf_congr fun x hx => setFat_of_ne _ _ _ fun hxc => ?_
        exact hmade.chains.not_mem_of_free hc' (Or.inl (Or.inl hdd)) (hxc ▸ hx)
      exact Or.inl ⟨e, _, heq, hback _ (hmade.lose hc') rfl hlose, rfl, hlose⟩
    · rw [hw] at hw'
      cases hw'
  · rcases writeDirEntry_cases hmade.sound hmade.chains hheads hstored with
      ⟨e', hw'⟩ | ⟨c', e', hv', hc', hw'⟩ | ⟨a, s₂, hent, hw'⟩
    · rw [hw] at hw'
      cases hw'
    · rw [hw] at hw'
      cases hw'
    rw [hw] at hw'
    obtain ⟨-, rfl⟩ := Prod.mk.inj hw'
    have hfc : (newDirEntry upper name c).firstCluster = c :=
      RawDirEntry.firstCluster_new (Geometry.validCluster_lt hv)
    have hkd := newDirEntry_isDir upper name c
    have hdirc : (v.addDir c).dir c := Or.inr rfl
    have hdesc := hmade.entered (Or.inl (hd.dir_self hdir hk)) hent.flush
      (fun _ => hfc.symm ▸ hdirc) (fun h => absurd (hkd.symm.trans h) (by decide))
      (fun _ h => hnot (by
        rw [← hfc, h]
        exact Or.inl hd.ok.root_dir))
      (fun _ d' a' k' h => hnot (by
        rw [← hfc]
        exact Or.inr (Or.inl ⟨d', a', k', h⟩)))
      (Or.inr (hfc.symm ▸ Or.inl hdirc))
    rw [hfc, hkd] at hdesc
    refine Or.inr ⟨c, a, _, _, hk, hnone, hnot, by omega, hkept, rfl, hmade, hent.flush,
      heq (hmade.sound.of_eq hent.geo hent.present), ?_⟩
    exact hdesc.intern (fun _ => hdirc) (fun h => by cases h) (Or.inr (Or.inl hdirc)) 0

end create

/-! ## `lookup` and `readdir` -/

/-- The slot of a directory that a search by name finds. -/
def findSlot (s : Fat32) (d : Nat) (short : List UInt8) : Option Nat :=
  (s.slotAddrs d).find? fun a =>
    !((s.entryAt a).isFree || (s.entryAt a).isLfn) && (s.entryAt a).name == short

theorem findEntry_eq {s : Fat32} (hs : Sound s) (d : Nat) (short : List UInt8) :
    findEntry (s.readDirRaw d) short = (s.findSlot d short).map s.entryAt := by
  rw [readDirRaw_eq hs, findEntry, findSlot, List.find?_map]
  rfl

theorem findSlot_spec {s : Fat32} {d a : Nat} {short : List UInt8}
    (h : s.findSlot d short = some a) :
    a ∈ s.slotAddrs d ∧ (s.entryAt a).isLive = true ∧ (s.entryAt a).name = short := by
  have hhit := List.find?_some (p := fun a =>
    !((s.entryAt a).isFree || (s.entryAt a).isLfn) && (s.entryAt a).name == short) h
  simp only [Bool.and_eq_true, beq_iff_eq] at hhit
  refine ⟨List.mem_of_find?_eq_some h, ?_, hhit.2⟩
  simpa [RawDirEntry.isLive] using hhit.1

theorem SameDirs.findSlot {s s' : Fat32} (h : SameDirs s s') {d : Nat} (hd : IsDir s d)
    (short : List UInt8) : s'.findSlot d short = s.findSlot d short := by
  rw [Fat32.findSlot, Fat32.findSlot, h.slotAddrs hd]
  exact List.find?_congr fun a ha => by rw [h.entryAt hd ha]

/-- The first entry of a flat root directory is found first. -/
theorem Flat.findSlot_first {g : Geometry} {fat : Nat → Nat} {e : RawDirEntry}
    {es : List RawDirEntry} (hf : Flat g fat (e :: es)) (hlive : e.isLive = true) :
    (flatVolume g fat (e :: es)).findSlot g.rootCluster e.name = some (rootSlot g 0) := by
  have hent := hf.entryAt_slot (i := 0) (by simp)
  have hroom := hf.room
  obtain ⟨n, hn⟩ : ∃ n, g.bytesPerCluster / 32 = n + 1 :=
    ⟨g.bytesPerCluster / 32 - 1, by
      rw [List.length_cons] at hroom
      omega⟩
  rw [findSlot, hf.slotAddrs_root, hn, List.range_succ_eq_map, List.map_cons, List.find?_cons_of_pos]
  rw [hent]
  simp only [RawDirEntry.isLive, Bool.and_eq_true, Bool.not_eq_true'] at hlive
  simp [hlive.1, hlive.2]

/-- A short name of `.` or `..`. -/
def IsDots (short : List UInt8) : Prop := short = dotName ∨ short = dotdotName

section search

variable {s : Fat32} {v : Names} (hd : Described s v)

include hd

/-- What a search finds in a directory has a name in the view. -/
theorem Described.slot_of_find {d a : Nat} (hdir : v.dir d) {short : List UInt8}
    (h : s.findSlot d short = some a) (hdots : ¬ IsDots short) :
    v.slot d a (s.entryAt a).firstCluster (s.entryAt a).isDir := by
  obtain ⟨ha, hlive, hname⟩ := findSlot_spec h
  exact hd.covers.slot d a hdir ha (RawDirEntry.isEntry_of_isLive hlive
    (fun heq => hdots (Or.inl (hname ▸ heq))) fun heq => hdots (Or.inr (hname ▸ heq)))

/-- A directory without a chain can always be added. -/
theorem Described.addDir_zero : Described s (v.addDir 0) where
  sound := hd.sound
  covers :=
    { root := hd.covers.root
      slot := fun d a hdir ha he => by
        rcases hdir with hdir | rfl
        · exact hd.covers.slot d a hdir ha he
        · rw [slotAddrs_zero] at ha
          exact absurd ha List.not_mem_nil
      ino := hd.covers.ino }
  ok := hd.ok.addDir fun h => absurd rfl h
  chains := hd.chains.mono fun _ hx => (Names.heads_addDir hx).symm

/-- Interning the inode of a slot. -/
theorem Described.intern_slot {d a h : Nat} {k : Bool} (hs : v.slot d a h k) (size : Nat) :
    Described (s.internInode h size k).2 (v.addIno (s.internInode h size k).1 h k) :=
  hd.intern (fun hk => hd.ok.slot_dir (hk ▸ hs)) (fun hk => hd.ok.slot_file (hk ▸ hs))
    (Or.inr (Or.inr (Or.inl ⟨d, a, k, hs⟩))) size

/-- `lookup` fails, or interns the slot that it finds.  What `.` and `..` name
must be a directory for this. -/
theorem lookup_described (upper : List UInt8 → List UInt8) (dirId : Nat) (name : List UInt8)
    (hdots : IsDots (toShortName upper name) → ∀ dir a, s.inodes.get dirId = some dir →
      dir.isDir = true → s.findSlot dir.firstCluster (toShortName upper name) = some a →
        (s.entryAt a).isDir = true ∧
          ((s.entryAt a).firstCluster = 0 ∨ v.dir (s.entryAt a).firstCluster)) :
    (∃ e, s.lookup upper dirId name = (.error e, s)) ∨
    ∃ dir a id s' w, s.inodes.get dirId = some dir ∧ dir.isDir = true ∧
      s.findSlot dir.firstCluster (toShortName upper name) = some a ∧
      s.lookup upper dirId name = (.ok id, s') ∧ (w = v ∨ w = v.addDir 0) ∧
      Described s' (w.addIno id (s.entryAt a).firstCluster (s.entryAt a).isDir) := by
  rw [lookup]
  cases hdir : s.inodes.get dirId with
  | none => exact Or.inl ⟨_, rfl⟩
  | some dir =>
    simp only
    split
    · exact Or.inl ⟨_, rfl⟩
    rename_i hk
    have hk' : dir.isDir = true := by simpa using hk
    rw [findEntry_eq hd.sound]
    cases hfind : s.findSlot dir.firstCluster (toShortName upper name) with
    | none => exact Or.inl ⟨_, rfl⟩
    | some a =>
      by_cases hdot : IsDots (toShortName upper name)
      · obtain ⟨hka, hhead⟩ := hdots hdot dir a hdir hk' hfind
        rcases hhead with h0 | hhead
        · exact Or.inr ⟨dir, a, _, _, v.addDir 0, rfl, hk', hfind, rfl, Or.inr rfl,
            hd.addDir_zero.intern (fun _ => Or.inr h0) (fun h => absurd (hka.symm.trans h) (by decide))
              (Or.inl h0) _⟩
        · exact Or.inr ⟨dir, a, _, _, v, rfl, hk', hfind, rfl, Or.inl rfl,
            hd.intern (fun _ => hhead) (fun h => absurd (hka.symm.trans h) (by decide))
              (Or.inr (Or.inl hhead)) _⟩
      · exact Or.inr ⟨dir, a, _, _, v, rfl, hk', hfind, rfl, Or.inl rfl,
          hd.intern_slot (hd.slot_of_find (hd.dir_self hdir hk') hfind hdot) _⟩

end search

/-- An entry that `readdir` lists. -/
def RawDirEntry.isListed (e : RawDirEntry) : Bool :=
  !(e.isFree || e.isLfn || e.name.getD 0 0 == 0x2E)

theorem RawDirEntry.isEntry_of_isListed {e : RawDirEntry} (h : e.isListed = true) :
    e.isEntry = true := by
  simp only [isListed, Bool.not_eq_true', Bool.or_eq_false_iff] at h
  obtain ⟨⟨hfree, hlfn⟩, hdot⟩ := h
  refine isEntry_of_isLive (by simp [isLive, hfree, hlfn]) ?_ ?_
  · intro heq
    rw [heq] at hdot
    exact absurd hdot (by decide)
  · intro heq
    rw [heq] at hdot
    exact absurd hdot (by decide)

/-- The view `w` has inodes besides those of `v`. -/
structure MoreInodes (v w : Names) : Prop where
  root : w.root = v.root
  dir : w.dir = v.dir
  slot : w.slot = v.slot
  ino : ∀ {id h k}, v.ino id h k → w.ino id h k

/-- The loop of `readdir` interns every entry that it lists. -/
theorem listEntries_described (es : List RawDirEntry) {s : Fat32} {v : Names}
    (hd : Described s v)
    (hes : ∀ e ∈ es, e.isListed = true → ∃ d a, v.slot d a e.firstCluster e.isDir) :
    ∃ w, Described (listEntries es s).2 w ∧ MoreInodes v w ∧
      (∀ x ∈ ((listEntries es s).1.map DirEntry.inodeId).zip (es.filter RawDirEntry.isListed),
        w.ino x.1 x.2.firstCluster x.2.isDir) := by
  induction es generalizing s v with
  | nil => exact ⟨v, hd, ⟨rfl, rfl, rfl, id⟩, fun x hx => absurd hx List.not_mem_nil⟩
  | cons e es ih =>
    rw [listEntries]
    have hrest : ∀ e' ∈ es, e'.isListed = true → ∃ d a, v.slot d a e'.firstCluster e'.isDir :=
      fun e' he' => hes e' (List.mem_cons_of_mem e he')
    by_cases hl : e.isListed = true
    · obtain ⟨d, a, hslot⟩ := hes e (by simp) hl
      have hskip : (e.isFree || e.isLfn || e.name.getD 0 0 == 0x2E) = false := by
        rw [RawDirEntry.isListed, Bool.not_eq_true'] at hl
        exact hl
      rw [if_neg (by rw [hskip]; exact Bool.false_ne_true), List.filter_cons_of_pos hl]
      have hstep := hd.intern_slot hslot e.fileSize
      obtain ⟨w, hw, hmore, hids⟩ := ih hstep hrest
      refine ⟨w, hw, ⟨hmore.root, hmore.dir, hmore.slot, fun h => hmore.ino (Or.inl h)⟩, ?_⟩
      intro x hx
      rcases List.mem_cons.mp hx with rfl | hx
      · exact hmore.ino (Or.inr ⟨rfl, rfl, rfl⟩)
      · exact hids x hx
    · have hskip : (e.isFree || e.isLfn || e.name.getD 0 0 == 0x2E) = true := by
        rw [RawDirEntry.isListed, Bool.not_eq_true', Bool.not_eq_false] at hl
        exact hl
      rw [if_pos hskip, List.filter_cons_of_neg hl]
      exact ih hd hrest

/-- The slots that `readdir` lists. -/
def listedSlots (s : Fat32) (d : Nat) : List Nat :=
  (s.slotAddrs d).filter fun a => (s.entryAt a).isListed

/-- `readdir` fails, or interns every slot that it lists. -/
theorem readdir_described {s : Fat32} {v : Names} (hd : Described s v) (dirId : Nat) :
    (∃ e, s.readdir dirId = (.error e, s)) ∨
    ∃ dir out s' w, s.inodes.get dirId = some dir ∧ dir.isDir = true ∧
      s.readdir dirId = (.ok out, s') ∧ Described s' w ∧ MoreInodes v w ∧
      ∀ x ∈ (out.map DirEntry.inodeId).zip (s.listedSlots dir.firstCluster),
        w.ino x.1 (s.entryAt x.2).firstCluster (s.entryAt x.2).isDir := by
  rw [readdir]
  cases hdir : s.inodes.get dirId with
  | none => exact Or.inl ⟨_, rfl⟩
  | some dir =>
    simp only
    split
    · exact Or.inl ⟨_, rfl⟩
    rename_i hk
    have hk' : dir.isDir = true := by simpa using hk
    have hes : ∀ e ∈ s.readDirRaw dir.firstCluster, e.isListed = true →
        ∃ d a, v.slot d a e.firstCluster e.isDir := by
      intro e he hl
      rw [readDirRaw_eq hd.sound] at he
      obtain ⟨a, ha, rfl⟩ := List.mem_map.mp he
      exact ⟨_, a, hd.covers.slot _ a (hd.dir_self hdir hk') ha
        (RawDirEntry.isEntry_of_isListed hl)⟩
    obtain ⟨w, hw, hmore, hids⟩ := listEntries_described _ hd hes
    refine Or.inr ⟨dir, _, _, w, rfl, hk', rfl, hw, hmore, fun x hx => ?_⟩
    have hfilter : (s.readDirRaw dir.firstCluster).filter RawDirEntry.isListed =
        (s.listedSlots dir.firstCluster).map s.entryAt := by
      rw [readDirRaw_eq hd.sound, listedSlots, List.filter_map]
      rfl
    rw [hfilter, List.zip_map_right] at hids
    exact hids _ (List.mem_map_of_mem hx)

theorem lookup_frame (upper : List UInt8 → List UInt8) (s : Fat32) (dirId : Nat)
    (name : List UInt8) :
    (s.lookup upper dirId name).2.geo = s.geo ∧
      (s.lookup upper dirId name).2.fatCache = s.fatCache ∧
        (s.lookup upper dirId name).2.disk = s.disk := by
  rw [lookup]
  split
  · exact ⟨rfl, rfl, rfl⟩
  rename_i dir _
  split
  · exact ⟨rfl, rfl, rfl⟩
  cases findEntry (s.readDirRaw dir.firstCluster) (toShortName upper name) with
  | none => exact ⟨rfl, rfl, rfl⟩
  | some e => exact ⟨internInode_geo .., internInode_fatCache .., internInode_disk ..⟩

theorem listEntries_frame (es : List RawDirEntry) (s : Fat32) :
    (listEntries es s).2.geo = s.geo ∧ (listEntries es s).2.fatCache = s.fatCache ∧
      (listEntries es s).2.disk = s.disk := by
  induction es generalizing s with
  | nil => exact ⟨rfl, rfl, rfl⟩
  | cons e es ih =>
    rw [listEntries]
    split
    · exact ih s
    · obtain ⟨hg, hf, hd⟩ := ih (s.internInode e.firstCluster e.fileSize e.isDir).2
      exact ⟨hg.trans (by simp), hf.trans (by simp), hd.trans (by simp)⟩

theorem readdir_frame (s : Fat32) (id : Nat) :
    (s.readdir id).2.geo = s.geo ∧ (s.readdir id).2.fatCache = s.fatCache ∧
      (s.readdir id).2.disk = s.disk := by
  rw [readdir]
  split
  · exact ⟨rfl, rfl, rfl⟩
  split
  · exact ⟨rfl, rfl, rfl⟩
  · exact listEntries_frame _ s

theorem lookup_grow (upper : List UInt8 → List UInt8) (s : Fat32) (dirId : Nat)
    (name : List UInt8) : InodesGrow s (s.lookup upper dirId name).2 := by
  rw [lookup]
  split
  · exact InodesGrow.of_eq rfl
  rename_i dir _
  split
  · exact InodesGrow.of_eq rfl
  cases findEntry (s.readDirRaw dir.firstCluster) (toShortName upper name) with
  | none => exact InodesGrow.of_eq rfl
  | some e => exact internInode_grow ..

theorem listEntries_grow (es : List RawDirEntry) (s : Fat32) :
    InodesGrow s (listEntries es s).2 := by
  induction es generalizing s with
  | nil => exact InodesGrow.of_eq rfl
  | cons e es ih =>
    rw [listEntries]
    split
    · exact ih s
    · exact (internInode_grow s e.firstCluster e.fileSize e.isDir).trans (ih _)

theorem readdir_grow (s : Fat32) (dirId : Nat) : InodesGrow s (s.readdir dirId).2 := by
  rw [readdir]
  split
  · exact InodesGrow.of_eq rfl
  split
  · exact InodesGrow.of_eq rfl
  · exact listEntries_grow _ s

/-! ## `unlink` -/

/-- What `unlink` leaves behind when it removed the slot at `a` of directory
`d`: the slot is free, and the directories that are left keep their others. -/
structure Unlinked (v : Names) (s s' : Fat32) (d a h : Nat) (k : Bool) (gone : Nat → Prop) :
    Prop where
  slot : v.slot d a h k
  described : Described s' (v.drop a h gone)
  gone_iff : ∀ id, gone id ↔ s.inodes.find? h k = some id
  next : s'.inodes.next = s.inodes.next
  kept : ∀ d', v.dir d' → (d' = h → d' = 0) → s'.slotAddrs d' = s.slotAddrs d' ∧
    ∀ b ∈ s.slotAddrs d', b ≠ a → s'.entryAt b = s.entryAt b
  free : (s'.entryAt a).isFree = true

/-- `unlink` drops the first inode that it finds for the entry. -/
def dropVictim (s : Fat32) : Option Nat → Fat32
  | none => s
  | some victim => { s with inodes := s.inodes.remove victim }

section dropVictim

variable (s : Fat32) (t : Option Nat)

@[simp] theorem dropVictim_geo : (s.dropVictim t).geo = s.geo := by cases t <;> rfl
@[simp] theorem dropVictim_fatCache : (s.dropVictim t).fatCache = s.fatCache := by cases t <;> rfl
@[simp] theorem dropVictim_disk : (s.dropVictim t).disk = s.disk := by cases t <;> rfl
@[simp] theorem dropVictim_next : (s.dropVictim t).inodes.next = s.inodes.next := by
  cases t <;> rfl

theorem dropVictim_get (x : Nat) :
    (s.dropVictim t).inodes.get x = if t = some x then none else s.inodes.get x := by
  cases t with
  | none => rw [if_neg (by simp)]; rfl
  | some victim =>
    by_cases hx : x = victim
    · rw [hx, if_pos rfl]
      exact if_pos rfl
    · rw [if_neg (by simpa using Ne.symm hx)]
      exact if_neg hx

end dropVictim

/-- The state after the table edit of `unlink`. -/
def freeEntry (s : Fat32) (h : Nat) : Fat32 := if 2 ≤ h then s.freeChain h else s

theorem freeEntry_frame (s : Fat32) (h : Nat) :
    (s.freeEntry h).geo = s.geo ∧ (s.freeEntry h).inodes = s.inodes ∧
      (s.freeEntry h).disk = s.disk ∧
        ∀ x, x ∉ s.clusterChain h → (s.freeEntry h).fatCache x = s.fatCache x := by
  rw [freeEntry]
  split
  · rw [freeChain]
    refine ⟨freeClusters_geo .., freeClusters_inodes .., freeClusters_disk .., fun x hx => ?_⟩
    rw [fatCache_freeClusters, if_neg hx]
  · exact ⟨rfl, rfl, rfl, fun _ _ => rfl⟩

theorem freeEntry_fatCache (s : Fat32) (h x : Nat) :
    (s.freeEntry h).fatCache x = if x ∈ s.clusterChain h then 0 else s.fatCache x := by
  rw [freeEntry]
  split
  · rw [freeChain, fatCache_freeClusters]
    rfl
  · rename_i hlt
    rw [clusterChain_def, chainOf_eq_nil, if_neg List.not_mem_nil]
    cases hv : s.geo.validCluster h with
    | false => rfl
    | true => exact absurd (Geometry.validCluster_iff.1 hv).1 hlt

/-- What `unlink` leaves behind when the entry it found has head `h` and the slot it
erased is `r`. -/
structure Erased (s s' : Fat32) (h r : Nat) : Prop where
  geo : s'.geo = s.geo
  fatCache : ∀ x, s'.fatCache x = if x ∈ s.clusterChain h then 0 else s.fatCache x
  entry : ∀ cs, ∀ b ∈ s.geo.slotsOf cs, b ≠ r → s'.entryAt b = s.entryAt b
  free : (s'.entryAt r).isFree = true

/-- The chain is freed, the slot marked, the table flushed and an inode dropped. -/
theorem erased_flushed {s s₂ : Fat32} {h r : Nat} {t : Option Nat} {cs : List Nat}
    (hr : r ∈ s.geo.slotsOf cs)
    (hs₂ : s₂ = (s.freeEntry h).setBytes (writeBytes s.disk.bytes r [0xE5])) :
    Erased s ((s₂.setBytes s₂.flushedBytes).dropVictim t) h r := by
  obtain ⟨hgeo, -, -, -⟩ := s.freeEntry_frame h
  have hbytes : ∀ x, s.geo.dataAddr ≤ x →
      ((s₂.setBytes s₂.flushedBytes).dropVictim t).disk.bytes x =
        writeBytes s.disk.bytes r [0xE5] x := fun x hx => by
    rw [dropVictim_disk, setBytes_bytes]
    refine (s₂.flushedBytes_out ?_).trans ?_
    · rw [hs₂, setBytes_geo, hgeo]
      exact hx
    · rw [hs₂, setBytes_bytes]
  have haddr : ∀ {b cs}, b ∈ s.geo.slotsOf cs → ∀ i, i < 32 → s.geo.dataAddr ≤ b + i :=
    fun hb i hi => by
      obtain ⟨c, -, hin⟩ := Geometry.inCluster_of_mem_slotsOf hb
      exact (hin i hi).dataAddr_le
  refine ⟨?_, fun x => ?_, fun cs b hb hbr => ?_, ?_⟩
  · rw [dropVictim_geo, setBytes_geo, hs₂, setBytes_geo, hgeo]
  · rw [dropVictim_fatCache, setBytes_fatCache, hs₂, setBytes_fatCache, freeEntry_fatCache]
  · refine RawDirEntry.ofBytes_congr fun i hi => ?_
    rw [hbytes _ (haddr hb i hi)]
    refine writeBytes_out _ ?_
    have := Geometry.slot_disjoint hr hb (Ne.symm hbr)
    simp only [List.length_singleton]
    omega
  · have hfirst := writeBytes_in s.disk.bytes r (show 0 < [(0xE5 : UInt8)].length by simp) 0
    rw [Nat.add_zero, ← hbytes r (haddr hr 0 (by omega))] at hfirst
    rw [RawDirEntry.isFree_eq, entryAt, RawDirEntry.ofBytes_first, hfirst]
    decide

/-- The state after an `unlink` that frees the chain of `h` and erases slot `r`. -/
def erase (s : Fat32) (h r : Nat) (k : Bool) : Fat32 :=
  let s₂ := (s.freeEntry h).setBytes (writeBytes s.disk.bytes r [0xE5])
  (s₂.setBytes s₂.flushedBytes).dropVictim (s.inodes.find? h k)

theorem freeEntry_entryAt (s : Fat32) (h : Nat) : (s.freeEntry h).entryAt = s.entryAt := by
  funext b
  exact congrArg (fun d : Ata.Disk => RawDirEntry.ofBytes d.bytes b) (s.freeEntry_frame h).2.2.1

/-- `unlink` fails at once, or frees the chain of the entry it finds.  Then a second
search, in the freed state, decides whether an entry is erased. -/
theorem unlink_cases {upper : List UInt8 → List UInt8} {s : Fat32} (hs : Sound s)
    (dirId : Nat) (name : List UInt8) :
    (∃ e, s.unlink upper dirId name = (.error e, s)) ∨
    ∃ dir a, s.inodes.get dirId = some dir ∧ dir.isDir = true ∧
      s.findSlot dir.firstCluster (toShortName upper name) = some a ∧
      ((removeFind s.entryAt (toShortName upper name)
          ((s.freeEntry (s.entryAt a).firstCluster).slotAddrs dir.firstCluster) = none ∧
        s.unlink upper dirId name =
          (.error "file not found", s.freeEntry (s.entryAt a).firstCluster)) ∨
      ∃ r, removeFind s.entryAt (toShortName upper name)
          ((s.freeEntry (s.entryAt a).firstCluster).slotAddrs dir.firstCluster) = some r ∧
        s.unlink upper dirId name =
          (.ok (), s.erase (s.entryAt a).firstCluster r (s.entryAt a).isDir)) := by
  rw [unlink]
  cases hdir : s.inodes.get dirId with
  | none => exact Or.inl ⟨_, rfl⟩
  | some dir =>
    simp only
    split
    · exact Or.inl ⟨_, rfl⟩
    rename_i hk
    rw [findEntry_eq hs]
    cases hfind : s.findSlot dir.firstCluster (toShortName upper name) with
    | none => exact Or.inl ⟨_, rfl⟩
    | some a =>
      refine Or.inr ⟨dir, a, rfl, by simpa using hk, hfind, ?_⟩
      simp only [Option.map_some]
      rw [← freeEntry]
      obtain ⟨hgeo, hino, hdisk, -⟩ := s.freeEntry_frame (s.entryAt a).firstCluster
      have hsound : Sound (s.freeEntry (s.entryAt a).firstCluster) :=
        hs.of_eq hgeo (by rw [hdisk])
      rw [removeDirEntry_eq hsound, freeEntry_entryAt]
      cases removeFind s.entryAt (toShortName upper name)
          ((s.freeEntry (s.entryAt a).firstCluster).slotAddrs dir.firstCluster) with
      | none => exact Or.inl ⟨rfl, rfl⟩
      | some r =>
        refine Or.inr ⟨r, rfl, ?_⟩
        simp only [hdisk]
        rw [flushFat_eq (hsound.setBytes _), erase]
        simp only [setBytes_inodes, hino]
        cases s.inodes.find? (s.entryAt a).firstCluster (s.entryAt a).isDir with
        | none => rfl
        | some victim => simp only [dropVictim, setBytes_inodes, hino]

section unlink

variable {s : Fat32} {v : Names} (hd : Described s v) {d a h : Nat} {k : Bool}
  (hslot : v.slot d a h k)

include hd hslot

theorem Described.freeEntry_chains :
    (∀ x, v.heads x → (x = h → x = 0) → (s.freeEntry h).clusterChain x = s.clusterChain x) ∧
      ChainsOk s.geo (s.freeEntry h).fatCache fun x => v.heads x ∧ x ≠ h := by
  obtain ⟨hgeo, -, -, hfat⟩ := s.freeEntry_frame h
  obtain ⟨hother, hok⟩ := hd.chains.free (Or.inr (Or.inl ⟨d, a, k, hslot⟩)) hfat
  refine ⟨fun x hx hxh => ?_, hok⟩
  by_cases heq : x = h
  · rw [hxh heq, clusterChain_def, clusterChain_def, chainOf_zero, chainOf_zero]
  · rw [clusterChain_def, hgeo]
    exact hother x hx heq

/-- No name of the head is left when the slot and its inode are gone. -/
theorem Described.not_heads_drop {gone : Nat → Prop}
    (hgone : ∀ id, gone id ↔ s.inodes.find? h k = some id) (h0 : h ≠ 0) :
    ¬ (v.drop a h gone).heads h := by
  have hkind : ∀ id k', v.ino id h k' → k' = k := fun id k' hi => by
    cases hk : k with
    | true =>
      cases k' with
      | true => rfl
      | false => exact absurd (hd.ok.slot_dir (hk ▸ hslot)) (hd.ok.ino_file hi h0)
    | false =>
      cases k' with
      | false => rfl
      | true => exact absurd (hd.ok.ino_dir hi) (hd.ok.slot_file (hk ▸ hslot) h0)
  rintro (⟨-, hx⟩ | ⟨d', a', k', hx, hne, -⟩ | ⟨id, k', hx, hng⟩)
  · exact h0 (hx rfl)
  · exact hne (hd.ok.slot_unique hx hslot h0)
  · rw [hkind id k' hx] at hx
    obtain ⟨i, hi, hih, hik⟩ := (hd.covers.ino _ _ _).mp hx
    cases hfind : s.inodes.find? h k with
    | none => exact InodeTable.find?_eq_none hfind hi ⟨hih, hik⟩
    | some id' =>
      obtain ⟨i', hi', hih', hik'⟩ := InodeTable.find?_eq_some hfind
      have hx' := (hd.covers.ino id' h k).mpr ⟨i', hi', hih', hik'⟩
      rw [hd.ok.ino_unique hx' hx h0] at hfind
      exact hng ((hgone id).mpr hfind)

/-- The chain is freed, the slot marked, the table flushed and the inode
dropped. -/
theorem Described.unlinked (ha : a ∈ s.slotAddrs d) {s₂ : Fat32}
    (hs₂ : s₂ = (s.freeEntry h).setBytes (writeBytes s.disk.bytes a [0xE5])) :
    Unlinked v s ((s₂.setBytes s₂.flushedBytes).dropVictim (s.inodes.find? h k)) d a h k
      fun id => s.inodes.find? h k = some id := by
  obtain ⟨hgeo, hino, hdisk, -⟩ := s.freeEntry_frame h
  obtain ⟨hchain, hok⟩ := hd.freeEntry_chains hslot
  generalize htd : s.inodes.find? h k = t
  generalize hs₃ : (s₂.setBytes s₂.flushedBytes).dropVictim t = s₃
  have hgeo₃ : s₃.geo = s.geo := by
    rw [← hs₃, dropVictim_geo, setBytes_geo, hs₂, setBytes_geo, hgeo]
  have hfat₃ : s₃.fatCache = (s.freeEntry h).fatCache := by
    rw [← hs₃, dropVictim_fatCache, setBytes_fatCache, hs₂, setBytes_fatCache]
  have hget₃ : ∀ x, s₃.inodes.get x = if t = some x then none else s.inodes.get x := fun x => by
    rw [← hs₃, dropVictim_get, setBytes_inodes, hs₂, setBytes_inodes, hino]
  have hpres₃ : s₃.disk.present = s.disk.present := by
    rw [← hs₃, dropVictim_disk, setBytes_present, hs₂, setBytes_present, hdisk]
  have herased : Erased s s₃ h a := hs₃ ▸ erased_flushed ha hs₂
  have hkept : ∀ d', v.dir d' → (d' = h → d' = 0) → s₃.slotAddrs d' = s.slotAddrs d' ∧
      ∀ b ∈ s.slotAddrs d', b ≠ a → s₃.entryAt b = s.entryAt b := by
    intro d' hd' hd'h
    refine ⟨?_, fun b hb hba => herased.entry _ b hb hba⟩
    rw [slotAddrs, slotAddrs, hgeo₃, ← hchain d' (Or.inl hd') hd'h, clusterChain_def,
      clusterChain_def, hgeo₃, hfat₃, hgeo]
  have hfree := herased.free
  have hgone : ∀ id, t = some id ↔ s.inodes.find? h k = some id := fun id => by rw [htd]
  have hnext₃ : s₃.inodes.next = s.inodes.next := by
    rw [← hs₃, dropVictim_next, setBytes_inodes, hs₂, setBytes_inodes, hino]
  refine ⟨hslot, ⟨hd.sound.of_eq hgeo₃ hpres₃, ⟨?_, ?_, ?_⟩, ?_, ?_⟩, hgone, hnext₃, hkept,
    hfree⟩
  · exact hd.covers.root.trans (congrArg Geometry.rootCluster hgeo₃.symm)
  · rintro d' b ⟨hd', hd'h⟩ hb he
    obtain ⟨hslots, hents⟩ := hkept d' hd' hd'h
    rw [hslots] at hb
    by_cases hba : b = a
    · rw [hba, RawDirEntry.isEntry, hfree] at he
      cases he
    · rw [hents b hb hba] at he ⊢
      exact ⟨hd.covers.slot d' b hd' hb he, hba, hd'h⟩
  · intro id x k'
    rw [hget₃ id]
    constructor
    · rintro ⟨hi, hng⟩
      rw [if_neg hng]
      exact (hd.covers.ino _ _ _).mp hi
    · rintro ⟨i, hi, hih, hik⟩
      by_cases hg : t = some id
      · rw [if_pos hg] at hi
        cases hi
      · rw [if_neg hg] at hi
        exact ⟨(hd.covers.ino _ _ _).mpr ⟨i, hi, hih, hik⟩, hg⟩
  · refine hd.ok.drop hslot fun id hi h0 => ?_
    by_contra hng
    exact hd.not_heads_drop hslot hgone h0 (Or.inr (Or.inr ⟨id, true, hi, hng⟩))
  · rw [hgeo₃, hfat₃]
    refine hok.mono fun x hx => ?_
    by_cases hx0 : x = 0
    · exact Or.inl hx0
    refine Or.inr ⟨Names.heads_drop hx, fun hxh => ?_⟩
    exact hd.not_heads_drop hslot hgone (hxh ▸ hx0) (hxh ▸ hx)

end unlink

/-- `unlink` fails at once, or removes the slot that it finds.  The conditions
are that the name is not `.` or `..`, and that the search that removes the slot
agrees with the one that found it. -/
theorem unlink_described {upper : List UInt8 → List UInt8} {s : Fat32} {v : Names}
    (hd : Described s v) (hself : v.NoSelf) (dirId : Nat) (name : List UInt8)
    (hsame : ∀ dir a, s.inodes.get dirId = some dir → dir.isDir = true →
      s.findSlot dir.firstCluster (toShortName upper name) = some a →
        ¬ IsDots (toShortName upper name) ∧
          removeFind s.entryAt (toShortName upper name) (s.slotAddrs dir.firstCluster) = some a) :
    (∃ e, s.unlink upper dirId name = (.error e, s)) ∨
    ∃ dir a s' gone, s.inodes.get dirId = some dir ∧ dir.isDir = true ∧
      s.findSlot dir.firstCluster (toShortName upper name) = some a ∧
      s.unlink upper dirId name = (.ok (), s') ∧
      Unlinked v s s' dir.firstCluster a (s.entryAt a).firstCluster (s.entryAt a).isDir gone := by
  rcases @unlink_cases upper s hd.sound dirId name with
    herr | ⟨dir, a, hdir, hk, hfind, hcase⟩
  · exact Or.inl herr
  obtain ⟨hdots, hremove⟩ := hsame dir a hdir hk hfind
  have hvdir := hd.dir_self hdir hk
  have hslot := hd.slot_of_find hvdir hfind hdots
  have hne : dir.firstCluster = (s.entryAt a).firstCluster → dir.firstCluster = 0 := by
    intro heq
    by_contra h0
    exact hself hslot (heq ▸ h0) heq.symm
  have hslots : (s.freeEntry (s.entryAt a).firstCluster).slotAddrs dir.firstCluster =
      s.slotAddrs dir.firstCluster := by
    rw [slotAddrs, slotAddrs, (hd.freeEntry_chains hslot).1 _ (Or.inl hvdir) hne,
      (s.freeEntry_frame _).1]
  rw [hslots, hremove] at hcase
  rcases hcase with ⟨hnone, -⟩ | ⟨r, hr, heq⟩
  · cases hnone
  · obtain rfl := Option.some.inj hr
    exact Or.inr ⟨dir, a, _, _, hdir, hk, hfind, heq, hd.unlinked hslot (findSlot_spec hfind).1 rfl⟩

/-! ## Creating on an empty volume -/

theorem emptyMount_root :
    emptyMount.inodes.get 1 = some { firstCluster := 2, size := 0, isDir := true } := rfl

/-- On an empty volume `create` enters a file of any name, and takes no
cluster. -/
theorem emptyMount_create (upper : List UInt8 → List UInt8) (name : List UInt8) :
    ∃ a s, Entered (namesOf emptyMount).heads emptyMount s 2 a (newFileEntry upper name) ∧
      emptyMount.create upper 1 name = (.ok (s.internInode 0 0 false).1,
        (s.internInode 0 0 false).2) ∧
      Good (s.internInode 0 0 false).2 ∧
        (s.internInode 0 0 false).2.fatCache = emptyMount.fatCache := by
  have hgood : Good emptyMount := flat_empty.good_mount rootFat_lt
  have hslot : rootSlot smallGeometry 0 ∈ emptyMount.slotAddrs 2 := by
    rw [emptyMount_slotAddrs]
    exact List.mem_map_of_mem (by decide)
  have hnone : findEntry (emptyMount.readDirRaw 2) (toShortName upper name) = none := by
    rw [readDirRaw_eq hgood.sound]
    exact findEntry_free fun a ha => emptyMount_free ha
  obtain ⟨m, hcreate⟩ := create_ok hgood.sound emptyMount_root name rfl hnone
    ⟨_, hslot, emptyMount_free hslot⟩
  rcases create_described hgood.described emptyMount_root name with
    ⟨e, s', heq, -⟩ | ⟨a, s, -, -, hent, -, heq, hdesc⟩
  · rw [heq] at hcreate
    cases hcreate
  refine ⟨a, s, hent, heq, hdesc.good, ?_⟩
  rw [hcreate, Prod.mk.injEq] at heq
  rw [← heq.2, internInode_fatCache, setBytes_fatCache]

end AeroOS.Fat32
