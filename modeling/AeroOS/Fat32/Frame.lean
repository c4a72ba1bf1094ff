import AeroOS.Fat32.Data

/-!
# FAT32: what the directories see of a change

* `SameDirs` says that a change left the directories alone, chains and bytes.
  The view of the state and the search for the size field then stay as they
  were (`SameDirs.covers`, `SameDirs.findSized`).
* `setEntrySize` is the write of a size field, `updateDirEntrySize_eq` the last
  step of `write` and `truncate`, and `findSized_spec` places the slot that it
  writes to.
-/

namespace AeroOS.Fat32

open Bytes

/-- The directories of `s` have the same chains and the same bytes in `s'`. -/
structure SameDirs (s s' : Fat32) : Prop where
  geo : s'.geo = s.geo
  chain : ∀ d, IsDir s d → s'.clusterChain d = s.clusterChain d
  bytes : ∀ d, IsDir s d → ∀ c ∈ s.clusterChain d, ∀ x, s.geo.InCluster c x →
    s'.disk.bytes x = s.disk.bytes x

namespace SameDirs

variable {s s' : Fat32}

theorem slotAddrs (h : SameDirs s s') {d : Nat} (hd : IsDir s d) :
    s'.slotAddrs d = s.slotAddrs d := by
  rw [Fat32.slotAddrs, Fat32.slotAddrs, h.chain d hd, h.geo]

theorem entryAt (h : SameDirs s s') {d a : Nat} (hd : IsDir s d) (ha : a ∈ s.slotAddrs d) :
    s'.entryAt a = s.entryAt a := by
  obtain ⟨c, hc, hin⟩ := Geometry.inCluster_of_mem_slotsOf ha
  exact RawDirEntry.ofBytes_congr fun i hi => h.bytes d hd c hc _ (hin i hi)

theorem covers (h : SameDirs s s') (hino : s'.inodes = s.inodes) : Covers s' (namesOf s) where
  root := by rw [h.geo]; rfl
  slot d a hd ha he := by
    rw [h.slotAddrs hd] at ha
    rw [h.entryAt hd ha] at he ⊢
    exact ⟨hd, ha, he, rfl, rfl⟩
  ino _ _ _ := by rw [hino]; rfl

end SameDirs

theorem firstFound_congr {f f' : Nat → Except String (Option Nat)} {l : List Nat}
    (h : ∀ d ∈ l, f' d = f d) : firstFound f' l = firstFound f l := by
  induction l with
  | nil => rfl
  | cons d l ih =>
    rw [firstFound, firstFound, h d (by simp), ih fun e he => h e (List.mem_cons_of_mem d he)]

theorem RawDirEntry.isEntry_of_isSized {e : RawDirEntry} (h : e.isSized = true) :
    e.isEntry = true := by
  simp only [isSized, Bool.and_eq_true, Bool.not_eq_true', Bool.or_eq_false_iff,
    bne_iff_ne, ne_eq] at h
  obtain ⟨⟨hfree, hlfn⟩, hdot⟩ := h
  have hname : ∀ n : List UInt8, n.getD 0 0 = 0x2E → ¬ e.name = n := by
    rintro n hn rfl
    exact hdot hn
  simp [isEntry, hfree, bne, hlfn, hname dotName (by simp [dotName]),
    hname dotdotName (by simp [dotdotName])]

theorem RawDirEntry.subdir?_eq_some {e : RawDirEntry} {h : Nat} (he : e.subdir? = some h) :
    e.isEntry = true ∧ e.isDir = true ∧ e.firstCluster = h := by
  rw [subdir?] at he
  split at he
  · rename_i hc
    rw [Bool.and_eq_true, Bool.and_eq_true] at hc
    exact ⟨isEntry_of_isSized hc.1.1, hc.1.2, Option.some.inj he⟩
  · cases he

/-- The directories that the search goes down into are directories. -/
theorem isDir_of_mem_subdirs {s : Fat32} {d e : Nat} (hd : IsDir s d)
    (he : e ∈ (s.slotAddrs d).filterMap fun a => (s.entryAt a).subdir?) : IsDir s e := by
  obtain ⟨a, ha, hsub⟩ := List.mem_filterMap.mp he
  obtain ⟨hent, hdir, rfl⟩ := RawDirEntry.subdir?_eq_some hsub
  exact IsDir.slot hd ha hent hdir

theorem SameDirs.findSized {s s' : Fat32} (h : SameDirs s s') (target depth : Nat) {d : Nat}
    (hd : IsDir s d) :
    Fat32.findSized s' target depth d = Fat32.findSized s target depth d := by
  induction depth generalizing d with
  | zero => rw [Fat32.findSized, Fat32.findSized]
  | succ depth ih =>
    have hfind : (s'.slotAddrs d).find? (fun a => sizeHit target (s'.entryAt a)) =
        (s.slotAddrs d).find? fun a => sizeHit target (s.entryAt a) := by
      rw [h.slotAddrs hd]
      exact List.find?_congr fun a ha => by rw [h.entryAt hd ha]
    have hsubs : (s'.slotAddrs d).filterMap (fun a => (s'.entryAt a).subdir?) =
        (s.slotAddrs d).filterMap fun a => (s.entryAt a).subdir? := by
      rw [h.slotAddrs hd]
      exact List.filterMap_congr fun a ha => by rw [h.entryAt hd ha]
    rw [Fat32.findSized, Fat32.findSized, hfind, hsubs]
    rw [firstFound_congr fun e he => ih (isDir_of_mem_subdirs hd he)]

theorem firstFound_some {f : Nat → Except String (Option Nat)} {l : List Nat} {a : Nat}
    (h : firstFound f l = .ok (some a)) : ∃ d ∈ l, f d = .ok (some a) := by
  induction l with
  | nil => cases h
  | cons d l ih =>
    rw [firstFound] at h
    split at h
    · cases h
    · rename_i b hb
      exact ⟨d, by simp, hb.trans h⟩
    · obtain ⟨e, he, hf⟩ := ih h
      exact ⟨e, List.mem_cons_of_mem d he, hf⟩

/-- The slot that the search finds is one of a directory, and names the file. -/
theorem findSized_spec {s : Fat32} {target depth d a : Nat} (hd : IsDir s d)
    (h : Fat32.findSized s target depth d = .ok (some a)) :
    ∃ d', IsDir s d' ∧ a ∈ s.slotAddrs d' ∧ sizeHit target (s.entryAt a) = true := by
  induction depth generalizing d with
  | zero => cases h
  | succ depth ih =>
    rw [Fat32.findSized] at h
    split at h
    · rename_i b hb
      cases h
      have hhit := List.find?_some (p := fun a => sizeHit target (s.entryAt a)) hb
      exact ⟨d, hd, List.mem_of_find?_eq_some hb, hhit⟩
    · obtain ⟨e, he, hf⟩ := firstFound_some h
      exact ih (isDir_of_mem_subdirs hd he) hf

/-- The root directory has no subdirectory. -/
def RootFlat (s : Fat32) : Prop :=
  ∀ a ∈ s.slotAddrs s.geo.rootCluster, (s.entryAt a).isEntry = true →
    (s.entryAt a).isDir = false

/-- The search for a size field does not leave a flat root directory. -/
theorem RootFlat.findSized_ok {s : Fat32} (h : RootFlat s) (target depth : Nat) :
    ∃ o, Fat32.findSized s target (depth + 1) s.geo.rootCluster = .ok o := by
  rw [Fat32.findSized]
  split
  · exact ⟨_, rfl⟩
  · have hnil : (s.slotAddrs s.geo.rootCluster).filterMap
        (fun a => (s.entryAt a).subdir?) = [] := by
      rw [List.filterMap_eq_nil_iff]
      intro a ha
      cases hsub : (s.entryAt a).subdir? with
      | none => rfl
      | some h' =>
        obtain ⟨he, hk, -⟩ := RawDirEntry.subdir?_eq_some hsub
        rw [h a ha he] at hk
        cases hk
    rw [hnil]
    exact ⟨none, rfl⟩

/-! ## Writing the size field -/

/-- The state with size `n` in the slot at `a`. -/
def setEntrySize (s : Fat32) (a n : Nat) : Fat32 :=
  s.setBytes (writeBytes s.disk.bytes (a + 28) (leBytes 4 n))

/-- The size field of a slot lies in a cluster of its directory. -/
theorem setEntrySize_bytes {s : Fat32} {cs : List Nat} {a n x : Nat}
    (ha : a ∈ s.geo.slotsOf cs) (hx : ∀ c ∈ cs, ¬ s.geo.InCluster c x) :
    (s.setEntrySize a n).disk.bytes x = s.disk.bytes x := by
  obtain ⟨c, hc, hin⟩ := Geometry.inCluster_of_mem_slotsOf ha
  refine writeBytes_out _ ?_
  by_contra hout
  rw [leBytes_length] at hout
  have hxa := hin (x - a) (by omega)
  rw [show a + (x - a) = x by omega] at hxa
  exact hx c hc hxa

theorem setEntrySize_entryAt_of_ne {s : Fat32} {cs ds : List Nat} {a b n : Nat}
    (ha : a ∈ s.geo.slotsOf cs) (hb : b ∈ s.geo.slotsOf ds) (hne : b ≠ a) :
    (s.setEntrySize a n).entryAt b = s.entryAt b := by
  refine RawDirEntry.ofBytes_congr fun i hi => writeBytes_out _ ?_
  have := Geometry.slot_disjoint ha hb (Ne.symm hne)
  rw [leBytes_length]
  omega

theorem setEntrySize_entryAt (s : Fat32) (a n : Nat) :
    (s.setEntrySize a n).entryAt a = { s.entryAt a with fileSize := n % 2 ^ 32 } := by
  have hbelow : ∀ i, i < 28 →
      writeBytes s.disk.bytes (a + 28) (leBytes 4 n) (a + i) = s.disk.bytes (a + i) :=
    fun i hi => writeBytes_out _ (by omega)
  have hkey := RawDirEntry.ofBytes_congr_key hbelow
  have hsize := readBytes_writeBytes s.disk.bytes (a + 28) (leBytes 4 n)
  rw [leBytes_length] at hsize
  have hfs : (RawDirEntry.ofBytes (writeBytes s.disk.bytes (a + 28) (leBytes 4 n)) a).fileSize =
      n % 2 ^ 32 := by
    simp only [RawDirEntry.ofBytes]
    rw [hsize, leNat_leBytes]
    rfl
  rw [hfs] at hkey
  exact hkey

/-- `update_dir_entry_size` on a regular file. -/
theorem updateDirEntrySize_eq {s : Fat32} (hs : Sound s) {id : Nat} {i : FatInode}
    (hi : s.inodes.get id = some i) (hk : i.isDir = false) :
    s.updateDirEntrySize id =
      match Fat32.findSized s i.firstCluster s.maxDepth s.geo.rootCluster with
      | .error e => (.error e, s)
      | .ok none => (.ok (), s)
      | .ok (some a) =>
        (.ok (), s.setEntrySize a i.size) := by
  rw [updateDirEntrySize, hi]
  simp only [hk, Bool.false_eq_true, if_false]
  rw [updateSizeRecursive_eq hs]
  cases Fat32.findSized s i.firstCluster s.maxDepth s.geo.rootCluster with
  | error e => rfl
  | ok o =>
    cases o with
    | none => rfl
    | some a => rfl

end AeroOS.Fat32
