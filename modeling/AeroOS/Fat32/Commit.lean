import AeroOS.Fat32.Write

/-!
# FAT32: the end of `write` and `truncate`

Both operations end alike: the table is flushed, and the size of the inode is
noted in the first directory entry that names its head.

* `commit` is this end, and `Committed` what it leaves behind: the table on the
  disk, and every directory entry as it was but for one size field.
* `SameKey` is that change of an entry.
* `write_phases` is `write` up to this point, for every offset and buffer.
-/

namespace AeroOS.Fat32

open Bytes

/-! ## Entries up to their size -/

/-- The second entry is the first, but perhaps for its size. -/
def SameKey (e e' : RawDirEntry) : Prop := ∃ n, e' = { e with fileSize := n }

namespace SameKey

variable {e e' e'' : RawDirEntry}

theorem refl (e : RawDirEntry) : SameKey e e := ⟨e.fileSize, rfl⟩

theorem of_eq (h : e' = e) : SameKey e e' := h ▸ refl e

theorem trans (h : SameKey e e') (h' : SameKey e' e'') : SameKey e e'' := by
  obtain ⟨n, rfl⟩ := h
  obtain ⟨m, rfl⟩ := h'
  exact ⟨m, rfl⟩

theorem name (h : SameKey e e') : e'.name = e.name := by
  obtain ⟨n, rfl⟩ := h
  rfl

theorem isFree (h : SameKey e e') : e'.isFree = e.isFree := by
  obtain ⟨n, rfl⟩ := h
  rfl

theorem isLfn (h : SameKey e e') : e'.isLfn = e.isLfn := by
  obtain ⟨n, rfl⟩ := h
  rfl

theorem isDir (h : SameKey e e') : e'.isDir = e.isDir := by
  obtain ⟨n, rfl⟩ := h
  rfl

theorem isEntry (h : SameKey e e') : e'.isEntry = e.isEntry := by
  obtain ⟨n, rfl⟩ := h
  rfl

theorem firstCluster (h : SameKey e e') : e'.firstCluster = e.firstCluster := by
  obtain ⟨n, rfl⟩ := h
  rfl

end SameKey

/-! ## The flush and the size field -/

/-- The end of `write` and `truncate`. -/
def commit (s : Fat32) (id : Nat) : Except String Unit × Fat32 :=
  match s.flushFat with
  | (false, s) => (.error "fat flush failed", s)
  | (true, s) => s.updateDirEntrySize id

/-- What `commit` leaves behind, for an inode with this head. -/
structure Committed (s s' : Fat32) (head : Nat) : Prop where
  geo : s'.geo = s.geo
  fatCache : s'.fatCache = s.fatCache
  inodes : s'.inodes = s.inodes
  sound : Sound s'
  synced : Synced s'
  slot : ∀ cs, ∀ a ∈ s.geo.slotsOf cs, s'.entryAt a = s.entryAt a ∨
    ((s.entryAt a).firstCluster = head ∧ SameKey (s.entryAt a) (s'.entryAt a))
  bytes : ∀ c x, 2 ≤ c → (∀ d, IsDir s d → c ∉ s.clusterChain d) → s.geo.InCluster c x →
    s'.disk.bytes x = s.disk.bytes x

theorem Committed.sameKey {s s' : Fat32} {head a : Nat} {cs : List Nat}
    (h : Committed s s' head) (ha : a ∈ s.geo.slotsOf cs) :
    SameKey (s.entryAt a) (s'.entryAt a) :=
  (h.slot cs a ha).elim SameKey.of_eq fun h => h.2

/-- The flush leaves the data region alone. -/
theorem entryAt_flushed (s : Fat32) {a : Nat} {cs : List Nat} (ha : a ∈ s.geo.slotsOf cs) :
    (s.setBytes s.flushedBytes).entryAt a = s.entryAt a := by
  obtain ⟨c, -, hin⟩ := Geometry.inCluster_of_mem_slotsOf ha
  exact RawDirEntry.ofBytes_congr fun i hi => s.flushedBytes_out (hin i hi).dataAddr_le

theorem sameDirs_flushed (s : Fat32) : SameDirs s (s.setBytes s.flushedBytes) where
  geo := rfl
  chain _ _ := rfl
  bytes _ _ _ _ _ hin := s.flushedBytes_out hin.dataAddr_le

/-- A flush after a change leaves the directories alone, too. -/
theorem SameDirs.flushed {s s' : Fat32} (h : SameDirs s s') :
    SameDirs s (s'.setBytes s'.flushedBytes) where
  geo := h.geo
  chain := h.chain
  bytes d hd c hc x hin :=
    (s'.flushedBytes_out (h.geo.symm ▸ hin.dataAddr_le)).trans (h.bytes d hd c hc x hin)

/-- A change that leaves the directories alone, and adds no inode of a directory, makes
no directory. -/
theorem SameDirs.isDir_of {s s' : Fat32} (h : SameDirs s s')
    (hino : ∀ id i, s'.inodes.get id = some i → i.isDir = true → s.inodes.get id = some i)
    {d : Nat} (hd : IsDir s' d) : IsDir s d := by
  induction hd with
  | root => exact h.geo ▸ IsDir.root
  | inode hi hk => exact IsDir.inode (hino _ _ hi hk) hk
  | @slot d a _ ha he hk ih =>
    rw [h.slotAddrs ih] at ha
    rw [h.entryAt ih ha] at he hk ⊢
    exact IsDir.slot ih ha he hk

theorem commit_spec {s : Fat32} (hs : Sound s) {id : Nat} {i : FatInode}
    (hi : s.inodes.get id = some i) (hk : i.isDir = false) :
    Committed s (s.commit id).2 i.firstCluster := by
  have hflush : Committed s (s.setBytes s.flushedBytes) i.firstCluster :=
    { geo := rfl
      fatCache := rfl
      inodes := rfl
      sound := hs.setBytes _
      synced := synced_setBytes_flushedBytes hs
      slot := fun cs a ha => Or.inl (s.entryAt_flushed ha)
      bytes := fun c x _ _ hin => s.flushedBytes_out hin.dataAddr_le }
  rw [commit, flushFat_eq hs]
  simp only
  rw [updateDirEntrySize_eq hflush.sound hi hk]
  cases hfind : Fat32.findSized (s.setBytes s.flushedBytes) i.firstCluster
      (s.setBytes s.flushedBytes).maxDepth (s.setBytes s.flushedBytes).geo.rootCluster with
  | error e => exact hflush
  | ok o =>
    cases o with
    | none => exact hflush
    | some a =>
      obtain ⟨d, hd, ha, hhit⟩ := findSized_spec IsDir.root hfind
      have hhead : ((s.setBytes s.flushedBytes).entryAt a).firstCluster = i.firstCluster := by
        simp only [sizeHit, Bool.and_eq_true, beq_iff_eq] at hhit
        exact hhit.2
      refine
        { geo := rfl
          fatCache := rfl
          inodes := rfl
          sound := hflush.sound.setBytes _
          synced := hflush.synced.setBytes hflush.sound fun x hx => ?_
          slot := fun cs b hb => ?_
          bytes := fun c x hc hnd hin => ?_ }
      · obtain ⟨c, -, hin⟩ := Geometry.inCluster_of_mem_slotsOf ha
        refine writeBytes_out _ (Or.inl ?_)
        have h0 : s.geo.dataAddr ≤ a + 0 := (hin 0 (by omega)).dataAddr_le
        have hx' : x < s.geo.dataAddr := hx
        omega
      · by_cases hba : b = a
        · subst hba
          rw [← s.entryAt_flushed hb]
          exact Or.inr ⟨hhead, _, setEntrySize_entryAt _ _ _⟩
        · left
          rw [← s.entryAt_flushed hb]
          exact setEntrySize_entryAt_of_ne ha hb hba
      · refine (setEntrySize_bytes ha fun c' hc' hin' => ?_).trans
          (s.flushedBytes_out hin.dataAddr_le)
        have hv := (Geometry.validCluster_iff.mp (s.valid_clusterChain d c' hc')).1
        have heq := Geometry.InCluster.unique hc hv hin hin'
        exact hnd d (s.sameDirs_flushed.isDir_of (fun _ _ hi _ => hi) hd) (heq ▸ hc')

/-! ## The phases of `write` -/

/-- Data of the file with this chain was written into `s`, and its size noted. -/
structure Stored (s s' : Fat32) (id : Nat) (chain : List Nat) : Prop where
  geo : s'.geo = s.geo
  fatCache : s'.fatCache = s.fatCache
  present : s'.disk.present = s.disk.present
  bytes : ∀ x, (∀ c ∈ chain, ¬ s.geo.InCluster c x) → s'.disk.bytes x = s.disk.bytes x
  inode : ∀ i, s.inodes.get id = some i → ∃ n, s'.inodes.get id = some { i with size := n }
  inode_of_ne : ∀ x, x ≠ id → s'.inodes.get x = s.inodes.get x
  next : s'.inodes.next = s.inodes.next

/-- The data loop never fails, and changes nothing but the clusters it was
given. -/
theorem writeLoop_frame {s : Fat32} (hs : Sound s) {chain : List Nat}
    (hchain : ∀ c ∈ chain, s.geo.validCluster c = true) (offset stop pos : Nat)
    (buf : List UInt8) (written : Nat) :
    ∃ n m, s.writeLoop chain offset stop pos buf written = (.ok n, s.setBytes m) ∧
      ∀ x, (∀ c ∈ chain, ¬ s.geo.InCluster c x) → m x = s.disk.bytes x := by
  induction hn : stop - pos using Nat.strongRecOn generalizing s pos written with
  | ind n ih =>
    rw [writeLoop]
    split
    swap
    · exact ⟨written, s.disk.bytes, rfl, fun _ _ => rfl⟩
    have hB := s.geo.bytesPerCluster_pos
    have hmod := Nat.mod_lt pos hB
    simp only
    split
    · exact ⟨written, s.disk.bytes, rfl, fun _ _ => rfl⟩
    rename_i hidx
    have hmem : chain.getD ((pos - offset) / s.geo.bytesPerCluster) 0 ∈ chain :=
      getD_mem (by omega)
    generalize chain.getD ((pos - offset) / s.geo.bytesPerCluster) 0 = c at *
    rw [readCluster_eq hs (hchain _ hmem)]
    simp only
    rw [writeCluster_patch hs (hchain _ hmem) (by simp; omega)]
    simp only
    generalize htake : min (stop - pos) (s.geo.bytesPerCluster - pos % s.geo.bytesPerCluster) =
      take
    generalize hdata : (buf.drop written).take take = data
    have hlen : data.length ≤ take := by
      rw [← hdata]
      simp
    obtain ⟨n', m, heq, hm⟩ := ih (stop - (pos + take)) (by omega)
      (hs.setBytes (writeBytes s.disk.bytes
        (s.geo.clusterAddr c + pos % s.geo.bytesPerCluster) data))
      hchain (pos + take) (written + take) rfl
    refine ⟨n', m, heq, fun x hx => (hm x hx).trans (writeBytes_out _ ?_)⟩
    have := hx c hmem
    unfold Geometry.InCluster at this
    omega

theorem write_phases {s : Fat32} (hs : Sound s) {H : Nat → Prop}
    (hH : ChainsOk s.geo s.fatCache H) {id : Nat} {i : FatInode}
    (hi : s.inodes.get id = some i) (hk : i.isDir = false) (hf : H i.firstCluster)
    (offset : Nat) (buf : List UInt8) :
    ∃ s₁ f' news, Extended H s s₁ id i.firstCluster f' news ∧
      ((∃ e, s.write id offset buf = (.error e, s₁)) ∨
        ∃ s₂ n, Stored s₁ s₂ id (s₁.clusterChain f') ∧
          s.write id offset buf = ((s₂.commit id).1.map fun _ => n, (s₂.commit id).2)) := by
  rw [write, hi]
  simp only [hk, Bool.false_eq_true, if_false]
  generalize (offset + buf.length) % 2 ^ 64 = stop
  cases hext : extendChain id (s.clustersFor stop - (s.clusterChain i.firstCluster).length) s i
      (s.clusterChain i.firstCluster) with
  | mk r s₁ =>
    obtain ⟨f', news, hx, hr⟩ := extendChain_spec hH hf hext
    refine ⟨s₁, f', news, hx, ?_⟩
    cases r with
    | error e => exact Or.inl ⟨e, rfl⟩
    | ok p =>
      right
      obtain ⟨i', chain'⟩ := p
      obtain ⟨rfl, rfl, -⟩ := hr i' chain' rfl
      have hs₁ : Sound s₁ := hs.of_eq hx.geo (by rw [hx.disk])
      have hbranch : ¬ (f' = 0 ∧ s₁.clusterChain f' ≠ []) := by
        rintro ⟨rfl, hne⟩
        exact hne chainOf_zero
      simp only [if_neg hbranch]
      obtain ⟨n, m, hloop, hm⟩ := writeLoop_frame hs₁ (s₁.valid_clusterChain f') offset stop
        offset buf 0
      rw [hloop]
      simp only
      generalize hs₂ : (if i.size < stop then (s₁.setBytes m).setSize id (stop % 2 ^ 32)
        else s₁.setBytes m) = s₂
      have hst : Stored s₁ s₂ id (s₁.clusterChain f') := by
        rw [← hs₂]
        split
        · exact ⟨rfl, rfl, rfl, hm, fun j hj => ⟨_, by
            rw [setSize, modify_get_self, setBytes_inodes, hj]
            rfl⟩, fun x hx => modify_get_of_ne _ _ _ hx, rfl⟩
        · exact ⟨rfl, rfl, rfl, hm, fun j hj => ⟨j.size, hj⟩, fun x hx => rfl, rfl⟩
      refine ⟨s₂, n, hst, ?_⟩
      have hsound : Sound s₂ := hs₁.of_eq hst.geo hst.present
      rw [commit, flushFat_eq hsound]
      simp only
      cases (s₂.setBytes s₂.flushedBytes).updateDirEntrySize id with
      | mk r s =>
        cases r with
        | error e => rfl
        | ok u => rfl

/-! ## Directories that an operation keeps -/

/-- The directories in `D` keep their chains, and their entries but perhaps for
sizes. -/
structure KeptSlots (D : Nat → Prop) (s s' : Fat32) : Prop where
  geo : s'.geo = s.geo
  chain : ∀ d, D d → s'.clusterChain d = s.clusterChain d
  slot : ∀ d a, D d → a ∈ s.slotAddrs d → SameKey (s.entryAt a) (s'.entryAt a)

namespace KeptSlots

variable {D : Nat → Prop} {s s' s'' : Fat32}

theorem slotAddrs (h : KeptSlots D s s') {d : Nat} (hd : D d) :
    s'.slotAddrs d = s.slotAddrs d := by
  rw [Fat32.slotAddrs, Fat32.slotAddrs, h.chain d hd, h.geo]

theorem trans (h : KeptSlots D s s') (h' : KeptSlots D s' s'') : KeptSlots D s s'' where
  geo := h'.geo.trans h.geo
  chain d hd := (h'.chain d hd).trans (h.chain d hd)
  slot d a hd ha := (h.slot d a hd ha).trans (h'.slot d a hd (h.slotAddrs hd ▸ ha))

end KeptSlots

theorem slotAddrs_zero (s : Fat32) : s.slotAddrs 0 = [] := by
  rw [slotAddrs, clusterChain_def, chainOf_zero]
  rfl

theorem RootFlat.of_kept {D : Nat → Prop} {s s' : Fat32} (h : RootFlat s)
    (hk : KeptSlots D s s') (hroot : D s.geo.rootCluster) : RootFlat s' := by
  intro a ha he
  rw [hk.geo, hk.slotAddrs hroot] at ha
  have hkey := hk.slot _ a hroot ha
  rw [hkey.isDir]
  exact h a ha (hkey.isEntry ▸ he)

/-- `commit` succeeds when the search does not leave the root directory. -/
theorem RootFlat.commit_ok {s : Fat32} (h : RootFlat s) (hs : Sound s) {id : Nat} {i : FatInode}
    (hi : s.inodes.get id = some i) (hk : i.isDir = false) : (s.commit id).1 = .ok () := by
  have hflat : RootFlat (s.setBytes s.flushedBytes) :=
    h.of_kept (D := fun _ => True) ⟨rfl, fun _ _ => rfl, fun _ a _ ha =>
      SameKey.of_eq (s.entryAt_flushed ha)⟩ trivial
  obtain ⟨o, ho⟩ := hflat.findSized_ok i.firstCluster s.geo.fatLen
  have hupd := updateDirEntrySize_eq (hs.setBytes s.flushedBytes)
    (show (s.setBytes s.flushedBytes).inodes.get id = some i from hi) hk
  have hdepth : (s.setBytes s.flushedBytes).maxDepth = s.geo.fatLen + 1 := rfl
  rw [hdepth, ho] at hupd
  rw [commit, flushFat_eq hs]
  simp only
  rw [hupd]
  cases o with
  | none => rfl
  | some a => rfl

theorem Committed.kept {s s' : Fat32} {head : Nat} (h : Committed s s' head) (D : Nat → Prop) :
    KeptSlots D s s' where
  geo := h.geo
  chain d _ := by rw [clusterChain_def, clusterChain_def, h.geo, h.fatCache]
  slot _ _ _ ha := h.sameKey ha

section kept

variable {H : Nat → Prop} {s s₁ : Fat32} {id f f' : Nat} {news : List Nat}

/-- Growing one file keeps the chains of the others. -/
theorem Extended.keeps_chain (hx : Extended H s s₁ id f f' news) {d : Nat} (hd : H d)
    (hdf : d = f → d = 0) : s₁.clusterChain d = s.clusterChain d := by
  by_cases heq : d = f
  · rw [hdf heq, clusterChain_def, clusterChain_def, chainOf_zero, chainOf_zero]
  · exact hx.others d hd heq

theorem Extended.kept (hx : Extended H s s₁ id f f' news) :
    KeptSlots (fun d => H d ∧ (d = f → d = 0)) s s₁ where
  geo := hx.geo
  chain _ hd := hx.keeps_chain hd.1 hd.2
  slot _ a _ _ := SameKey.of_eq (by rw [entryAt, entryAt, hx.disk])

/-- The data of one file does not touch the chains of the others. -/
theorem Extended.not_mem_chain (hx : Extended H s s₁ id f f' news)
    (hH : ChainsOk s.geo s.fatCache H) {d c : Nat} (hd : H d) (hf : H f) (hdf : d = f → d = 0)
    (hc : c ∈ s.clusterChain d) : c ∉ s₁.clusterChain f' := by
  rw [hx.chain]
  intro hmem
  rcases List.mem_append.mp hmem with hmem | hmem
  · have hne : d ≠ f := by
      intro heq
      rw [hdf heq, clusterChain_def, chainOf_zero] at hc
      exact absurd hc List.not_mem_nil
    exact hH.disj d f hd hf hne c hc hmem
  · exact hH.not_mem_of_free (hx.wasFree c hmem).1 hd hc

theorem Stored.kept {s₂ : Fat32} (hst : Stored s₁ s₂ id (s₁.clusterChain f'))
    (hx : Extended H s s₁ id f f' news) (hH : ChainsOk s.geo s.fatCache H) (hf : H f) :
    KeptSlots (fun d => H d ∧ (d = f → d = 0)) s s₂ where
  geo := hst.geo.trans hx.geo
  chain d hd := by
    rw [clusterChain_def, hst.geo, hst.fatCache]
    exact hx.keeps_chain hd.1 hd.2
  slot d a hd ha := by
    obtain ⟨c, hc, hin⟩ := Geometry.inCluster_of_mem_slotsOf ha
    have hv := (Geometry.validCluster_iff.mp (s.valid_clusterChain d c hc)).1
    refine SameKey.of_eq (RawDirEntry.ofBytes_congr fun j hj => ?_)
    rw [hst.bytes _ fun c' hc' hin' => ?_, hx.disk]
    have hv' := (Geometry.validCluster_iff.mp (s₁.valid_clusterChain f' c' hc')).1
    have heq := Geometry.InCluster.unique hv hv' (hin j hj) (hx.geo ▸ hin')
    subst heq
    exact hx.not_mem_chain hH hd.1 hf hd.2 hc hc'

end kept

end AeroOS.Fat32
