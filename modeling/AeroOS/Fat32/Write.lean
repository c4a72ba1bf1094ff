import AeroOS.Fat32.Frame

/-!
# FAT32: what `write` leaves behind

* `write_eq` puts the phases of `write` together: make the chain long enough,
  write the data, note the size, flush, and look for the directory entry.
* `Wrote` collects what the final state is, phase by phase; `wrote_of_ok`
  gives it for every write that succeeds.
* `write_ok_iff` says when a write succeeds.  The contents of the file, of the
  free clusters and of the buffer have no part in it.
-/

namespace AeroOS.Fat32

open Bytes

/-! ## The inode table -/

section tables

variable (s : Fat32) (id n : Nat)

@[simp] theorem setSize_geo : (s.setSize id n).geo = s.geo := rfl
@[simp] theorem setSize_fatCache : (s.setSize id n).fatCache = s.fatCache := rfl
@[simp] theorem setSize_disk : (s.setSize id n).disk = s.disk := rfl
@[simp] theorem setFirstCluster_geo : (s.setFirstCluster id n).geo = s.geo := rfl
@[simp] theorem setFirstCluster_fatCache : (s.setFirstCluster id n).fatCache = s.fatCache := rfl
@[simp] theorem setFirstCluster_disk : (s.setFirstCluster id n).disk = s.disk := rfl

theorem modify_get_self (t : InodeTable) (f : FatInode → FatInode) :
    (t.modify id f).get id = (t.get id).map f := if_pos rfl

theorem modify_get_of_ne (t : InodeTable) (f : FatInode → FatInode) {x : Nat} (h : x ≠ id) :
    (t.modify id f).get x = t.get x := if_neg h

end tables

theorem Extended.inode {H : Nat → Prop} {s s' : Fat32} {id f' : Nat} {news : List Nat}
    {i : FatInode} (h : Extended H s s' id i.firstCluster f' news)
    (hi : s.inodes.get id = some i) :
    s'.inodes.get id = some { i with firstCluster := f' } := by
  rcases h.head with ⟨rfl, hino⟩ | ⟨-, -, hino⟩
  · rw [hino, hi]
  · rw [hino, modify_get_self, hi]
    rfl

theorem Extended.next {H : Nat → Prop} {s s' : Fat32} {id f f' : Nat} {news : List Nat}
    (h : Extended H s s' id f f' news) : s'.inodes.next = s.inodes.next := by
  rcases h.head with ⟨-, hino⟩ | ⟨-, -, hino⟩
  · rw [hino]
  · rw [hino]
    rfl

theorem Extended.inode_of_ne {H : Nat → Prop} {s s' : Fat32} {id f f' : Nat} {news : List Nat}
    (h : Extended H s s' id f f' news) {x : Nat} (hx : x ≠ id) :
    s'.inodes.get x = s.inodes.get x := by
  rcases h.head with ⟨-, hino⟩ | ⟨-, -, hino⟩
  · rw [hino]
  · rw [hino, modify_get_of_ne _ _ _ hx]

/-! ## The phases -/

/-- The state in which `write` looks for the directory entry: data written,
size noted, table flushed. -/
def wroteData (s₁ : Fat32) (id : Nat) (chain : List Nat) (size offset : Nat)
    (buf : List UInt8) : Fat32 :=
  let s₂ := s₁.setBytes (writtenBytes s₁.geo chain offset (offset + buf.length) offset buf 0
    s₁.disk.bytes)
  let s₃ := if size < offset + buf.length then s₂.setSize id (offset + buf.length) else s₂
  s₃.setBytes s₃.flushedBytes

section wroteData

variable (s₁ : Fat32) (id : Nat) (chain : List Nat) (size offset : Nat) (buf : List UInt8)

@[simp] theorem wroteData_geo : (wroteData s₁ id chain size offset buf).geo = s₁.geo := by
  simp only [wroteData, setBytes_geo]
  split <;> rfl

@[simp] theorem wroteData_fatCache :
    (wroteData s₁ id chain size offset buf).fatCache = s₁.fatCache := by
  simp only [wroteData, setBytes_fatCache]
  split <;> rfl

@[simp] theorem wroteData_present :
    (wroteData s₁ id chain size offset buf).disk.present = s₁.disk.present := by
  simp only [wroteData, setBytes_present]
  split <;> rfl

theorem wroteData_bytes {x : Nat} (hx : s₁.geo.dataAddr ≤ x) :
    (wroteData s₁ id chain size offset buf).disk.bytes x =
      writtenBytes s₁.geo chain offset (offset + buf.length) offset buf 0 s₁.disk.bytes x := by
  simp only [wroteData, setBytes_bytes]
  split
  · rw [flushedBytes_out _ (by exact hx)]
    rfl
  · rw [flushedBytes_out _ (by exact hx)]
    rfl

theorem wroteData_inode {i : FatInode} (hi : s₁.inodes.get id = some i) :
    (wroteData s₁ id chain i.size offset buf).inodes.get id =
      some { i with size := max i.size (offset + buf.length) } := by
  simp only [wroteData, setBytes_inodes]
  split
  · rename_i hlt
    rw [setSize, modify_get_self, setBytes_inodes, hi, Nat.max_eq_right (by omega)]
    rfl
  · rename_i hlt
    rw [setBytes_inodes, hi, Nat.max_eq_left (by omega)]

theorem wroteData_inode_of_ne {x : Nat} (hx : x ≠ id) :
    (wroteData s₁ id chain size offset buf).inodes.get x = s₁.inodes.get x := by
  simp only [wroteData, setBytes_inodes]
  split
  · rw [setSize, modify_get_of_ne _ _ _ hx, setBytes_inodes]
  · rfl

end wroteData

/-- The clusters that a file needs hold it. -/
theorem le_clustersFor_mul (s : Fat32) {n : Nat} (hn : n < 2 ^ 32) :
    n ≤ s.clustersFor n * s.geo.bytesPerCluster := by
  have hB := s.geo.bytesPerCluster_pos
  have hB' : s.geo.bytesPerCluster < 2 ^ 17 := by
    have := s.geo.sectorsPerCluster_lt
    rw [s.geo.bytesPerCluster_eq]
    omega
  rw [clustersFor]
  split
  · omega
  · rw [Nat.mod_eq_of_lt (by omega)]
    have hdiv := Nat.div_add_mod (n + s.geo.bytesPerCluster - 1) s.geo.bytesPerCluster
    have hmod := Nat.mod_lt (n + s.geo.bytesPerCluster - 1) hB
    rw [Nat.mul_comm]
    omega

section phases

variable {s : Fat32} (hg : Good s) {id : Nat} {i : FatInode} (hi : s.inodes.get id = some i)
  (hk : i.isDir = false) {offset : Nat} {buf : List UInt8}
  (hlt : offset + buf.length < 2 ^ 32)

/-- The allocation loop as `write` calls it. -/
def growFor (s : Fat32) (id : Nat) (i : FatInode) (stop : Nat) :
    Except String (FatInode × List Nat) × Fat32 :=
  extendChain id (s.clustersFor stop - (s.clusterChain i.firstCluster).length) s i
    (s.clusterChain i.firstCluster)

include hg hi hk hlt

/-- The phases of `write` on a regular file. -/
theorem write_eq :
    s.write id offset buf =
      match s.growFor id i (offset + buf.length) with
      | (.error e, s₁) => (.error e, s₁)
      | (.ok (i', chain'), s₁) =>
        let s₄ := wroteData s₁ id chain' i.size offset buf
        match Fat32.findSized s₄ i'.firstCluster s₄.maxDepth s₄.geo.rootCluster with
        | .error e => (.error e, s₄)
        | .ok none => (.ok buf.length, s₄)
        | .ok (some a) =>
          (.ok buf.length, s₄.setEntrySize a (max i.size (offset + buf.length))) := by
  have hmod : (offset + buf.length) % 2 ^ 64 = offset + buf.length :=
    Nat.mod_eq_of_lt (by omega)
  rw [write, hi]
  simp only [hk, Bool.false_eq_true, if_false, hmod]
  rw [growFor]
  cases hext : extendChain id (s.clustersFor (offset + buf.length) -
      (s.clusterChain i.firstCluster).length) s i (s.clusterChain i.firstCluster) with
  | mk r s₁ =>
    obtain ⟨f', news, hx, hr⟩ := extendChain_spec hg.chains (heads_of_inode hi) hext
    cases r with
    | error e => rfl
    | ok p =>
      obtain ⟨i', chain'⟩ := p
      obtain ⟨rfl, rfl, hnews⟩ := hr i' chain' rfl
      have hs₁ : Sound s₁ := hg.sound.of_eq hx.geo (by rw [hx.disk])
      -- the first cluster was set when the chain got it, so this branch is dead
      have hbranch : ¬ (f' = 0 ∧ s₁.clusterChain f' ≠ []) := by
        rintro ⟨rfl, hne⟩
        exact hne chainOf_zero
      have hcover : offset + buf.length ≤
          (s₁.clusterChain f').length * s₁.geo.bytesPerCluster := by
        have hle := le_clustersFor_mul s hlt
        have hlen : s.clustersFor (offset + buf.length) ≤ (s₁.clusterChain f').length := by
          rw [hx.chain, List.length_append, hnews]
          omega
        rw [hx.geo]
        exact hle.trans (Nat.mul_le_mul_right _ hlen)
      simp only [if_neg hbranch]
      rw [writeLoop_eq hs₁ (s₁.valid_clusterChain f') (fun p hp => by
        have hp' : p - offset ≤ p := by omega
        exact (Nat.div_le_div_right hp').trans_lt (div_lt_length (by
          have := hp.2.1
          omega))) (by omega)]
      simp only [Nat.zero_add, Nat.add_sub_cancel_left, Nat.mod_eq_of_lt hlt]
      have hs₃ : Sound (if i.size < offset + buf.length then
          (s₁.setBytes (writtenBytes s₁.geo (s₁.clusterChain f') offset (offset + buf.length)
            offset buf 0 s₁.disk.bytes)).setSize id (offset + buf.length)
          else s₁.setBytes (writtenBytes s₁.geo (s₁.clusterChain f') offset
            (offset + buf.length) offset buf 0 s₁.disk.bytes)) := by
        split
        · exact hs₁.of_eq rfl rfl
        · exact hs₁.of_eq rfl rfl
      have hflush := flushFat_eq hs₃
      rw [← wroteData] at hflush
      rw [hflush]
      simp only
      have hino := wroteData_inode s₁ id (s₁.clusterChain f') offset buf (hx.inode hi)
      have hs₄ : Sound (wroteData s₁ id (s₁.clusterChain f') i.size offset buf) :=
        hs₁.of_eq (by simp) (by simp)
      rw [updateDirEntrySize_eq hs₄ hino hk]
      simp only
      cases Fat32.findSized (wroteData s₁ id (s₁.clusterChain f') i.size offset buf) f'
          (wroteData s₁ id (s₁.clusterChain f') i.size offset buf).maxDepth
          (wroteData s₁ id (s₁.clusterChain f') i.size offset buf).geo.rootCluster with
      | error e => rfl
      | ok o => cases o <;> rfl

end phases

/-! ## What is left of the old state -/

section effect

variable {s : Fat32} (hg : Good s) {id : Nat} {i : FatInode} (hi : s.inodes.get id = some i)
  (hk : i.isDir = false)

include hg hi hk

/-- No cluster of the grown file is one of a directory. -/
theorem Extended.not_mem_dir {s₁ : Fat32} {f' : Nat} {news : List Nat}
    (hx : Extended (namesOf s).heads s s₁ id i.firstCluster f' news) {c d : Nat}
    (hc : c ∈ s₁.clusterChain f') (hd : IsDir s d) : c ∉ s.clusterChain d := by
  rw [hx.chain] at hc
  rcases List.mem_append.mp hc with hc | hc
  · exact hg.file_disjoint_dir hi hk hd c hc
  · exact hg.chains.not_mem_of_free (hx.wasFree c hc).1 (Or.inl hd)

/-- The directories keep their chains while the file grows. -/
theorem Extended.dir_chain {s₁ : Fat32} {f' : Nat} {news : List Nat}
    (hx : Extended (namesOf s).heads s s₁ id i.firstCluster f' news) {d : Nat}
    (hd : IsDir s d) : s₁.clusterChain d = s.clusterChain d := by
  by_cases hdf : d = i.firstCluster
  · have h0 : i.firstCluster = 0 := by
      by_contra h0
      exact hg.names.ino_file ⟨i, hi, rfl, hk⟩ h0 (hdf ▸ hd)
    rw [hdf, h0, clusterChain_def, clusterChain_def, chainOf_zero, chainOf_zero]
  · exact hx.others d (Or.inl hd) hdf

/-- The directories are as before when `write` looks for the entry. -/
theorem sameDirs_wroteData {s₁ : Fat32} {f' : Nat} {news : List Nat}
    (hx : Extended (namesOf s).heads s s₁ id i.firstCluster f' news) {offset : Nat}
    {buf : List UInt8}
    (hcover : offset + buf.length ≤ (s₁.clusterChain f').length * s₁.geo.bytesPerCluster) :
    SameDirs s (wroteData s₁ id (s₁.clusterChain f') i.size offset buf) where
  geo := by rw [wroteData_geo, hx.geo]
  chain d hd := by
    rw [clusterChain_def, wroteData_geo, wroteData_fatCache]
    exact hx.dir_chain hg hi hk hd
  bytes d hd c hc x hin := by
    have hcv := (Geometry.validCluster_iff.mp (s.valid_clusterChain d c hc)).1
    rw [wroteData_bytes _ _ _ _ _ _ (hx.geo ▸ hin.dataAddr_le), writtenBytes_out, hx.disk]
    rintro p hp hin'
    have hlen : (p - offset) / s₁.geo.bytesPerCluster < (s₁.clusterChain f').length := by
      have hp' : p - offset ≤ p := by omega
      exact (Nat.div_le_div_right hp').trans_lt (div_lt_length (by
        have := hp.2.1
        omega))
    have hmem := getD_mem hlen
    have hv := (Geometry.validCluster_iff.mp (s₁.valid_clusterChain f' _ hmem)).1
    have heq := Geometry.InCluster.unique hcv hv hin (hx.geo ▸ hin')
    exact hx.not_mem_dir hg hi hk (heq ▸ hmem) hd hc

end effect

/-- What a successful write leaves behind: the chain of the file grown in `s₁`,
the data in it, the new size, and the other slots, inodes and chains as they
were. -/
structure Wrote (s s' : Fat32) (id : Nat) (i : FatInode) (offset : Nat) (buf : List UInt8)
    (s₁ : Fat32) (f' : Nat) (news : List Nat) : Prop where
  ext : Extended (namesOf s).heads s s₁ id i.firstCluster f' news
  cover : offset + buf.length ≤ (s₁.clusterChain f').length * s.geo.bytesPerCluster
  geo : s'.geo = s.geo
  sound : Sound s'
  fatCache : s'.fatCache = s₁.fatCache
  inode : s'.inodes.get id =
    some { i with firstCluster := f', size := max i.size (offset + buf.length) }
  inode_of_ne : ∀ x, x ≠ id → s'.inodes.get x = s.inodes.get x
  data : ∀ c x, s.geo.validCluster c = true → (∀ d, IsDir s d → c ∉ s.clusterChain d) →
    s.geo.InCluster c x →
      s'.disk.bytes x = writtenBytes s.geo (s₁.clusterChain f') offset (offset + buf.length)
        offset buf 0 s.disk.bytes x
  slot : ∀ d a, IsDir s d → a ∈ s.slotAddrs d → s'.entryAt a = s.entryAt a ∨
    (sizeHit f' (s.entryAt a) = true ∧
      s'.entryAt a =
        { s.entryAt a with fileSize := max i.size (offset + buf.length) % 2 ^ 32 })

theorem wrote_of_ok {s s' : Fat32} (hg : Good s) {id : Nat} {i : FatInode}
    (hi : s.inodes.get id = some i) (hk : i.isDir = false) {offset : Nat} {buf : List UInt8}
    (hlt : offset + buf.length < 2 ^ 32) {n : Nat} (h : s.write id offset buf = (.ok n, s')) :
    n = buf.length ∧ ∃ s₁ f' news, Wrote s s' id i offset buf s₁ f' news := by
  rw [write_eq hg hi hk hlt] at h
  cases hgrow : s.growFor id i (offset + buf.length) with
  | mk r s₁ =>
    obtain ⟨f', news, hx, hr⟩ := extendChain_spec hg.chains (heads_of_inode hi) hgrow
    rw [hgrow] at h
    cases r with
    | error e => cases h
    | ok p =>
      obtain ⟨i', chain'⟩ := p
      obtain ⟨rfl, rfl, hnews⟩ := hr i' chain' rfl
      have hcover : offset + buf.length ≤
          (s₁.clusterChain f').length * s.geo.bytesPerCluster := by
        refine (le_clustersFor_mul s hlt).trans (Nat.mul_le_mul_right _ ?_)
        rw [hx.chain, List.length_append, hnews]
        omega
      have hs₁ : Sound s₁ := hg.sound.of_eq hx.geo (by rw [hx.disk])
      have hdirs := sameDirs_wroteData hg hi hk hx (hx.geo ▸ hcover)
      have hino := wroteData_inode s₁ id (s₁.clusterChain f') offset buf (hx.inode hi)
      simp only at h
      generalize hs₄ : wroteData s₁ id (s₁.clusterChain f') i.size offset buf = s₄ at *
      have hgeo : s₄.geo = s.geo := hdirs.geo
      have hdata : ∀ x, s.geo.dataAddr ≤ x → s₄.disk.bytes x =
          writtenBytes s.geo (s₁.clusterChain f') offset (offset + buf.length) offset buf 0
            s.disk.bytes x := fun x hx' => by
        rw [← hs₄, wroteData_bytes _ _ _ _ _ _ (hx.geo ▸ hx'), hx.geo, hx.disk]
      have hwrote : Wrote s s₄ id i offset buf s₁ f' news :=
        { ext := hx
          cover := hcover
          geo := hgeo
          sound := hs₁.of_eq (by rw [← hs₄, wroteData_geo]) (by rw [← hs₄, wroteData_present])
          fatCache := by rw [← hs₄, wroteData_fatCache]
          inode := hino
          inode_of_ne := fun x hxid => by
            rw [← hs₄, wroteData_inode_of_ne _ _ _ _ _ _ hxid, hx.inode_of_ne hxid]
          data := fun c x _ _ hin => hdata x hin.dataAddr_le
          slot := fun d a hd ha => Or.inl (hdirs.entryAt hd ha) }
      simp only [hgeo, hdirs.findSized _ _ IsDir.root] at h
      cases hfind : Fat32.findSized s f' s₄.maxDepth s.geo.rootCluster with
      | error e =>
        rw [hfind] at h
        cases h
      | ok o =>
        rw [hfind] at h
        cases o with
        | none =>
          cases h
          exact ⟨rfl, s₁, f', news, hwrote⟩
        | some a =>
          cases h
          obtain ⟨d, hd, ha, hhit⟩ := findSized_spec IsDir.root hfind
          have ha₄ : a ∈ s₄.geo.slotsOf (s.clusterChain d) := hgeo ▸ ha
          refine ⟨rfl, s₁, f', news, { hwrote with
            geo := hgeo
            sound := hwrote.sound.setBytes _
            fatCache := hwrote.fatCache
            inode := hino
            inode_of_ne := hwrote.inode_of_ne
            data := ?_
            slot := ?_ }⟩
          · intro c x hv hnd hin
            have hc2 := (Geometry.validCluster_iff.mp hv).1
            rw [setEntrySize_bytes ha₄, hdata x hin.dataAddr_le]
            intro c' hc' hin'
            have hv' := s.valid_clusterChain d c' hc'
            have heq := Geometry.InCluster.unique hc2 (Geometry.validCluster_iff.mp hv').1 hin
              (hgeo ▸ hin')
            exact hnd d hd (heq ▸ hc')
          · intro d' b hd' hb
            have hb₄ : b ∈ s₄.geo.slotsOf (s.clusterChain d') := hgeo ▸ hb
            by_cases hba : b = a
            · subst hba
              refine Or.inr ⟨hhit, ?_⟩
              rw [setEntrySize_entryAt, hdirs.entryAt hd' hb]
            · refine Or.inl ?_
              rw [setEntrySize_entryAt_of_ne ha₄ hb₄ hba, hdirs.entryAt hd' hb]

/-! ## When a write succeeds -/

/-- The allocation loop does not look at the disk. -/
theorem extendChain_setBytes (id n : Nat) (s : Fat32) (i : FatInode) (chain : List Nat)
    (m : Store) :
    extendChain id n (s.setBytes m) i chain =
      ((extendChain id n s i chain).1, (extendChain id n s i chain).2.setBytes m) := by
  induction n generalizing s i chain with
  | zero => rfl
  | succ n ih =>
    have halloc : (s.setBytes m).allocCluster =
        s.allocCluster.map fun p => (p.1, p.2.setBytes m) := by
      simp only [allocCluster, setBytes_geo, setBytes_fatCache, Option.map_map]
      rfl
    rw [extendChain, extendChain, halloc]
    cases s.allocCluster with
    | none => rfl
    | some p =>
      obtain ⟨c, s₁⟩ := p
      simp only [Option.map_some]
      cases chain.getLast? with
      | none => exact ih (s₁.setFirstCluster id c) _ _
      | some last => exact ih (s₁.setFat last c) _ _

/-- A write succeeds when there are clusters for it and the search for the
directory entry comes to an end. -/
theorem write_ok_iff {s : Fat32} (hg : Good s) {id : Nat} {i : FatInode}
    (hi : s.inodes.get id = some i) (hk : i.isDir = false) {offset : Nat} {buf : List UInt8}
    (hlt : offset + buf.length < 2 ^ 32) :
    (∃ n, (s.write id offset buf).1 = .ok n) ↔
      ∃ i' chain', (s.growFor id i (offset + buf.length)).1 = .ok (i', chain') ∧
        ∃ o, Fat32.findSized s i'.firstCluster s.maxDepth s.geo.rootCluster = .ok o := by
  rw [write_eq hg hi hk hlt]
  cases hgrow : s.growFor id i (offset + buf.length) with
  | mk r s₁ =>
    obtain ⟨f', news, hx, hr⟩ := extendChain_spec hg.chains (heads_of_inode hi) hgrow
    cases r with
    | error e =>
      constructor
      · rintro ⟨n, h⟩
        cases h
      · rintro ⟨i', chain', h, -⟩
        cases h
    | ok p =>
      obtain ⟨i', chain'⟩ := p
      obtain ⟨rfl, rfl, hnews⟩ := hr i' chain' rfl
      have hcover : offset + buf.length ≤
          (s₁.clusterChain f').length * s₁.geo.bytesPerCluster := by
        rw [hx.geo]
        refine (le_clustersFor_mul s hlt).trans (Nat.mul_le_mul_right _ ?_)
        rw [hx.chain, List.length_append, hnews]
        omega
      have hdirs := sameDirs_wroteData hg hi hk hx hcover
      have hdepth : (wroteData s₁ id (s₁.clusterChain f') i.size offset buf).maxDepth =
          s.maxDepth := by rw [maxDepth, maxDepth, hdirs.geo]
      simp only [hdirs.geo, hdepth, hdirs.findSized _ _ IsDir.root]
      constructor
      · rintro ⟨n, h⟩
        refine ⟨_, _, rfl, ?_⟩
        cases hfind : Fat32.findSized s f' s.maxDepth s.geo.rootCluster with
        | error e =>
          rw [hfind] at h
          cases h
        | ok o => exact ⟨o, rfl⟩
      · rintro ⟨i', chain', hp, o, ho⟩
        cases hp
        rw [ho]
        cases o with
        | none => exact ⟨_, rfl⟩
        | some a => exact ⟨_, rfl⟩

end AeroOS.Fat32
