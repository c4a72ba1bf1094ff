import AeroOS.Fat32.Create
import AeroOS.Fat32.Format
import AeroOS.Fat32.Write

/-!
# FAT32: running out of clusters

`create`, `mkdir` and `write` take clusters one at a time, and none gives back
what it has taken when a later one is missing.

* `writeDirEntry_outOfClusters`: entering a name takes its only cluster last.
* `unchanged_iff`: a call that runs out of clusters leaves the volume as it was
  if and only if it is a `create`, or there was no free cluster to begin with.
-/

namespace AeroOS.Fat32

open Bytes

/-- The error of a missing cluster. -/
def outOfClusters : String := "out of clusters"

/-- The calls that take clusters. -/
inductive TakingCall where
  | create (dirId : Nat) (name : List UInt8)
  | mkdir (dirId : Nat) (name : List UInt8)
  | write (id offset : Nat) (buf : List UInt8)

/-- The call is a `create`. -/
def TakingCall.isCreate : TakingCall → Prop
  | .create _ _ => True
  | _ => False

/-- Whether the call failed and how, and the volume after it. -/
def TakingCall.exec (upper : List UInt8 → List UInt8) (s : Fat32) :
    TakingCall → Except String Unit × Fat32
  | .create dirId name =>
    ((s.create upper dirId name).1.map fun _ => (), (s.create upper dirId name).2)
  | .mkdir dirId name => ((s.mkdir upper dirId name).1.map fun _ => (), (s.mkdir upper dirId name).2)
  | .write id offset buf => ((s.write id offset buf).1.map fun _ => (), (s.write id offset buf).2)

/-- The table, the inodes and every directory are the same. -/
structure Unchanged (s s' : Fat32) : Prop where
  fatCache : s'.fatCache = s.fatCache
  inodes : s'.inodes = s.inodes
  dirs : ∀ d, s'.readDirRaw d = s.readDirRaw d

/-- No cluster is free. -/
def Full (s : Fat32) : Prop := ∀ c, s.geo.validCluster c = true → s.fatCache c ≠ 0

theorem Unchanged.refl (s : Fat32) : Unchanged s s := ⟨rfl, rfl, fun _ => rfl⟩

theorem allocCluster_eq_none {s : Fat32} : s.allocCluster = none ↔ Full s := by
  rw [allocCluster, Option.map_eq_none_iff, List.find?_eq_none]
  refine forall_congr' fun c => ?_
  rw [List.mem_range'_1, Geometry.validCluster_iff, beq_iff_eq]
  have hlen : 2 + (s.geo.fatLen - 2) = s.geo.fatLen := by
    have := s.geo.fatSz32_pos
    rw [s.geo.fatLen_eq]
    omega
  rw [hlen]
  rfl

/-- A cluster was free, and is not any more. -/
def Taken (s s' : Fat32) : Prop :=
  ∃ c, s.geo.validCluster c = true ∧ s.fatCache c = 0 ∧ s'.fatCache c ≠ 0

theorem Taken.not_unchanged {s s' : Fat32} (h : Taken s s') : ¬ Unchanged s s' := by
  rintro hu
  obtain ⟨c, -, hfree, hused⟩ := h
  exact hused (hu.fatCache ▸ hfree)

theorem fatEoc_ne_zero : fatEoc ≠ 0 := by decide

/-! ## Entering a name -/

theorem writeFreeSlot_error {s s' : Fat32} {entry : RawDirEntry} {cs : List Nat} {e : String}
    (h : s.writeFreeSlot entry cs = some (.error e, s')) : e ≠ outOfClusters := by
  induction cs with
  | nil => cases h
  | cons c cs ih =>
    rw [writeFreeSlot] at h
    cases hread : s.readCluster c with
    | none =>
      rw [hread] at h
      cases h
      decide
    | some buf =>
      rw [hread] at h
      simp only at h
      cases hfind : (List.range s.slotCount).find? (slotFree buf) with
      | none =>
        rw [hfind] at h
        exact ih h
      | some i =>
        rw [hfind] at h
        simp only at h
        rcases hwrite : s.writeCluster c (patch buf (i * 32) entry.pack) with ⟨ok, s₁⟩
        rw [hwrite] at h
        cases ok with
        | false =>
          cases h
          decide
        | true => cases h

/-- When the directory cannot be extended, nothing has happened. -/
theorem writeDirEntry_outOfClusters {s s' : Fat32} {d : Nat} {entry : RawDirEntry} {new : Bool}
    {e : String} (h : s.writeDirEntry d entry new = (.error e, s')) (he : e = outOfClusters) :
    s' = s := by
  unfold writeDirEntry at h
  simp only at h
  cases hfree : s.writeFreeSlot entry (s.clusterChain d) with
  | some r =>
    obtain ⟨r, s₁⟩ := r
    rw [hfree] at h
    cases h
    exact absurd he (writeFreeSlot_error hfree)
  | none =>
    rw [hfree] at h
    simp only at h
    split at h
    · cases h
      exact absurd he (by decide)
    cases halloc : s.allocCluster with
    | none =>
      rw [halloc] at h
      cases h
      rfl
    | some p =>
      rw [halloc] at h
      simp only at h
      split at h
      · cases h
        exact absurd he (by decide)
      split at h
      · cases h
        exact absurd he (by decide)
      split at h
      · cases h
        exact absurd he (by decide)
      · cases h

/-! ## The three calls -/

section calls

variable {upper : List UInt8 → List UInt8} {s s' : Fat32} {e : String}

theorem create_outOfClusters {dirId : Nat} {name : List UInt8}
    (h : s.create upper dirId name = (.error e, s')) (he : e = outOfClusters) : s' = s := by
  unfold create at h
  split at h
  · cases h
    exact absurd he (by decide)
  split at h
  · cases h
    exact absurd he (by decide)
  split at h
  · cases h
    exact absurd he (by decide)
  simp only at h
  split at h
  · rename_i hdw
    cases h
    exact writeDirEntry_outOfClusters hdw he
  split at h
  · cases h
    exact absurd he (by decide)
  · cases h

theorem writeCluster_fatCache {c : Nat} {buf : List UInt8} {ok : Bool}
    (h : s.writeCluster c buf = (ok, s')) : s'.fatCache = s.fatCache := by
  unfold writeCluster at h
  split at h <;> cases h <;> rfl

/-- `mkdir` has taken the cluster of the directory when there is none for its
entry. -/
theorem mkdir_outOfClusters {dirId : Nat} {name : List UInt8}
    (h : s.mkdir upper dirId name = (.error e, s')) (he : e = outOfClusters) :
    s' = s ∧ Full s ∨ Taken s s' := by
  unfold mkdir at h
  split at h
  · cases h
    exact absurd he (by decide)
  split at h
  · cases h
    exact absurd he (by decide)
  split at h
  · cases h
    exact absurd he (by decide)
  cases halloc : s.allocCluster with
  | none =>
    rw [halloc] at h
    cases h
    exact Or.inl ⟨rfl, allocCluster_eq_none.mp halloc⟩
  | some p =>
    obtain ⟨c, s₁⟩ := p
    obtain ⟨hv, hfree, rfl⟩ := allocCluster_spec halloc
    rw [halloc] at h
    simp only at h
    split at h
    · cases h
      exact absurd he (by decide)
    rename_i s₂ hwrite
    split at h
    · rename_i hdw
      cases h
      refine Or.inr ⟨c, hv, hfree, ?_⟩
      rw [writeDirEntry_outOfClusters hdw he, writeCluster_fatCache hwrite, setFat_self]
      exact fatEoc_ne_zero
    split at h
    · cases h
      exact absurd he (by decide)
    · cases h

theorem setFat_ne_zero {c x v : Nat} (hc : s.fatCache c ≠ 0) (hv : v ≠ 0) :
    (s.setFat x v).fatCache c ≠ 0 := by
  by_cases hcx : c = x
  · rw [hcx, setFat_self]
    exact hv
  · rwa [setFat_of_ne _ _ _ hcx]

/-- One more cluster for a file. -/
theorem extendChain_succ (id n : Nat) (inode : FatInode) (chain : List Nat) {new : Nat}
    {s₁ : Fat32} (h : s.allocCluster = some (new, s₁)) :
    ∃ t inode', extendChain id (n + 1) s inode chain = extendChain id n t inode' (chain ++ [new]) ∧
      t.fatCache new ≠ 0 ∧ ∀ c, s.fatCache c ≠ 0 → t.fatCache c ≠ 0 := by
  obtain ⟨hv, -, rfl⟩ := allocCluster_spec h
  have hnew : new ≠ 0 := by
    have := (Geometry.validCluster_iff.mp hv).1
    omega
  have htaken : (s.setFat new fatEoc).fatCache new ≠ 0 := by
    rw [setFat_self]
    exact fatEoc_ne_zero
  rw [extendChain, h]
  cases chain.getLast? with
  | none => exact ⟨_, _, rfl, htaken, fun c hc => setFat_ne_zero hc fatEoc_ne_zero⟩
  | some last =>
    exact ⟨_, _, rfl, setFat_ne_zero htaken hnew, fun c hc =>
      setFat_ne_zero (setFat_ne_zero hc fatEoc_ne_zero) hnew⟩

/-- Clusters that are in use stay in use while the chain grows. -/
theorem extendChain_used (id n : Nat) (inode : FatInode) (chain : List Nat) {c : Nat}
    (hc : s.fatCache c ≠ 0) : (extendChain id n s inode chain).2.fatCache c ≠ 0 := by
  induction n generalizing s inode chain with
  | zero => exact hc
  | succ n ih =>
    cases halloc : s.allocCluster with
    | none =>
      rw [extendChain, halloc]
      exact hc
    | some p =>
      obtain ⟨t, inode', heq, -, hkeep⟩ := extendChain_succ id n inode chain halloc
      rw [heq]
      exact ih _ _ (hkeep c hc)

/-- Growing a file fails at once, or has taken a cluster by then. -/
theorem extendChain_error {id n : Nat} {inode : FatInode} {chain : List Nat}
    (h : extendChain id n s inode chain = (.error e, s')) : s' = s ∧ Full s ∨ Taken s s' := by
  cases n with
  | zero => cases h
  | succ n =>
    cases halloc : s.allocCluster with
    | none =>
      rw [extendChain, halloc] at h
      cases h
      exact Or.inl ⟨rfl, allocCluster_eq_none.mp halloc⟩
    | some p =>
      obtain ⟨t, inode', heq, htaken, -⟩ := extendChain_succ id n inode chain halloc
      obtain ⟨hv, hfree, -⟩ := allocCluster_spec halloc
      rw [heq] at h
      have hused := extendChain_used id n inode' (chain ++ [p.1]) htaken
      rw [h] at hused
      exact Or.inr ⟨p.1, hv, hfree, hused⟩

/-- The data of a file never lacks a cluster. -/
theorem writeLoop_error {chain : List Nat} {offset stop pos written : Nat} {buf : List UInt8}
    (h : s.writeLoop chain offset stop pos buf written = (.error e, s')) : e ≠ outOfClusters := by
  induction hn : stop - pos using Nat.strongRecOn generalizing s pos written with
  | ind n ih =>
    rw [writeLoop] at h
    split at h
    swap
    · cases h
    simp only at h
    split at h
    · cases h
    split at h
    · cases h
      decide
    split at h
    · cases h
      decide
    · have hmod := Nat.mod_lt pos s.geo.bytesPerCluster_pos
      exact ih _ (by omega) h rfl

theorem updateSizeClusters_error {target newSize : Nat} {cs subdirs : List Nat}
    (h : s.updateSizeClusters target newSize cs subdirs = (.error e, s')) :
    e ≠ outOfClusters := by
  induction cs generalizing subdirs with
  | nil => cases h
  | cons c cs ih =>
    rw [updateSizeClusters] at h
    split at h
    · cases h
      decide
    split at h
    · split at h
      · cases h
        decide
      · cases h
    · exact ih h

theorem updateSizeRecursive_error {depth d target newSize : Nat}
    (h : updateSizeRecursive depth s d target newSize = (.error e, s')) : e ≠ outOfClusters := by
  induction depth generalizing s s' d with
  | zero =>
    cases h
    decide
  | succ depth ih =>
    rw [updateSizeRecursive] at h
    split at h
    · rename_i hscan
      cases h
      exact updateSizeClusters_error hscan
    · cases h
    · rename_i subdirs s₁ hscan
      clear hscan
      induction subdirs generalizing s₁ with
      | nil => cases h
      | cons sub subdirs ihs =>
        rw [firstTrue] at h
        split at h
        · rename_i hsub
          cases h
          exact ih hsub
        · cases h
        · exact ihs _ h

theorem write_outOfClusters {id offset : Nat} {buf : List UInt8}
    (h : s.write id offset buf = (.error e, s')) (he : e = outOfClusters) :
    s' = s ∧ Full s ∨ Taken s s' := by
  unfold write at h
  split at h
  · cases h
    exact absurd he (by decide)
  split at h
  · cases h
    exact absurd he (by decide)
  simp only at h
  split at h
  · rename_i hext
    cases h
    exact extendChain_error hext
  split at h
  · rename_i hloop
    cases h
    exact absurd he (writeLoop_error hloop)
  split at h
  · cases h
    exact absurd he (by decide)
  split at h
  · rename_i hupd
    cases h
    unfold updateDirEntrySize at hupd
    split at hupd
    · cases hupd
      exact absurd he (by decide)
    split at hupd
    · cases hupd
    split at hupd
    · rename_i hrec
      cases hupd
      exact absurd he (updateSizeRecursive_error hrec)
    · cases hupd
  · cases h

end calls

theorem map_eq_error {α : Type} {r : Except String α} {e : String}
    (h : (r.map fun _ => ()) = .error e) : r = .error e := by
  cases r with
  | error e' => exact congrArg _ (Except.error.inj h)
  | ok a => cases h

/-- A call that runs out of clusters leaves the volume as it was if and only if it
is a `create`, or there was no free cluster to begin with. -/
theorem unchanged_iff {upper : List UInt8 → List UInt8} {s : Fat32} {call : TakingCall}
    (h : (call.exec upper s).1 = .error outOfClusters) :
    Unchanged s (call.exec upper s).2 ↔ call.isCreate ∨ Full s := by
  have hfail : ∀ {t : Fat32}, t = s ∧ Full s ∨ Taken s t → (Unchanged s t ↔ False ∨ Full s) := by
    rintro t (⟨rfl, hfull⟩ | htaken)
    · exact iff_of_true (Unchanged.refl t) (Or.inr hfull)
    · refine iff_of_false htaken.not_unchanged ?_
      rintro (hno | hfull)
      · exact hno
      · obtain ⟨c, hv, hfree, -⟩ := htaken
        exact hfull c hv hfree
  cases call with
  | create dirId name =>
    have hsame : (s.create upper dirId name).2 = s :=
      create_outOfClusters (Prod.ext (map_eq_error h) rfl) rfl
    refine iff_of_true ?_ (Or.inl trivial)
    show Unchanged s (s.create upper dirId name).2
    rw [hsame]
    exact Unchanged.refl s
  | mkdir dirId name => exact hfail (mkdir_outOfClusters (Prod.ext (map_eq_error h) rfl) rfl)
  | write id offset buf => exact hfail (write_outOfClusters (Prod.ext (map_eq_error h) rfl) rfl)

/-- A volume with one free cluster, and an empty file under id 2. -/
def oneFreeVolume : Fat32 :=
  ((flatVolume smallGeometry (fun c => if c = 3 then 0 else fatEoc) [entryA 0 0]).internInode 0 0
    false).2

/-- Data for two clusters. -/
def twoClusters : List UInt8 := List.replicate 513 0

theorem twoClusters_length : twoClusters.length = 513 := List.length_replicate

theorem oneFreeVolume_write {buf : List UInt8} (hlen : buf.length = 513) :
    (oneFreeVolume.write 2 0 buf).1 = .error outOfClusters := by
  have hget : oneFreeVolume.inodes.get 2 = some { firstCluster := 0, size := 0, isDir := false } := by
    decide
  have hchain : oneFreeVolume.clusterChain 0 = [] := chainOf_zero
  have hneed : oneFreeVolume.clustersFor ((0 + 513) % 2 ^ 64) = 2 := by decide
  rw [write, hget, hlen]
  simp only [Bool.false_eq_true, if_false, hchain, hneed, List.length_nil, Nat.sub_zero]
  rfl

theorem oneFreeVolume_exec {buf : List UInt8} (hlen : buf.length = 513) :
    (TakingCall.exec id oneFreeVolume (.write 2 0 buf)).1 = .error outOfClusters :=
  congrArg (Except.map fun _ => ()) (oneFreeVolume_write hlen)

theorem oneFreeVolume_taken {buf : List UInt8} (hlen : buf.length = 513) :
    Taken oneFreeVolume (oneFreeVolume.write 2 0 buf).2 :=
  (write_outOfClusters (Prod.ext (oneFreeVolume_write hlen) rfl) rfl).resolve_left fun h =>
    h.2 3 (by decide) rfl

theorem unchanged_iff_one_free :
    Unchanged oneFreeVolume (TakingCall.exec id oneFreeVolume (.write 2 0 twoClusters)).2 ↔
      TakingCall.isCreate (.write 2 0 twoClusters) ∨ Full oneFreeVolume :=
  unchanged_iff (oneFreeVolume_exec twoClusters_length)

/-- A write of two clusters takes the only free one, and fails. -/
theorem not_unchanged_two_clusters :
    (oneFreeVolume.write 2 0 twoClusters).1 = .error outOfClusters ∧
      ¬ Unchanged oneFreeVolume (oneFreeVolume.write 2 0 twoClusters).2 :=
  ⟨oneFreeVolume_write twoClusters_length, (oneFreeVolume_taken twoClusters_length).not_unchanged⟩

end AeroOS.Fat32
