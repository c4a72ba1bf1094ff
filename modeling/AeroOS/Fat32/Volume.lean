import AeroOS.Fat32.Ops

/-!
# FAT32: the volume on an exact disk

On a disk that holds the whole volume no transfer fails, so cluster and table
transfers are reads and writes of ranges of the store.

* `Sound` is that assumption.  `readCluster_eq`, `writeCluster_eq` and
  `flushFat_eq` are the transfers under it.
* `InCluster` places an address in a cluster.  Clusters do not meet
  (`InCluster.unique`), and the tables lie below all of them.
* `Synced` says that FAT1 on the disk is the cached table; a flush makes it so,
  and `mount_of_synced` is a mount of such a volume.
-/

namespace AeroOS.Fat32

open Bytes Ata

/-! ## Where clusters lie -/

namespace Geometry

variable (g : Geometry)

theorem bytesPerCluster_eq : g.bytesPerCluster = g.sectorsPerCluster * 512 := by
  rw [bytesPerCluster, g.bytesPerSector_eq]

theorem fatBytes_eq : g.fatBytes = g.fatSz32 * 512 := by
  rw [fatBytes, g.bytesPerSector_eq]

theorem fatLen_eq : g.fatLen = g.fatSz32 * 128 := by
  rw [fatLen, g.bytesPerSector_eq]
  omega

theorem fatLen_lt : g.fatLen < chainGuard := by
  have h := g.fatSz32_fits
  rw [g.bytesPerSector_eq] at h
  rw [fatLen_eq]
  simp only [heapSize, chainGuard] at *
  omega

/-- The address a cluster starts at. -/
def clusterAddr (c : Nat) : Nat := 512 * g.clusterToLba c

/-- The address the data region starts at. -/
def dataAddr : Nat := 512 * g.dataStartLba

/-- The address lies in the cluster. -/
def InCluster (c x : Nat) : Prop :=
  g.clusterAddr c ≤ x ∧ x < g.clusterAddr c + g.bytesPerCluster

variable {g}

theorem validCluster_iff {c : Nat} : g.validCluster c = true ↔ 2 ≤ c ∧ c < g.fatLen := by
  simp [validCluster]

theorem clusterAddr_eq (c : Nat) :
    g.clusterAddr c = g.dataAddr + (c - 2) * g.bytesPerCluster := by
  rw [clusterAddr, clusterToLba, dataAddr, bytesPerCluster_eq, Nat.mul_add]
  congr 1
  rw [Nat.mul_comm 512, Nat.mul_assoc]

theorem dataAddr_le_clusterAddr (c : Nat) : g.dataAddr ≤ g.clusterAddr c := by
  rw [clusterAddr_eq]
  omega

/-- Of two clusters, the one with the smaller number ends before the other. -/
theorem clusterAddr_lt {c d : Nat} (hc : 2 ≤ c) (h : c < d) :
    g.clusterAddr c + g.bytesPerCluster ≤ g.clusterAddr d := by
  have hmul := Nat.mul_le_mul_right g.bytesPerCluster (show c - 2 + 1 ≤ d - 2 by omega)
  rw [Nat.add_mul, Nat.one_mul] at hmul
  rw [clusterAddr_eq, clusterAddr_eq]
  omega

/-- An address lies in one cluster at most. -/
theorem InCluster.unique {c d x : Nat} (hc : 2 ≤ c) (hd : 2 ≤ d) (h : g.InCluster c x)
    (h' : g.InCluster d x) : c = d := by
  rcases Nat.lt_trichotomy c d with hlt | heq | hlt
  · have := clusterAddr_lt (g := g) hc hlt
    exact absurd (h.2.trans_le (this.trans h'.1)) (Nat.lt_irrefl _)
  · exact heq
  · have := clusterAddr_lt (g := g) hd hlt
    exact absurd (h'.2.trans_le (this.trans h.1)) (Nat.lt_irrefl _)

theorem InCluster.dataAddr_le {c x : Nat} (h : g.InCluster c x) : g.dataAddr ≤ x :=
  (dataAddr_le_clusterAddr c).trans h.1

theorem inCluster_add {c i : Nat} (h : i < g.bytesPerCluster) :
    g.InCluster c (g.clusterAddr c + i) := by
  unfold InCluster
  omega

end Geometry

/-! ## A volume that fits on the disk -/

/-- The volume has at least one table, and it lies on the part of the disk
that the driver can address. -/
structure Sound (s : Fat32) : Prop where
  present : s.disk.present = true
  numFats_pos : 1 ≤ s.geo.numFats
  fits : s.geo.dataStartLba + (s.geo.fatLen - 2) * s.geo.sectorsPerCluster ≤ 2 ^ 28

/-- The state with other bytes on the disk. -/
def setBytes (s : Fat32) (m : Store) : Fat32 := { s with disk := { s.disk with bytes := m } }

section setBytes

variable (s : Fat32) (m : Store)

@[simp] theorem setBytes_geo : (s.setBytes m).geo = s.geo := rfl
@[simp] theorem setBytes_fatCache : (s.setBytes m).fatCache = s.fatCache := rfl
@[simp] theorem setBytes_inodes : (s.setBytes m).inodes = s.inodes := rfl
@[simp] theorem setBytes_bytes : (s.setBytes m).disk.bytes = m := rfl
@[simp] theorem setBytes_present : (s.setBytes m).disk.present = s.disk.present := rfl
@[simp] theorem setBytes_setBytes (m' : Store) : (s.setBytes m).setBytes m' = s.setBytes m' := rfl
@[simp] theorem setBytes_self : s.setBytes s.disk.bytes = s := rfl

end setBytes

/-- Soundness is about the geometry and the presence of the disk alone. -/
theorem Sound.of_eq {s s' : Fat32} (hs : Sound s) (hg : s'.geo = s.geo)
    (hp : s'.disk.present = s.disk.present) : Sound s' :=
  ⟨hp.trans hs.present, hg ▸ hs.numFats_pos, hg ▸ hs.fits⟩

theorem Sound.setBytes {s : Fat32} (hs : Sound s) (m : Store) : Sound (s.setBytes m) :=
  hs.of_eq rfl rfl

theorem Sound.lba_le {s : Fat32} (hs : Sound s) {c : Nat} (hc : s.geo.validCluster c = true) :
    s.geo.clusterToLba c + s.geo.sectorsPerCluster ≤ 2 ^ 28 := by
  obtain ⟨h2, hlt⟩ := Geometry.validCluster_iff.mp hc
  have hmul := Nat.mul_le_mul_right s.geo.sectorsPerCluster
    (show c - 2 + 1 ≤ s.geo.fatLen - 2 by omega)
  rw [Nat.add_mul, Nat.one_mul] at hmul
  have := hs.fits
  rw [Geometry.clusterToLba]
  omega

/-- A cluster is read as its range of the store. -/
theorem readCluster_eq {s : Fat32} (hs : Sound s) {c : Nat}
    (hc : s.geo.validCluster c = true) :
    s.readCluster c =
      some (readBytes s.disk.bytes (s.geo.clusterAddr c) s.geo.bytesPerCluster) := by
  rw [readCluster, s.geo.bytesPerCluster_eq]
  exact readSectors_eq hs.present s.geo.sectorsPerCluster_pos (hs.lba_le hc)

/-- A cluster is written as its range of the store. -/
theorem writeCluster_eq {s : Fat32} (hs : Sound s) {c : Nat}
    (hc : s.geo.validCluster c = true) {buf : List UInt8}
    (hlen : buf.length = s.geo.bytesPerCluster) :
    s.writeCluster c buf =
      (true, s.setBytes (writeBytes s.disk.bytes (s.geo.clusterAddr c) buf)) := by
  rw [writeCluster, if_neg (by omega), ← hlen, List.take_length]
  rw [writeSectors_eq hs.present (hlen.trans s.geo.bytesPerCluster_eq)
    s.geo.sectorsPerCluster_pos (hs.lba_le hc)]
  rfl

/-- Writing back a cluster with a part of it changed writes that part. -/
theorem writeCluster_patch {s : Fat32} (hs : Sound s) {c : Nat}
    (hc : s.geo.validCluster c = true) {o : Nat} {p : List UInt8}
    (ho : o + p.length ≤ s.geo.bytesPerCluster) :
    s.writeCluster c
        (patch (readBytes s.disk.bytes (s.geo.clusterAddr c) s.geo.bytesPerCluster) o p) =
      (true, s.setBytes (writeBytes s.disk.bytes (s.geo.clusterAddr c + o) p)) := by
  rw [writeCluster_eq hs hc (by rw [patch_length (by simpa using ho), readBytes_length]),
    writeBytes_patch_readBytes _ _ ho]

/-! ## Flushing the table -/

theorem fatTable_eq (s : Fat32) :
    s.fatTable = (List.range s.geo.fatLen).flatMap fun i => leBytes 4 (s.fatCache i) := by
  have hlen : ((List.range s.geo.fatLen).flatMap fun i => leBytes 4 (s.fatCache i)).length =
      s.geo.fatBytes := by
    rw [flatMap_length (fun i => leBytes_length 4 (s.fatCache i)), List.length_range, s.geo.fatLen_eq, s.geo.fatBytes_eq]
    omega
  simp only [fatTable, hlen, Nat.sub_self, List.replicate_zero, List.append_nil]
  rw [← hlen, List.take_length]

theorem fatTable_length (s : Fat32) : s.fatTable.length = s.geo.fatBytes := by
  rw [fatTable_eq, flatMap_length (fun i => leBytes_length 4 (s.fatCache i)), List.length_range, s.geo.fatLen_eq,
    s.geo.fatBytes_eq]
  omega

/-- The store with `n` copies of a table written from copy `i` up. -/
def writeCopies (g : Geometry) (table : List UInt8) : Nat → Nat → Store → Store
  | 0, _, m => m
  | n + 1, i, m =>
    writeCopies g table n (i + 1) (writeBytes m (512 * (g.fatStart + i * g.fatSz32)) table)

/-- The store behind a flush: every copy of the table rewritten. -/
def flushedBytes (s : Fat32) : Store :=
  writeCopies s.geo s.fatTable s.geo.numFats 0 s.disk.bytes

theorem flushCopies_eq {g : Geometry} {table : List UInt8} (hlen : table.length = g.fatBytes)
    (hfit : g.dataStartLba ≤ 2 ^ 28) {n i : Nat} (hn : n + i = g.numFats) {d : Disk}
    (hp : d.present = true) :
    flushCopies g table n i d = (true, { d with bytes := writeCopies g table n i d.bytes }) := by
  induction n generalizing i d with
  | zero => rfl
  | succ n ih =>
    have hmul := Nat.mul_le_mul_right g.fatSz32 (show i + 1 ≤ g.numFats by omega)
    rw [Nat.add_mul, Nat.one_mul] at hmul
    rw [flushCopies, writeSectors_eq hp (hlen.trans g.fatBytes_eq) g.fatSz32_pos (by
      simp only [Geometry.fatStart, Geometry.dataStartLba] at *
      omega)]
    have hn' : n + (i + 1) = g.numFats := by omega
    refine (ih hn' ?_).trans rfl
    exact hp

/-- A flush rewrites every copy of the table and nothing else. -/
theorem flushFat_eq {s : Fat32} (hs : Sound s) : s.flushFat = (true, s.setBytes s.flushedBytes) := by
  have hfit : s.geo.dataStartLba ≤ 2 ^ 28 := by
    have := hs.fits
    omega
  have hone := Nat.mul_le_mul_right s.geo.fatSz32 hs.numFats_pos
  rw [flushFat, writeSectors_eq hs.present (s.fatTable_length.trans s.geo.fatBytes_eq)
    s.geo.fatSz32_pos (by
      simp only [Geometry.fatStart, Geometry.dataStartLba] at *
      omega)]
  have hn : s.geo.numFats - 1 + 1 = s.geo.numFats := by
    have := hs.numFats_pos
    omega
  simp only
  rw [flushCopies_eq s.fatTable_length hfit hn (by exact hs.present)]
  simp only [flushedBytes, Fat32.setBytes]
  conv_rhs => rw [← hn]
  simp only [writeCopies, Nat.zero_mul, Nat.add_zero, Nat.zero_add]

/-- The copies of the table lie below the data region. -/
theorem writeCopies_out {g : Geometry} {table : List UInt8} (hlen : table.length = g.fatBytes)
    {n i : Nat} (hn : n + i = g.numFats) {m : Store} {x : Nat} (hx : g.dataAddr ≤ x) :
    writeCopies g table n i m x = m x := by
  induction n generalizing i m with
  | zero => rfl
  | succ n ih =>
    have hmul := Nat.mul_le_mul_right g.fatSz32 (show i + 1 ≤ g.numFats by omega)
    rw [Nat.add_mul, Nat.one_mul] at hmul
    rw [writeCopies, ih (by omega)]
    refine writeBytes_out _ (Or.inr ?_)
    rw [hlen, g.fatBytes_eq]
    simp only [Geometry.dataAddr, Geometry.fatStart, Geometry.dataStartLba] at *
    omega

theorem flushedBytes_out (s : Fat32) {x : Nat} (hx : s.geo.dataAddr ≤ x) :
    s.flushedBytes x = s.disk.bytes x :=
  writeCopies_out s.fatTable_length rfl hx

/-- A copy that was written stays: the later copies lie behind it. -/
theorem writeCopies_below {g : Geometry} {table : List UInt8} {n i : Nat} {m : Store} {x : Nat}
    (hx : x < 512 * (g.fatStart + i * g.fatSz32)) : writeCopies g table n i m x = m x := by
  induction n generalizing i m with
  | zero => rfl
  | succ n ih =>
    rw [writeCopies, ih (by rw [Nat.add_mul, Nat.one_mul]; omega)]
    exact writeBytes_out _ (Or.inl hx)

/-- Each copy that was written holds the table. -/
theorem readBytes_writeCopies {g : Geometry} {table : List UInt8}
    (hlen : table.length = g.fatBytes) {n i j : Nat} (hi : i ≤ j) (hj : j < i + n) (m : Store) :
    readBytes (writeCopies g table n i m) (512 * (g.fatStart + j * g.fatSz32)) g.fatBytes =
      table := by
  induction n generalizing i m with
  | zero => omega
  | succ n ih =>
    rw [writeCopies]
    by_cases hij : i = j
    · subst hij
      rw [← hlen]
      refine (readBytes_congr fun x _ hx => writeCopies_below ?_).trans
        (readBytes_writeBytes _ _ _)
      rw [hlen, g.fatBytes_eq] at hx
      rw [Nat.add_mul, Nat.one_mul]
      omega
    · exact ih (by omega) (by omega) _

/-- FAT1 holds the table after a flush. -/
theorem readBytes_flushedBytes {s : Fat32} (hs : Sound s) :
    readBytes s.flushedBytes (512 * s.geo.fatStart) s.geo.fatBytes = s.fatTable := by
  have h := readBytes_writeCopies s.fatTable_length (Nat.le_refl 0)
    (show 0 < 0 + s.geo.numFats by rw [Nat.zero_add]; exact hs.numFats_pos) s.disk.bytes
  rwa [Nat.zero_mul, Nat.add_zero] at h

/-- The table read back has the cached values, as 32-bit words. -/
theorem fatOfBytes_fatTable (s : Fat32) {i : Nat} (hi : i < s.geo.fatLen) :
    fatOfBytes s.fatTable i = s.fatCache i % 2 ^ 32 := by
  have hword : readBytes (s.fatTable.getD · 0) (i * 4) 4 = leBytes 4 (s.fatCache i) := by
    refine readBytes_eq_of_getD (leBytes_length 4 _) fun k hk => ?_
    rw [fatTable_eq, flatMap_getD (fun i => leBytes_length 4 (s.fatCache i)) _
      (by simpa using hi) hk, List.getElem_range]
  rw [fatOfBytes, hword, leNat_leBytes]
  rfl

/-- FAT1 on the disk is the cached table. -/
def Synced (s : Fat32) : Prop :=
  readBytes s.disk.bytes (512 * s.geo.fatStart) s.geo.fatBytes = s.fatTable

/-- Mounting a volume whose FAT1 is the cached table. -/
theorem mount_of_synced {s : Fat32} (hs : Sound s) (h : Synced s) :
    mount s.geo s.disk =
      some { s with
        fatCache := fatOfBytes s.fatTable
        inodes := InodeTable.empty.insert
          { firstCluster := s.geo.rootCluster, size := 0, isDir := true } } := by
  have hone := Nat.mul_le_mul_right s.geo.fatSz32 hs.numFats_pos
  have hfit := hs.fits
  rw [mount, s.geo.fatBytes_eq, readSectors_eq hs.present s.geo.fatSz32_pos (by
    simp only [Geometry.fatStart, Geometry.dataStartLba] at *
    omega)]
  rw [← s.geo.fatBytes_eq, h]
  rfl

theorem synced_setBytes_flushedBytes {s : Fat32} (hs : Sound s) :
    Synced (s.setBytes s.flushedBytes) :=
  readBytes_flushedBytes hs

/-- A write into the data region leaves FAT1 alone. -/
theorem Synced.setBytes {s : Fat32} (h : Synced s) (hs : Sound s) {m : Store}
    (hm : ∀ x, x < s.geo.dataAddr → m x = s.disk.bytes x) : Synced (s.setBytes m) := by
  have hone := Nat.mul_le_mul_right s.geo.fatSz32 hs.numFats_pos
  refine (readBytes_congr fun x _ hx => hm x ?_).trans h
  rw [setBytes_geo, s.geo.fatBytes_eq] at hx
  simp only [setBytes_geo, Geometry.dataAddr, Geometry.fatStart, Geometry.dataStartLba] at *
  omega

end AeroOS.Fat32
