import AeroOS.Fat32.WriteLaw

/-!
# FAT32: a read is a slice

* `contents` puts the clusters of a file together, and cuts them at its size.
* `read_slice`: what `read` leaves in the buffer, for every offset and length.
* `read_slices`: consecutive reads together give what one read gives.
-/

namespace AeroOS.Fat32

open Bytes

variable {s : Fat32} {g : Geometry} {m : Store} {id offset : Nat} {i : FatInode}

/-- The bytes of a file: the clusters of its chain, cut at its size. -/
def contents (s : Fat32) (i : FatInode) : List UInt8 :=
  ((s.clusterChain i.firstCluster).flatMap fun c =>
    readBytes s.disk.bytes (s.geo.clusterAddr c) s.geo.bytesPerCluster).take i.size

/-- The clusters of a chain make up its view. -/
theorem readBytes_fileView (chain : List Nat) :
    readBytes (fileView g chain m) 0 (chain.length * g.bytesPerCluster) =
      chain.flatMap fun c => readBytes m (g.clusterAddr c) g.bytesPerCluster := by
  induction chain using List.reverseRecOn with
  | nil => rw [List.length_nil, Nat.zero_mul, readBytes_zero, List.flatMap_nil]
  | append_singleton chain c ih =>
    have hpos := g.bytesPerCluster_pos
    have hlast : readBytes (fileView g (chain ++ [c]) m) (chain.length * g.bytesPerCluster)
        g.bytesPerCluster = readBytes m (g.clusterAddr c) g.bytesPerCluster := by
      rw [← readBytes_fileAddr _ _ _ (by rw [Nat.mul_mod_left, Nat.zero_add]), fileAddr,
        Nat.mul_mod_left, Nat.mul_div_left _ hpos, List.getD_append_right _ _ _ _ le_rfl,
        Nat.sub_self, Nat.add_zero]
      rfl
    rw [List.length_append, List.length_singleton, Nat.succ_mul, readBytes_add, Nat.zero_add,
      hlast, readBytes_congr fun p _ hp => fileView_append m (by omega), ih, List.flatMap_append,
      List.flatMap_singleton]

theorem contents_eq
    (hsize : i.size ≤ (s.clusterChain i.firstCluster).length * s.geo.bytesPerCluster) :
    s.contents i =
      readBytes (fileView s.geo (s.clusterChain i.firstCluster) s.disk.bytes) 0 i.size := by
  rw [contents, ← readBytes_fileView]
  exact readBytes_drop_take _ 0 (i := 0) (by omega)

@[simp] theorem contents_length
    (hsize : i.size ≤ (s.clusterChain i.firstCluster).length * s.geo.bytesPerCluster) :
    (s.contents i).length = i.size := by
  rw [contents_eq hsize, readBytes_length]

/-- A range of the view is a slice of the contents. -/
theorem drop_take_contents
    (hsize : i.size ≤ (s.clusterChain i.firstCluster).length * s.geo.bytesPerCluster)
    (hoff : offset ≤ i.size) (n : Nat) :
    ((s.contents i).drop offset).take n =
      readBytes (fileView s.geo (s.clusterChain i.firstCluster) s.disk.bytes) offset
        (min n (i.size - offset)) := by
  have hmin : ((s.contents i).drop offset).take n =
      ((s.contents i).drop offset).take (min n (i.size - offset)) := by
    rw [List.take_eq_take_min, List.length_drop, contents_length hsize]
  rw [hmin, contents_eq hsize, readBytes_drop_take _ _ (by omega), Nat.zero_add]

/-! ## One read -/

/-- `read` fills the buffer with the bytes of the file from the offset on, as far
as the buffer and the file go, and leaves the rest of the buffer alone. -/
theorem read_slice (hs : Sound s) (hi : s.inodes.get id = some i) (hk : i.isDir = false)
    (hsize : i.size ≤ (s.clusterChain i.firstCluster).length * s.geo.bytesPerCluster)
    {buf : List UInt8} (hend : offset < i.size → offset + buf.length < 2 ^ 64) :
    s.read id offset buf = .ok (min buf.length (i.size - offset),
      ((s.contents i).drop offset).take buf.length ++
        buf.drop (min buf.length (i.size - offset))) := by
  rw [read, hi]
  simp only [hk, Bool.false_eq_true, false_or]
  by_cases hempty : buf = []
  · subst hempty
    simp
  rw [if_neg hempty]
  by_cases hoff : i.size ≤ offset
  · rw [if_pos hoff, Nat.sub_eq_zero_of_le hoff, Nat.min_zero, List.drop_zero,
      List.drop_eq_nil_of_le (by rwa [contents_length hsize]), List.take_nil, List.nil_append]
  rw [if_neg hoff]
  have hstop : min i.size ((offset + buf.length) % 2 ^ 64) - offset =
      min buf.length (i.size - offset) := by
    rw [Nat.mod_eq_of_lt (hend (by omega))]
    omega
  rw [readLoop_eq hs (s.valid_clusterChain _) ((Nat.min_le_left ..).trans hsize) le_rfl
    (by rw [hstop]; exact Nat.min_le_left ..), hstop, Nat.sub_self, Nat.zero_add,
    drop_take_contents hsize (by omega)]
  simp [patch]

/-! ## Reads in a row -/

/-- Consecutive reads into the buffers. -/
def readPieces (s : Fat32) (id : Nat) :
    (offset : Nat) → List (List UInt8) → Except String (List (Nat × List UInt8))
  | _, [] => .ok []
  | offset, buf :: bufs =>
    match s.read id offset buf with
    | .error e => .error e
    | .ok r =>
      match readPieces s id (offset + buf.length) bufs with
      | .error e => .error e
      | .ok rs => .ok (r :: rs)

/-- The bytes that a read has filled. -/
def filled (r : Nat × List UInt8) : List UInt8 := r.2.take r.1

theorem filled_read_slice
    (hsize : i.size ≤ (s.clusterChain i.firstCluster).length * s.geo.bytesPerCluster)
    (buf : List UInt8) :
    filled (min buf.length (i.size - offset), ((s.contents i).drop offset).take buf.length ++
      buf.drop (min buf.length (i.size - offset))) =
        ((s.contents i).drop offset).take buf.length := by
  have hlen : (((s.contents i).drop offset).take buf.length).length =
      min buf.length (i.size - offset) := by
    rw [List.length_take, List.length_drop, contents_length hsize]
  rw [filled]
  exact List.take_left' hlen

theorem readPieces_eq (hs : Sound s) (hi : s.inodes.get id = some i) (hk : i.isDir = false)
    (hsize : i.size ≤ (s.clusterChain i.firstCluster).length * s.geo.bytesPerCluster)
    (hlt : i.size < 2 ^ 32) {bufs : List (List UInt8)}
    (hbufs : (bufs.map List.length).sum < 2 ^ 63) :
    ∃ rs, s.readPieces id offset bufs = .ok rs ∧
      rs.flatMap filled = ((s.contents i).drop offset).take (bufs.map List.length).sum := by
  induction bufs generalizing offset with
  | nil => exact ⟨[], rfl, by simp⟩
  | cons buf bufs ih =>
    rw [List.map_cons, List.sum_cons] at hbufs ⊢
    obtain ⟨rs, hrs, hbytes⟩ : ∃ rs, s.readPieces id (offset + buf.length) bufs = .ok rs ∧
        rs.flatMap filled =
          ((s.contents i).drop (offset + buf.length)).take (bufs.map List.length).sum :=
      ih (by omega)
    refine ⟨_, by rw [readPieces, read_slice hs hi hk hsize fun _ => by omega, hrs], ?_⟩
    rw [List.flatMap_cons, filled_read_slice hsize, hbytes, List.take_add, List.drop_drop]

/-- A read is a slice of the file, and reads in a row give what one read gives. -/
theorem read_slices (hs : Sound s) (hi : s.inodes.get id = some i) (hk : i.isDir = false)
    (hsize : i.size ≤ (s.clusterChain i.firstCluster).length * s.geo.bytesPerCluster)
    (hlt : i.size < 2 ^ 32) :
    (∀ offset buf, buf.length < 2 ^ 63 →
      s.read id offset buf = .ok (min buf.length (i.size - offset),
        ((s.contents i).drop offset).take buf.length ++
          buf.drop (min buf.length (i.size - offset)))) ∧
    ∀ offset bufs buf, (bufs.map List.length).sum = buf.length → buf.length < 2 ^ 63 →
      ∃ rs r, s.readPieces id offset bufs = .ok rs ∧ s.read id offset buf = .ok r ∧
        rs.flatMap filled = filled r := by
  refine ⟨fun offset buf hbuf => read_slice hs hi hk hsize fun _ => by omega,
    fun offset bufs buf hsum hbuf => ?_⟩
  obtain ⟨rs, hrs, hbytes⟩ : ∃ rs, s.readPieces id offset bufs = .ok rs ∧
      rs.flatMap filled = ((s.contents i).drop offset).take (bufs.map List.length).sum :=
    readPieces_eq hs hi hk hsize hlt (hsum ▸ hbuf)
  refine ⟨rs, _, hrs, read_slice hs hi hk hsize fun _ => by omega, ?_⟩
  rw [hbytes, hsum, filled_read_slice hsize]

theorem twoClusterVolume_contents :
    twoClusterVolume.contents { firstCluster := 3, size := 1024, isDir := false } =
      List.replicate 1024 0 := by
  have hchain : twoClusterVolume.clusterChain 3 = [3, 4] := twoClusterFat_chain
  rw [contents, hchain]
  decide +kernel

/-- A file of 1024 zero bytes, read over the end of its first cluster and over its
own end. -/
theorem read_slices_two_clusters :
    twoClusterVolume.read 2 510 [1, 1, 1, 1] = .ok (4, [0, 0, 0, 0]) ∧
      twoClusterVolume.read 2 1022 [1, 1, 1, 1] = .ok (2, [0, 0, 1, 1]) := by
  have hsize : 1024 ≤ (twoClusterVolume.clusterChain 3).length *
      twoClusterVolume.geo.bytesPerCluster := by
    rw [show twoClusterVolume.clusterChain 3 = [3, 4] from twoClusterFat_chain]
    decide
  have h := (read_slices twoClusterVolume_wellFormed.sound twoClusterVolume_inode rfl hsize
    (by decide)).1
  simp only [twoClusterVolume_contents, List.drop_replicate, List.take_replicate] at h
  exact ⟨h 510 [1, 1, 1, 1] (by decide), h 1022 [1, 1, 1, 1] (by decide)⟩

end AeroOS.Fat32
