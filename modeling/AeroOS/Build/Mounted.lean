import AeroOS.Build.Layout
import AeroOS.Fat32.Init

/-!
# The image as the driver mounts it

A disk with the image in the partition that `find_fat32_partition` selects.

* `OnDisk` is that assumption; `stored_bpb`, `stored_fat` and `stored_data` place
  the parts of the image on the disk.
* `init_image`: `init` takes the builder's parameters from the boot sector and
  the builder's table from FAT1.
* `chain_root`, `chain_sysutils` and the others are the chains of the files.
-/

namespace AeroOS.Build

open Bytes Ata Fat32

/-- The image lies in the partition that was selected, on the part of the disk
that the driver can address. -/
structure OnDisk (c : Contents) (p : Partition) (d : Disk) : Prop where
  present : d.present = true
  partition : findFat32Partition d = some p
  image : readBytes d.bytes (512 * p.start) (makeFat32Partition c).length = makeFat32Partition c
  addressable : p.start + FAT32_SECTORS ≤ 2 ^ 28

/-! ## Lengths -/

theorem makeBpb_length : makeBpb.length = 512 := by decide +kernel

theorem fsinfo_length : fsinfo.length = 512 := by decide +kernel

theorem rootRecords_flatMap_length (c : Contents) :
    ((rootRecords c).flatMap RawDirEntry.pack).length = 160 :=
  flatMap_length RawDirEntry.pack_length _

theorem makeRootCluster_length (c : Contents) : (makeRootCluster c).length = 512 := by
  rw [makeRootCluster_eq, List.length_append, rootRecords_flatMap_length, length_zeros]

theorem oneCluster_length {bytes : List UInt8} (h : bytes.length ≤ 512) :
    (oneCluster bytes).length = 512 := by
  rw [oneCluster_eq, List.length_append, length_zeros]
  omega

theorem clusterLoop_length (n : Nat) (bytes : List UInt8) : (clusterLoop n bytes).length = n * 512 := by
  induction n generalizing bytes with
  | zero => rfl
  | succ n ih =>
    rw [clusterLoop, List.length_append, ih, oneCluster_length (by rw [List.length_take]; omega)]
    omega

namespace Contents.Fits

variable {c : Contents} (hc : c.Fits)

include hc

theorem makeFat_length : (makeFat c).length = FAT32_FAT_SZ * 512 := by
  have hlt := hc.clusters_lt
  refine (assign_length fun a ha => ?_).trans (length_zeros _)
  obtain ⟨e, he, rfl⟩ := List.mem_map.1 ha
  have hmem : e.1 ∈ List.range (SYSUTILS_START_CLUSTER + sysutilsClusters c + 1) := by
    rw [← fatEntries_fst]
    exact List.mem_map_of_mem he
  have := List.mem_range.1 hmem
  simp only [length_zeros, leBytes_length, FAT32_FAT_SZ]
  omega

theorem dataRegion_length : (dataRegion c).length = (4 + sysutilsClusters c) * 512 := by
  simp only [dataRegion, List.length_append, makeRootCluster_length,
    oneCluster_length hc.hello_le, oneCluster_length hc.forktest_le,
    oneCluster_length hc.readme_le, clusterLoop_length]
  omega

end Contents.Fits

/-! ## The boot parameters -/

theorem bytsPerSec_eq : (512 : Nat) = 512 := rfl

theorem secPerClus_lt : (1 : Nat) < 256 := by decide

/-- The geometry of the image in a partition. -/
def imageGeometry (p : Partition) : Geometry where
  partStartLba := p.start
  bytesPerSector := 512
  sectorsPerCluster := 1
  rsvdSecCnt := FAT32_RSVD_SEC_CNT
  numFats := FAT32_NUM_FATS
  fatSz32 := FAT32_FAT_SZ
  rootCluster := FAT32_ROOT_CLUSTER
  partStartLba_lt := p.start_lt
  bytesPerSector_eq := bytsPerSec_eq
  sectorsPerCluster_pos := Nat.one_pos
  sectorsPerCluster_lt := secPerClus_lt
  rsvdSecCnt_lt := by decide
  numFats_lt := by decide
  fatSz32_pos := by decide
  fatSz32_fits := by decide
  rootCluster_lt := by decide

/-- `init` reads back the parameters that `make_bpb` wrote. -/
theorem parseBpb_makeBpb (p : Partition) : parseBpb p makeBpb = some (imageGeometry p) := by
  have h11 : leNat (readBytes (makeBpb.getD · 0) 11 2) = 512 := by decide +kernel
  have h13 : (makeBpb.getD 13 0).toNat = 1 := by decide +kernel
  have h14 : leNat (readBytes (makeBpb.getD · 0) 14 2) = 32 := by decide +kernel
  have h16 : (makeBpb.getD 16 0).toNat = 2 := by decide +kernel
  have h36 : leNat (readBytes (makeBpb.getD · 0) 36 4) = 126 := by decide +kernel
  have h44 : leNat (readBytes (makeBpb.getD · 0) 44 4) = 2 := by decide +kernel
  simp only [parseBpb, h11, h13, h14, h16, h36, h44]
  rfl

theorem signed_makeBpb : signed makeBpb = true := by decide +kernel

/-! ## The parts of the image on the disk -/

/-- The four files. -/
inductive File where
  | hello | forktest | sysutils | readme
  deriving DecidableEq, Repr

namespace File

/-- The bytes of a file. -/
def contents (c : Contents) : File → List UInt8
  | hello => c.hello
  | forktest => c.forktest
  | sysutils => c.sysutils
  | readme => c.readme

/-- The short name of a file. -/
def shortName : File → List UInt8
  | hello => helloName
  | forktest => forktestName
  | sysutils => sysutilsName
  | readme => readmeName

/-- The first cluster of a file. -/
def firstCluster (c : Contents) : File → Nat
  | hello => 3
  | forktest => 4
  | sysutils => SYSUTILS_START_CLUSTER
  | readme => SYSUTILS_START_CLUSTER + sysutilsClusters c

/-- The chain of a file. -/
def chain (c : Contents) : File → List Nat
  | hello => [3]
  | forktest => [4]
  | sysutils => (List.range (sysutilsClusters c)).map (SYSUTILS_START_CLUSTER + ·)
  | readme => [SYSUTILS_START_CLUSTER + sysutilsClusters c]

end File

namespace OnDisk

variable {c : Contents} {p : Partition} {d : Disk}

theorem stored (h : OnDisk c p d) : Stored d.bytes (512 * p.start) (makeFat32Partition c) :=
  fun k hk => by
    conv_rhs => rw [← h.image]
    exact (readBytes_getD d.bytes (512 * p.start) hk 0).symm

theorem stored_bpb (h : OnDisk c p d) : Stored d.bytes (512 * p.start) makeBpb :=
  h.stored.left.left.left.left.left.left

theorem stored_fat (h : OnDisk c p d) :
    Stored d.bytes (512 * (imageGeometry p).fatStart) (makeFat c) := by
  have hfat := h.stored.left.left.left.right
  have haddr : 512 * p.start + (makeBpb ++ fsinfo ++ zeros (30 * 512)).length =
      512 * (imageGeometry p).fatStart := by
    simp only [List.length_append, makeBpb_length, fsinfo_length, length_zeros,
      Geometry.fatStart, imageGeometry, FAT32_RSVD_SEC_CNT]
    omega
  rwa [haddr] at hfat

theorem clusterAddr_eq (p : Partition) (k : Nat) :
    (imageGeometry p).clusterAddr k = (imageGeometry p).clusterAddr 2 + (k - 2) * 512 := by
  simp only [Geometry.clusterAddr, Geometry.clusterToLba, imageGeometry]
  omega

variable (hc : c.Fits)

include hc

theorem stored_data (h : OnDisk c p d) :
    Stored d.bytes ((imageGeometry p).clusterAddr 2) (dataRegion c) := by
  have hdata := h.stored.left.right
  have haddr : 512 * p.start +
      (makeBpb ++ fsinfo ++ zeros (30 * 512) ++ makeFat c ++ makeFat c).length =
      (imageGeometry p).clusterAddr 2 := by
    simp only [List.length_append, makeBpb_length, fsinfo_length, length_zeros,
      hc.makeFat_length, Geometry.clusterAddr, Geometry.clusterToLba, Geometry.dataStartLba,
      imageGeometry, FAT32_RSVD_SEC_CNT, FAT32_NUM_FATS, FAT32_FAT_SZ]
    omega
  rwa [haddr] at hdata

theorem stored_root (h : OnDisk c p d) :
    Stored d.bytes ((imageGeometry p).clusterAddr 2) (makeRootCluster c) :=
  (h.stored_data hc).left.left.left.left

/-- Each file lies in its clusters. -/
theorem stored_file (h : OnDisk c p d) (f : File) :
    Stored d.bytes ((imageGeometry p).clusterAddr (f.firstCluster c)) (f.contents c) := by
  have hdata := h.stored_data hc
  have hroot := makeRootCluster_length c
  have hhello := oneCluster_length hc.hello_le
  have hfork := oneCluster_length hc.forktest_le
  cases f with
  | hello =>
    have hs := hdata.left.left.left.right
    rw [hroot, oneCluster_eq] at hs
    rw [File.firstCluster, clusterAddr_eq]
    exact hs.left
  | forktest =>
    have hs := hdata.left.left.right
    rw [List.length_append, hroot, hhello, oneCluster_eq] at hs
    rw [File.firstCluster, clusterAddr_eq]
    exact hs.left
  | sysutils =>
    have hs := hdata.left.right
    rw [List.length_append, List.length_append, hroot, hhello, hfork,
      clusterLoop_eq (by unfold sysutilsClusters; omega)] at hs
    rw [File.firstCluster, clusterAddr_eq]
    exact hs.left
  | readme =>
    have hs := hdata.right
    rw [List.length_append, List.length_append, List.length_append, hroot, hhello, hfork,
      clusterLoop_length, oneCluster_eq] at hs
    rw [File.firstCluster, clusterAddr_eq]
    have haddr : 512 + 512 + 512 + sysutilsClusters c * 512 =
        (SYSUTILS_START_CLUSTER + sysutilsClusters c - 2) * 512 := by
      unfold SYSUTILS_START_CLUSTER
      omega
    rw [← haddr]
    exact hs.left

end OnDisk

/-! ## The disk that the builder leaves -/

theorem assign_getD_out (buf : List UInt8) {as : List (Nat × List UInt8)} {i : Nat}
    (hin : Within buf.length as) (hout : ∀ a ∈ as, i < a.1 ∨ a.1 + a.2.length ≤ i) :
    (assign buf as).getD i 0 = buf.getD i 0 := by
  induction as generalizing buf with
  | nil => rfl
  | cons a as ih =>
    obtain ⟨ha, hin⟩ := List.forall_mem_cons.1 hin
    obtain ⟨hi, hout⟩ := List.forall_mem_cons.1 hout
    have hlen : (patch buf a.1 a.2).length = buf.length := patch_length ha
    exact (ih _ (by rw [hlen]; exact hin) hout).trans (patch_getD_out ha hi 0)

/-- What is assigned last to a range stays there. -/
theorem assign_getD_in {buf : List UInt8} {as bs : List (Nat × List UInt8)} {o k : Nat}
    {l : List UInt8} (hin : Within buf.length (as ++ (o, l) :: bs)) (hk : k < l.length)
    (hout : ∀ b ∈ bs, o + k < b.1 ∨ b.1 + b.2.length ≤ o + k) :
    (assign buf (as ++ (o, l) :: bs)).getD (o + k) 0 = l.getD k 0 := by
  have has : (assign buf as).length = buf.length :=
    assign_length fun a ha => hin a (List.mem_append_left _ ha)
  have hl : o + l.length ≤ buf.length :=
    hin (o, l) (List.mem_append_right _ List.mem_cons_self)
  have hlen : (patch (assign buf as) o l).length = buf.length :=
    (patch_length (by rw [has]; exact hl)).trans has
  rw [assign_append]
  refine (assign_getD_out (patch (assign buf as) o l) (fun b hb => ?_) hout).trans
    (patch_getD_in (by omega) hk 0)
  rw [hlen]
  exact hin b (List.mem_append_right _ (List.mem_cons_of_mem _ hb))

theorem makeFat32Partition_length {c : Contents} (hc : c.Fits) :
    (makeFat32Partition c).length = FAT32_SECTORS * 512 := by
  have hused : (usedSectors c).length = (FAT32_DATA_START + (4 + sysutilsClusters c)) * 512 := by
    simp only [usedSectors, List.length_append, makeBpb_length, fsinfo_length, length_zeros,
      hc.makeFat_length, hc.dataRegion_length, FAT32_FAT_SZ, FAT32_DATA_START]
    omega
  have hle := hc.clusters_le
  simp only [makeFat32Partition, List.length_append, length_zeros, hused]
  simp only [FAT32_DATA_START, FAT32_SECTORS] at *
  omega

theorem within_partitionEntry (start : Nat) : Within 512 (partitionEntry start) := by
  simp [Within, partitionEntry]

section appended

variable {boot : List UInt8} {c : Contents} {k : Nat}

/-- The partition that `main` enters in the boot record. -/
def appended (k : Nat) (h : k < 2 ^ 32) : Partition where
  start := k
  size := FAT32_SECTORS
  start_lt := h
  size_lt := by decide

theorem appendPartition_eq (c : Contents) (hlen : boot.length = k * 512) (hk : 0 < k) :
    appendPartition boot c = assign boot (partitionEntry k) ++ makeFat32Partition c := by
  have hdiv : boot.length / 512 = k := by omega
  have hmod : ¬ boot.length % 512 ≠ 0 := by omega
  simp only [appendPartition, hdiv, if_neg hmod]
  refine assign_left _ fun a ha => ?_
  have := within_partitionEntry k a ha
  omega

/-- A byte of the boot record that no assignment touches. -/
theorem partitionEntry_out (hlen : boot.length = k * 512) (hk : 0 < k) {i : Nat}
    (h : ∀ a ∈ partitionEntry k, i < a.1 ∨ a.1 + a.2.length ≤ i) :
    (assign boot (partitionEntry k)).getD i 0 = boot.getD i 0 :=
  assign_getD_out boot (fun a ha => by have := within_partitionEntry k a ha; omega) h

/-- A byte of the boot record that assignment `n` sets and no later one. -/
theorem partitionEntry_in (hlen : boot.length = k * 512) (hk : 0 < k) (n : Nat) {o j : Nat}
    {l : List UInt8} (h : (partitionEntry k)[n]? = some (o, l)) (hj : j < l.length)
    (hout : ∀ b ∈ (partitionEntry k).drop (n + 1), o + j < b.1 ∨ b.1 + b.2.length ≤ o + j) :
    (assign boot (partitionEntry k)).getD (o + j) 0 = l.getD j 0 := by
  obtain ⟨hn, hget⟩ := List.getElem?_eq_some_iff.1 h
  have hsplit : partitionEntry k =
      (partitionEntry k).take n ++ (o, l) :: (partitionEntry k).drop (n + 1) := by
    rw [← hget, ← List.drop_eq_getElem_cons, List.take_append_drop]
  rw [hsplit]
  refine assign_getD_in (fun a ha => ?_) hj hout
  rw [← hsplit] at ha
  have := within_partitionEntry k a ha
  omega

/-- The disk that `main` writes holds the image in the partition that it enters, if
the entry behind it is not one of a FAT32 partition. -/
theorem onDisk_appendPartition {d : Disk} (hd : d.present = true)
    (hbytes : ∀ x, d.bytes x = (appendPartition boot c).getD x 0)
    (hlen : boot.length = k * 512) (hk : 0 < k) (hlast : Partition.isFat32 boot 3 = false)
    (hfit : k + FAT32_SECTORS ≤ 2 ^ 28) :
    OnDisk c (appended k (by unfold FAT32_SECTORS at hfit; omega)) d := by
  have hk28 : k < 2 ^ 28 := by
    unfold FAT32_SECTORS at hfit
    omega
  have hboot : (assign boot (partitionEntry k)).length = k * 512 :=
    (assign_length fun a ha => by have := within_partitionEntry k a ha; omega).trans hlen
  have hmbr {i : Nat} (hi : i < 512) : (readBytes d.bytes 0 512).getD i 0 =
      (assign boot (partitionEntry k)).getD i 0 := by
    rw [readBytes_getD _ _ hi, Nat.zero_add, hbytes, appendPartition_eq c hlen hk,
      List.getD_append _ _ _ _ (by omega)]
  have hread : readSectors d 0 512 = some (readBytes d.bytes 0 512) :=
    readSectors_eq (k := 1) hd (by decide) (by decide)
  generalize readBytes d.bytes 0 512 = mbr at hmbr hread
  have hsigned : signed mbr = true := by
    have h510 := partitionEntry_in (j := 0) hlen hk 4 rfl (by decide) (by simp [partitionEntry])
    have h511 := partitionEntry_in (j := 0) hlen hk 5 rfl (by decide) (by simp [partitionEntry])
    rw [signed, hmbr (by decide), hmbr (by decide), h510, h511]
    rfl
  have h3 : Partition.isFat32 mbr 3 = false := by
    have h498 : (assign boot (partitionEntry k)).getD (446 + 3 * 16 + 4) 0 =
        boot.getD (446 + 3 * 16 + 4) 0 := partitionEntry_out hlen hk (by simp [partitionEntry])
    rw [← hlast, Partition.isFat32, Partition.isFat32, hmbr (by decide), h498]
  have h2 : Partition.isFat32 mbr 2 = true := by
    have h482 := partitionEntry_in (j := 0) hlen hk 1 rfl (by decide) (by simp [partitionEntry])
    rw [Partition.isFat32, hmbr (by decide), h482]
    rfl
  have hfield (n : Nat) {o v : Nat} (h : (partitionEntry k)[n]? = some (o, leBytes 4 v))
      (ho : o + 4 ≤ 512) (hv : v < 2 ^ 32)
      (hout : ∀ j < 4, ∀ b ∈ (partitionEntry k).drop (n + 1),
        o + j < b.1 ∨ b.1 + b.2.length ≤ o + j) :
      leNat (readBytes (mbr.getD · 0) o 4) = v := by
    have hbytes : readBytes (mbr.getD · 0) o 4 = leBytes 4 v :=
      readBytes_eq_of_getD (leBytes_length 4 v) fun j hj => by
        rw [hmbr (by omega)]
        exact partitionEntry_in hlen hk n h (by rw [leBytes_length]; exact hj) (hout j hj)
    rw [hbytes, leNat_leBytes_of_lt hv]
  have hentry : Partition.ofEntry mbr 2 = appended k (by omega) := by
    have hstart : (Partition.ofEntry mbr 2).start = k :=
      hfield 2 rfl (by decide) (by omega) fun j hj => by simp [partitionEntry]; omega
    have hsize : (Partition.ofEntry mbr 2).size = FAT32_SECTORS :=
      hfield 3 rfl (by decide) (by decide) fun j hj => by simp [partitionEntry]; omega
    exact Fat32.Partition.ext hstart hsize
  refine ⟨hd, ?_, ?_, hfit⟩
  · rw [findFat32Partition, hread]
    simp only [hsigned, Bool.true_eq_false, if_false, List.find?_cons, h3, h2, Option.map_some,
      hentry]
  · refine readBytes_eq_of_getD rfl fun i hi => ?_
    have haddr : 512 * k + i = (assign boot (partitionEntry k)).length + i := by omega
    rw [hbytes, appendPartition_eq c hlen hk]
    show (assign boot (partitionEntry k) ++ makeFat32Partition c).getD (512 * k + i) 0 = _
    rw [haddr, List.getD_append_right _ _ _ _ (Nat.le_add_right _ _), Nat.add_sub_cancel_left]

/-- Four files of one byte. -/
def oneByteFiles : Contents := ⟨[1], [2], [3], [4]⟩

theorem oneByteFiles_fits : oneByteFiles.Fits :=
  ⟨by decide, by decide, by decide, by decide, by decide⟩

theorem one_lt_word : 1 < 2 ^ 32 := by decide

/-- The partition behind a boot image of one sector. -/
def barePartition : Partition := appended 1 one_lt_word

/-- A boot image of one sector that holds nothing but the signature. -/
def bareBoot : List UInt8 := zeros 510 ++ [0x55, 0xAA]

/-- The disk that `main` makes of it. -/
def bareDisk (c : Contents) : Disk where
  present := true
  bytes := fun x => (appendPartition bareBoot c).getD x 0

theorem onDisk_bareDisk (c : Contents) : OnDisk c barePartition (bareDisk c) := by
  have hlen : bareBoot.length = 1 * 512 := by
    rw [bareBoot, List.length_append, length_zeros]
    rfl
  have hlast : Partition.isFat32 bareBoot 3 = false := by decide +kernel
  have hbytes (x : Nat) : (bareDisk c).bytes x = (appendPartition bareBoot c).getD x 0 := by
    rw [bareDisk]
  exact onDisk_appendPartition (k := 1) rfl hbytes hlen Nat.one_pos hlast (by decide)

end appended

/-! ## The mount -/

/-- The volume that `init` mounts. -/
def imageMount (c : Contents) (p : Partition) (d : Disk) : Fat32 where
  geo := imageGeometry p
  fatCache := fatOfBytes (makeFat c)
  inodes := InodeTable.empty.insert
    { firstCluster := FAT32_ROOT_CLUSTER, size := 0, isDir := true }
  disk := d

/-- `init` mounts the image. -/
theorem init_image {c : Contents} {p : Partition} {d : Disk} (hc : c.Fits) (h : OnDisk c p d) :
    init d = some (p, imageMount c p d) := by
  have hadd := h.addressable
  have hbpb : readSectors d p.start 512 = some makeBpb := by
    have hs := h.stored_bpb.readBytes
    rw [makeBpb_length] at hs
    rw [← hs]
    refine readSectors_eq (k := 1) h.present (by decide) ?_
    unfold FAT32_SECTORS at hadd
    omega
  have hmount : mount (imageGeometry p) d = some (imageMount c p d) := by
    have hs := h.stored_fat.readBytes
    rw [hc.makeFat_length] at hs
    have hread : readSectors d (imageGeometry p).fatStart (imageGeometry p).fatBytes =
        some (makeFat c) := by
      rw [← hs]
      refine readSectors_eq h.present (imageGeometry p).fatSz32_pos ?_
      simp only [Geometry.fatStart, imageGeometry, FAT32_RSVD_SEC_CNT, FAT32_FAT_SZ]
      unfold FAT32_SECTORS at hadd
      omega
    rw [mount, hread]
    rfl
  rw [init, h.present, h.partition]
  simp only [Bool.true_eq_false, if_false, hbpb, signed_makeBpb, parseBpb_makeBpb, hmount,
    Option.map_some]

/-! ## Chains -/

theorem imageGeometry_valid {p : Partition} {k : Nat} (h2 : 2 ≤ k) (h : k < 16102) :
    (imageGeometry p).validCluster k = true := by
  rw [Geometry.validCluster_iff, Geometry.fatLen_eq]
  simp only [imageGeometry, FAT32_FAT_SZ]
  omega

/-- An entry that links to the next cluster. -/
theorem nextCluster_link {fat : Nat → Nat} {k v : Nat} (h : fat k = v) (h0 : 0 < v)
    (hv : v < 0x0FFFFFFE) : nextCluster fat k = some v := by
  rw [nextCluster, h, if_neg (by unfold fatEoc; omega)]

theorem nextCluster_eoc {fat : Nat → Nat} {k : Nat} (h : fat k = EOC) :
    nextCluster fat k = none := by
  rw [nextCluster, h]
  rfl

section chains

variable {c : Contents} {p : Partition} {d : Disk}

/-- A chain of one cluster. -/
theorem chain_single {k : Nat} (h2 : 2 ≤ k) (hlt : k < 16102)
    (hfat : fatOfBytes (makeFat c) k = EOC) : (imageMount c p d).clusterChain k = [k] :=
  Chain.walk_eq (l := []) (List.isChain_singleton k)
    (fun x hx => by
      obtain rfl : k = x := by simpa using hx
      exact nextCluster_eoc hfat)
    (fun x hx => by
      obtain rfl : x = k := by simpa using hx
      exact imageGeometry_valid h2 hlt)
    (show 1 ≤ chainGuard by decide)

theorem chain_sysutils (hc : c.Fits) :
    (imageMount c p d).clusterChain SYSUTILS_START_CLUSTER =
      (List.range (sysutilsClusters c)).map (SYSUTILS_START_CLUSTER + ·) := by
  have hlt := hc.clusters_lt
  unfold SYSUTILS_START_CLUSTER at hlt
  obtain ⟨m, hm⟩ : ∃ m, sysutilsClusters c = m + 1 :=
    ⟨sysutilsClusters c - 1, by have := hc.clusters_pos; omega⟩
  have hfat (i : Nat) (hi : i < m + 1) := hc.fat_sysutils (hm ▸ hi)
  have hlist : (List.range (sysutilsClusters c)).map (SYSUTILS_START_CLUSTER + ·) =
      SYSUTILS_START_CLUSTER ::
        (List.range m).map (fun i => SYSUTILS_START_CLUSTER + (i + 1)) := by
    rw [hm, List.range_succ_eq_map, List.map_cons, List.map_map]
    rfl
  rw [hlist]
  refine Chain.walk_eq ?_ ?_ ?_ ?_
  · rw [← hlist, List.isChain_iff_getElem]
    intro i hi
    simp only [List.length_map, List.length_range] at hi
    rw [List.getElem_map, List.getElem_map, List.getElem_range, List.getElem_range]
    have h := hfat i (by omega)
    rw [if_neg (by omega)] at h
    exact nextCluster_link h (by omega) (by unfold SYSUTILS_START_CLUSTER; omega)
  · rw [← hlist, hm, List.range_succ, List.map_append]
    intro x hx
    obtain rfl : SYSUTILS_START_CLUSTER + m = x := by simpa using hx
    have h := hfat m (by omega)
    rw [if_pos hm.symm] at h
    exact nextCluster_eoc h
  · rw [← hlist]
    intro x hx
    obtain ⟨i, hi, rfl⟩ := List.mem_map.1 hx
    have := List.mem_range.1 hi
    exact imageGeometry_valid (by unfold SYSUTILS_START_CLUSTER; omega)
      (by unfold SYSUTILS_START_CLUSTER; omega)
  · rw [← hlist, List.length_map, List.length_range]
    unfold chainGuard
    omega

theorem chain_root (hc : c.Fits) :
    (imageMount c p d).clusterChain FAT32_ROOT_CLUSTER = [FAT32_ROOT_CLUSTER] :=
  chain_single (by decide) (by decide) (hc.fat_first (Or.inl rfl))

/-- The chain of each file. -/
theorem chain_file (hc : c.Fits) (f : File) :
    (imageMount c p d).clusterChain (f.firstCluster c) = f.chain c := by
  have hlt := hc.clusters_lt
  have h5 : 2 ≤ SYSUTILS_START_CLUSTER + sysutilsClusters c := by
    unfold SYSUTILS_START_CLUSTER
    omega
  cases f with
  | hello =>
    exact chain_single (k := 3) (by decide) (by decide) (hc.fat_first (Or.inr (Or.inl rfl)))
  | forktest =>
    exact chain_single (k := 4) (by decide) (by decide) (hc.fat_first (Or.inr (Or.inr rfl)))
  | sysutils => exact chain_sysutils hc
  | readme => exact chain_single h5 hlt hc.fat_readme

end chains

end AeroOS.Build
