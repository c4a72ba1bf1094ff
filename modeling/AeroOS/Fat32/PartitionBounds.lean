import AeroOS.Fat32.Transfers
import AeroOS.Fat32.Init
import AeroOS.Build.Mounted

/-!
# FAT32: writes and the end of the partition

The driver bounds cluster numbers by the length of the table, which is a whole
number of sectors, and never by the size of the partition.

* `dataStop` is the first sector behind the last cluster that the table has an
  entry for.  Every write ends at or below it (`placed_bounds`).
* `inside_of_run`: on a volume with `dataStop` in the partition, no run writes
  outside the partition.
* `exists_outside`: of any other volume there is one with the same boot
  parameters on which the first `mkdir` does.
-/

namespace AeroOS.Fat32

open Bytes Ata Run

/-- First sector behind the last cluster of the table. -/
def Geometry.dataStop (g : Geometry) : Nat :=
  g.dataStartLba + (g.fatLen - 2) * g.sectorsPerCluster

/-- The call writes sector `n`. -/
def Call.Covers (c : Call) (n : Nat) : Prop := c.lba ≤ n ∧ n < c.lba + c.buf.length / 512

/-- Sector `n` lies in the partition. -/
def Partition.Contains (p : Partition) (n : Nat) : Prop := p.start ≤ n ∧ n < p.stop

/-! ## Where a write can end -/

namespace Geometry

variable {g : Geometry}

/-- A cluster of the table ends before `dataStop`. -/
theorem clusterToLba_le_dataStop {k : Nat} (hk : g.validCluster k = true) :
    g.clusterToLba k + g.sectorsPerCluster ≤ g.dataStop := by
  obtain ⟨h2, hlt⟩ := validCluster_iff.1 hk
  have hmul := Nat.mul_le_mul_right g.sectorsPerCluster (show k - 2 + 1 ≤ g.fatLen - 2 by omega)
  rw [Nat.add_mul, Nat.one_mul] at hmul
  unfold clusterToLba dataStop
  omega

/-- Every copy of the table ends before `dataStop`, also when the boot sector counts
no copies. -/
theorem fat_le_dataStop {i : Nat} (hi : i < max 1 g.numFats) :
    g.fatStart + i * g.fatSz32 + g.fatSz32 ≤ g.dataStop := by
  have hsz := g.fatSz32_pos
  have hclusters : g.fatSz32 ≤ (g.fatLen - 2) * g.sectorsPerCluster :=
    calc g.fatSz32 ≤ g.fatLen - 2 := by rw [fatLen_eq]; omega
      _ ≤ (g.fatLen - 2) * g.sectorsPerCluster :=
        Nat.le_mul_of_pos_right _ g.sectorsPerCluster_pos
  have hcopies : (i + 1) * g.fatSz32 ≤ max 1 g.numFats * g.fatSz32 :=
    Nat.mul_le_mul_right _ (by omega)
  rw [Nat.add_mul, Nat.one_mul] at hcopies
  unfold dataStop dataStartLba fatStart
  by_cases h0 : g.numFats = 0
  · rw [h0] at hcopies ⊢
    simp only [Nat.max_zero, Nat.one_mul] at hcopies
    omega
  · rw [Nat.max_eq_right (by omega)] at hcopies
    omega

/-- A write goes to sectors between the start of the partition and `dataStop`. -/
theorem placed_bounds {c : Call} (h : g.Placed c) {n : Nat} (hn : c.Covers n) :
    g.partStartLba ≤ n ∧ n < g.dataStop := by
  obtain ⟨hlo, hhi⟩ := hn
  rcases h with ⟨i, hi, hlba, hlen⟩ | ⟨k, hk, hlba, hlen⟩
  · have hstop := fat_le_dataStop hi
    rw [hlen, fatBytes_eq, Nat.mul_div_cancel _ (by decide)] at hhi
    unfold fatStart at *
    omega
  · have hstop := clusterToLba_le_dataStop hk
    rw [hlen, bytesPerCluster_eq, Nat.mul_div_cancel _ (by decide)] at hhi
    unfold clusterToLba dataStartLba at *
    omega

end Geometry

/-! ## Runs -/

section runs

variable (upper : List UInt8 → List UInt8)

theorem exec_geo (s : Fat32) (op : Op) : (op.exec upper s).geo = s.geo :=
  (logged_exec upper s op).geo

/-- On a volume whose table has no entry for a cluster behind the partition, every
sector that an operation of a run writes lies in the partition. -/
theorem inside_of_run {d : Disk} {p : Partition} {s s' : Fat32} (h : init d = some (p, s))
    (hfit : s.geo.dataStop ≤ p.stop)
    (hrun : Reaches (fun s op s' => s' = Op.exec upper s op) (fun _ _ => True) s s') (op : Op) :
    (op.exec upper s').disk = replay s'.disk (op.calls upper s') ∧
      ∀ c ∈ op.calls upper s', ∀ n, c.Covers n → p.Contains n := by
  obtain ⟨-, -, bpb, -, -, hbpb, -⟩ := init_eq_some h
  have hstart : s.geo.partStartLba = p.start := parseBpb_start hbpb
  have hgeo : s'.geo = s.geo :=
    hrun.invariant (I := fun t => t.geo = s.geo)
      (fun t op t' ht _ hstep => by rw [hstep, exec_geo, ht]) rfl
  have hlog := logged_exec upper s' op
  refine ⟨hlog.disk, fun c hc n hn => ?_⟩
  obtain ⟨hlo, hhi⟩ := Geometry.placed_bounds (hgeo ▸ hlog.placed c hc) hn
  rw [hstart] at hlo
  exact ⟨hlo, hhi.trans_le hfit⟩

/-- A boot record with a partition of 1000 sectors from sector 1 up. -/
def roomyRecord : List UInt8 :=
  Build.assign (Build.zeros 512)
    [(446 + 4, [0x0C]), (446 + 8, leBytes 4 1), (446 + 12, leBytes 4 1000), (510, [0x55]),
      (511, [0xAA])]

/-- The boot sector of a volume with 126 clusters of one sector. -/
def roomyBpb : List UInt8 :=
  Build.assign (Build.zeros 512)
    [(11, leBytes 2 512), (13, [1]), (14, leBytes 2 1), (16, [1]), (36, leBytes 4 1),
      (44, leBytes 4 2), (510, [0x55]), (511, [0xAA])]

/-- Its partition. -/
def roomyPartition : Partition := Partition.ofEntry roomyRecord 0

/-- Its boot parameters. -/
def roomyGeometry : Geometry where
  partStartLba := 1
  bytesPerSector := 512
  sectorsPerCluster := 1
  rsvdSecCnt := 1
  numFats := 1
  fatSz32 := 1
  rootCluster := 2
  partStartLba_lt := smallGeometry.partStartLba_lt
  bytesPerSector_eq := smallGeometry.bytesPerSector_eq
  sectorsPerCluster_pos := smallGeometry.sectorsPerCluster_pos
  sectorsPerCluster_lt := smallGeometry.sectorsPerCluster_lt
  rsvdSecCnt_lt := smallGeometry.rsvdSecCnt_lt
  numFats_lt := smallGeometry.sectorsPerCluster_lt
  fatSz32_pos := smallGeometry.fatSz32_pos
  fatSz32_fits := smallGeometry.fatSz32_fits
  rootCluster_lt := smallGeometry.rootCluster_lt

theorem parseBpb_roomy : parseBpb roomyPartition roomyBpb = some roomyGeometry := by
  have hstart : roomyPartition.start = 1 := by decide +kernel
  have h11 : leNat (readBytes (roomyBpb.getD · 0) 11 2) = 512 := by decide +kernel
  have h13 : (roomyBpb.getD 13 0).toNat = 1 := by decide +kernel
  have h14 : leNat (readBytes (roomyBpb.getD · 0) 14 2) = 1 := by decide +kernel
  have h16 : (roomyBpb.getD 16 0).toNat = 1 := by decide +kernel
  have h36 : leNat (readBytes (roomyBpb.getD · 0) 36 4) = 1 := by decide +kernel
  have h44 : leNat (readBytes (roomyBpb.getD · 0) 44 4) = 2 := by decide +kernel
  have hok : leNat (readBytes (roomyBpb.getD · 0) 11 2) = 512 ∧ (roomyBpb.getD 13 0).toNat ≠ 0 ∧
      leNat (readBytes (roomyBpb.getD · 0) 36 4) ≠ 0 ∧
      leNat (readBytes (roomyBpb.getD · 0) 36 4) * leNat (readBytes (roomyBpb.getD · 0) 11 2) ≤
        heapSize := by
    rw [h11, h13, h36]
    decide
  rw [parseBpb, dif_pos hok, Option.some.injEq]
  exact (Geometry.mk.injEq ..).mpr ⟨hstart, h11, h13, h14, h16, h36, h44⟩

/-- A disk with the two boot sectors is mounted with these parameters. -/
theorem init_roomy {d : Disk} (hp : d.present = true)
    (hstored : Build.Stored d.bytes 0 (roomyRecord ++ roomyBpb)) :
    init d = (mount roomyGeometry d).map fun s => (roomyPartition, s) := by
  have hlen : roomyRecord.length = 512 := by decide +kernel
  have hlen' : roomyBpb.length = 512 := by decide +kernel
  have hrecord : readSectors d 0 512 = some roomyRecord := by
    have hbytes := hstored.left.readBytes
    rw [hlen] at hbytes
    rw [← hbytes]
    exact readSectors_eq (k := 1) hp (by decide) (by decide)
  have hbpb : readSectors d 1 512 = some roomyBpb := by
    have hbytes := hstored.right.readBytes
    rw [hlen, hlen'] at hbytes
    rw [← hbytes]
    exact readSectors_eq (k := 1) hp (by decide) (by decide)
  have hsigned : signed roomyRecord = true := by decide +kernel
  have hsigned' : signed roomyBpb = true := by decide +kernel
  have hfind : [3, 2, 1, 0].find? (Partition.isFat32 roomyRecord) = some 0 := by decide +kernel
  have hpart : findFat32Partition d = some roomyPartition := by
    rw [findFat32Partition, hrecord]
    simp only [hsigned, Bool.true_eq_false, if_false, hfind, Option.map_some]
    rfl
  have hstart : roomyPartition.start = 1 := by decide +kernel
  rw [init, hp, hpart]
  simp only [Bool.true_eq_false, if_false, hstart, hbpb, hsigned', parseBpb_roomy]

/-- A disk with this volume, which is empty. -/
def roomyDisk : Disk where
  present := true
  bytes a := (roomyRecord ++ roomyBpb).getD a 0

theorem init_roomyDisk : ∃ p s, init roomyDisk = some (p, s) ∧ s.geo.dataStop ≤ p.stop := by
  have htable : readSectors roomyDisk roomyGeometry.fatStart roomyGeometry.fatBytes =
      some (readBytes roomyDisk.bytes (512 * 2) (1 * 512)) :=
    readSectors_eq (k := 1) rfl (by decide) (by decide)
  have hsize : roomyPartition.stop = 1001 := by decide +kernel
  rw [init_roomy rfl fun k _ => by rw [roomyDisk, Nat.zero_add], mount, htable]
  refine ⟨_, _, rfl, ?_⟩
  rw [hsize]
  decide

theorem inside_of_run_roomyDisk : ∃ p s, init roomyDisk = some (p, s) ∧
    ∀ c ∈ (Op.mkdir 1 [0x41]).calls id s, ∀ n, c.Covers n → p.Contains n := by
  obtain ⟨p, s, h, hfit⟩ := init_roomyDisk
  exact ⟨p, s, h, (inside_of_run id h hfit (Reaches.refl s) (.mkdir 1 [0x41])).2⟩

end runs

/-! ## A volume that reaches over the end -/

/-- The disk with a table whose last entry alone is free, and zeros behind it. -/
def lastFree (g : Geometry) (d : Disk) : Disk where
  present := true
  bytes a :=
    if a < 512 * g.fatStart then d.bytes a
    else if a + 4 < 512 * g.fatStart + g.fatBytes then 0xFF
    else 0

section lastFree

variable {d : Disk} {g : Geometry}

/-- A sector before the table is read as before. -/
theorem readSectors_lastFree {lba : Nat} {bs : List UInt8} (h : readSectors d lba 512 = some bs)
    (hp : d.present = true) (hlba : lba < g.fatStart) :
    readSectors (lastFree g d) lba 512 = some bs := by
  have hself := readSectors_of_some h hp
  have hread : readSectors (lastFree g d) lba 512 =
      some (readBytes (lastFree g d).bytes (512 * lba) 512) := readSectors_of_some h rfl
  rw [hread, ← h, hself]
  refine congrArg some (readBytes_congr fun a _ ha => ?_)
  exact if_pos (by omega)

theorem findFat32Partition_lastFree {p : Partition} (h : findFat32Partition d = some p)
    (hp : d.present = true) (hg : 0 < g.fatStart) :
    findFat32Partition (lastFree g d) = some p := by
  unfold findFat32Partition at h ⊢
  cases hmbr : readSectors d 0 512 with
  | none => simp [hmbr] at h
  | some mbr => simpa only [hmbr, readSectors_lastFree hmbr hp hg] using h

/-- The table of the disk. -/
theorem fatOfBytes_lastFree {i : Nat} (hi : i < g.fatLen) :
    fatOfBytes (readBytes (lastFree g d).bytes (512 * g.fatStart) g.fatBytes) i =
      if i + 1 = g.fatLen then 0 else 0xFFFFFFFF := by
  have hlen := g.fatLen_eq
  have hbytes := g.fatBytes_eq
  have hword : readBytes
      ((readBytes (lastFree g d).bytes (512 * g.fatStart) g.fatBytes).getD · 0) (i * 4) 4 =
      List.replicate 4 (if i + 1 = g.fatLen then (0 : UInt8) else 0xFF) := by
    refine readBytes_eq_of_getD List.length_replicate fun k hk => ?_
    rw [readBytes_getD _ _ (by omega)]
    simp only [lastFree]
    rw [if_neg (by omega), List.getD_replicate _ hk]
    by_cases hlast : i + 1 = g.fatLen
    · rw [if_pos hlast, if_neg (by omega)]
    · rw [if_neg hlast, if_pos (by omega)]
  rw [fatOfBytes, hword]
  split <;> rfl

/-- No slot of a directory is in use there. -/
theorem readDirClusters_lastFree {t : Fat32} (ht : t.disk = lastFree t.geo d) (cs : List Nat) :
    ∀ e ∈ t.readDirClusters cs, e.isLive = false := by
  induction cs with
  | nil => simp [readDirClusters]
  | cons c cs ih =>
    rw [readDirClusters]
    cases hr : t.readCluster c with
    | none => simp
    | some buf =>
      have hbuf : buf = readBytes (lastFree t.geo d).bytes (t.geo.clusterAddr c)
          t.geo.bytesPerCluster := by
        have hself : readSectors t.disk (t.geo.clusterToLba c) t.geo.bytesPerCluster =
            some (readBytes t.disk.bytes (512 * t.geo.clusterToLba c) t.geo.bytesPerCluster) :=
          readSectors_of_some hr (by rw [ht]; rfl)
        rw [ht] at hself
        exact Option.some.inj (hr.symm.trans ((congrArg
          (readSectors · (t.geo.clusterToLba c) t.geo.bytesPerCluster) ht).trans hself))
      simp only [List.mem_append, List.mem_map, List.mem_range]
      rintro e (⟨i, hi, rfl⟩ | he)
      · have hbpc := t.geo.bytesPerCluster_eq
        have hfat := t.geo.fatBytes_eq
        have haddr : 512 * t.geo.fatStart ≤ t.geo.clusterAddr c := by
          unfold Geometry.clusterAddr Geometry.clusterToLba Geometry.dataStartLba
            Geometry.fatStart
          omega
        unfold slotCount at hi
        have hbyte {k : Nat} (hk : k < 32) : buf.getD (i * 32 + k) 0 =
            if t.geo.clusterAddr c + (i * 32 + k) + 4 < 512 * t.geo.fatStart + t.geo.fatBytes
            then 0xFF else 0 := by
          rw [hbuf, readBytes_getD _ _ (by omega)]
          simp only [lastFree]
          rw [if_neg (by omega)]
        by_cases hin : t.geo.clusterAddr c + i * 32 + 4 < 512 * t.geo.fatStart + t.geo.fatBytes
        · -- the slot lies in the table: its attributes are those of a long name
          have hattr : (RawDirEntry.ofBytes (buf.getD · 0) (i * 32)).attr = 0xFF := by
            refine (hbyte (k := 11) (by decide)).trans (if_pos ?_)
            unfold Geometry.clusterAddr at *
            omega
          have hlfn : (RawDirEntry.ofBytes (buf.getD · 0) (i * 32)).isLfn = true := by
            rw [RawDirEntry.isLfn, hattr]
            decide
          rw [RawDirEntry.isLive, hlfn, Bool.not_true, Bool.and_false]
        · have hname : (RawDirEntry.ofBytes (buf.getD · 0) (i * 32)).name.getD 0 0 = 0 :=
            (hbyte (k := 0) (by decide)).trans (if_neg (by omega))
          have hfree : (RawDirEntry.ofBytes (buf.getD · 0) (i * 32)).isFree = true := by
            rw [RawDirEntry.isFree, hname]
            rfl
          rw [RawDirEntry.isLive, hfree, Bool.not_true, Bool.false_and]
      · exact ih e he

/-- The volume on that disk. -/
theorem init_lastFree {p : Partition} {s : Fat32} (h : init d = some (p, s))
    (hr : 0 < s.geo.rsvdSecCnt) :
    ∃ t, init (lastFree s.geo d) = some (p, t) ∧ t.geo = s.geo ∧ t.disk = lastFree s.geo d ∧
      t.inodes.get 1 = some ⟨s.geo.rootCluster, 0, true⟩ ∧
        ∀ i < s.geo.fatLen, t.fatCache i = if i + 1 = s.geo.fatLen then 0 else 0xFFFFFFFF := by
  obtain ⟨hp, hpart, bpb, hbpb, hsig, hgeo, hmount⟩ := init_eq_some h
  have hstart : p.start < s.geo.fatStart := by
    rw [Geometry.fatStart, parseBpb_start hgeo]
    omega
  rw [mount, Option.map_eq_some_iff] at hmount
  obtain ⟨table, htable, -⟩ := hmount
  have htable' : readSectors (lastFree s.geo d) s.geo.fatStart s.geo.fatBytes =
      some (readBytes (lastFree s.geo d).bytes (512 * s.geo.fatStart) s.geo.fatBytes) :=
    readSectors_of_some htable rfl
  obtain ⟨t, hmounted, hgeo', hdisk, hroot, hfat⟩ : ∃ t,
      mount s.geo (lastFree s.geo d) = some t ∧ t.geo = s.geo ∧ t.disk = lastFree s.geo d ∧
        t.inodes.get 1 = some ⟨s.geo.rootCluster, 0, true⟩ ∧
          t.fatCache = fatOfBytes
            (readBytes (lastFree s.geo d).bytes (512 * s.geo.fatStart) s.geo.fatBytes) := by
    rw [mount, htable', Option.map_some]
    exact ⟨_, rfl, rfl, rfl, rfl, rfl⟩
  have hpresent : (lastFree s.geo d).present = true := rfl
  refine ⟨t, ?_, hgeo', hdisk, hroot, fun i hi => hfat ▸ fatOfBytes_lastFree hi⟩
  rw [init, hpresent, findFat32Partition_lastFree hpart hp (by omega)]
  simp only [readSectors_lastFree hbpb hp hstart, hsig, Bool.true_eq_false, if_false, hgeo,
    hmounted, Option.map_some]

/-- When the table has an entry for a cluster behind the partition, the same boot
parameters allow a volume on which the first `mkdir` writes behind the partition. -/
theorem exists_outside {p : Partition} {s : Fat32} (h : init d = some (p, s))
    (hr : 0 < s.geo.rsvdSecCnt) (hover : p.stop < s.geo.dataStop)
    (upper : List UInt8 → List UInt8) (name : List UInt8) :
    ∃ t, init (lastFree s.geo d) = some (p, t) ∧ t.geo = s.geo ∧
      ∃ c ∈ (Op.mkdir 1 name).calls upper t, ∃ n, c.Covers n ∧ ¬ p.Contains n := by
  obtain ⟨t, hinit, hgeo, hdisk, hroot, hfat⟩ := init_lastFree h hr
  refine ⟨t, hinit, hgeo, ?_⟩
  rw [← hgeo] at hover hdisk hroot hfat
  have hlen := t.geo.fatLen_eq
  have hsz := t.geo.fatSz32_pos
  have hfind : findEntry (t.readDirRaw t.geo.rootCluster) (toShortName upper name) = none := by
    refine List.find?_eq_none.2 fun e he => ?_
    have hlive := readDirClusters_lastFree hdisk _ e he
    rw [RawDirEntry.isLive, ← Bool.not_or] at hlive
    rw [hlive, Bool.false_and]
    decide
  -- the only free entry is the last one
  obtain ⟨c, u, halloc⟩ : ∃ c u, t.allocCluster = some (c, u) := by
    cases halloc : t.allocCluster with
    | some r => exact ⟨r.1, r.2, rfl⟩
    | none =>
      rw [allocCluster, Option.map_eq_none_iff, List.find?_eq_none] at halloc
      have hmem : t.geo.fatLen - 1 ∈ List.range' 2 (t.geo.fatLen - 2) := by
        rw [List.mem_range'_1]
        omega
      refine absurd ?_ (halloc _ hmem)
      rw [hfat _ (by omega), if_pos (by omega)]
      decide
  obtain ⟨hvalid, hfree, rfl⟩ := allocCluster_spec halloc
  obtain ⟨h2, hlt⟩ := Geometry.validCluster_iff.1 hvalid
  have hlast : c + 1 = t.geo.fatLen := by
    by_contra hne
    rw [hfat c hlt, if_neg hne] at hfree
    cases hfree
  have hspc := t.geo.sectorsPerCluster_pos
  have hbpc := t.geo.bytesPerCluster_eq
  have hstop : t.geo.clusterToLba c + t.geo.sectorsPerCluster = t.geo.dataStop := by
    have hcount : t.geo.fatLen - 2 = c - 2 + 1 := by omega
    rw [Geometry.clusterToLba, Geometry.dataStop, hcount, Nat.add_mul, Nat.one_mul, Nat.add_assoc]
  -- and the first call writes the cluster of that entry
  obtain ⟨buf, rest, hbuf, hcalls⟩ : ∃ buf rest, buf.length = t.geo.bytesPerCluster ∧
      (Op.mkdir 1 name).calls upper t = (t.setFat c fatEoc).writeClusterCalls c buf ++ rest := by
    show ∃ buf rest, _ ∧ t.mkdirCalls upper 1 name = _
    rw [mkdirCalls, hroot]
    simp only [Bool.true_eq_false, if_false, hfind, halloc]
    have hdots (e e' : RawDirEntry) :
        (patch (patch (List.replicate t.geo.bytesPerCluster 0) 0 e.pack) 32 e'.pack).length =
          t.geo.bytesPerCluster := by
      have hfirst : (patch (List.replicate t.geo.bytesPerCluster 0) 0 e.pack).length =
          t.geo.bytesPerCluster := by
        rw [patch_length (by rw [List.length_replicate, RawDirEntry.pack_length]; omega),
          List.length_replicate]
      rw [patch_length (by rw [hfirst, RawDirEntry.pack_length]; omega), hfirst]
    exact ⟨_, _, hdots _ _, rfl⟩
  have hcall : (t.setFat c fatEoc).writeClusterCalls c buf = [⟨t.geo.clusterToLba c, buf⟩] := by
    have htake : buf.take t.geo.bytesPerCluster = buf := List.take_of_length_le (by omega)
    have hfull : ¬ buf.length < t.geo.bytesPerCluster := by omega
    exact (if_neg hfull).trans (congrArg (fun l => [Call.mk (t.geo.clusterToLba c) l]) htake)
  refine ⟨⟨t.geo.clusterToLba c, buf⟩, ?_, t.geo.dataStop - 1, ?_, ?_⟩
  · rw [hcalls, hcall]
    exact List.mem_cons_self
  · have hsectors : buf.length / 512 = t.geo.sectorsPerCluster := by
      rw [hbuf, hbpc, Nat.mul_div_cancel _ (by decide)]
    show t.geo.clusterToLba c ≤ _ ∧ _ < t.geo.clusterToLba c + buf.length / 512
    omega
  · unfold Partition.Contains
    omega

/-- The image of the disk builder, with a full table but for the last entry. -/
def fullImage : Disk := lastFree (Build.imageGeometry Build.barePartition)
  (Build.bareDisk Build.oneByteFiles)

theorem not_inside_fullImage :
    ∃ s, init fullImage = some (Build.barePartition, s) ∧
      ∃ c ∈ (Op.mkdir 1 [0x41]).calls id s,
        ∃ n, c.Covers n ∧ ¬ Build.barePartition.Contains n := by
  have h := Build.init_image Build.oneByteFiles_fits (Build.onDisk_bareDisk Build.oneByteFiles)
  obtain ⟨t, hinit, -, hout⟩ := exists_outside h (by decide) (by decide) id [0x41]
  exact ⟨t, hinit, hout⟩

end lastFree

end AeroOS.Fat32
