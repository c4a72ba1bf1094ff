import AeroOS.Build.Image
import AeroOS.Fat32.Slots
import Mathlib.Data.List.GetD

/-!
# What the disk image holds

* `Stored m a l`: the bytes `l` lie at address `a`.
* `makeRootCluster_eq`: the root directory is a row of packed entries.
* `fatOfBytes_makeFat`: the table entry of each cluster.
* `clusterLoop_eq`: the sysutils clusters are the file, filled up with zeros.
-/

namespace AeroOS.Build

open Bytes Fat32

/-! ## Stored ranges -/

/-- The bytes `l` lie at address `a`. -/
def Stored (m : Store) (a : Nat) (l : List UInt8) : Prop :=
  ∀ k < l.length, m (a + k) = l.getD k 0

namespace Stored

variable {m : Store} {a : Nat} {l k : List UInt8}

theorem left (h : Stored m a (l ++ k)) : Stored m a l := fun i hi => by
  rw [h i (by rw [List.length_append]; omega), List.getD_append _ _ _ _ hi]

theorem right (h : Stored m a (l ++ k)) : Stored m (a + l.length) k := fun i hi => by
  rw [Nat.add_assoc, h (l.length + i) (by rw [List.length_append]; omega),
    List.getD_append_right _ _ _ _ (by omega), Nat.add_sub_cancel_left]

theorem readBytes (h : Stored m a l) : Bytes.readBytes m a l.length = l :=
  readBytes_eq_of_getD rfl h

end Stored

@[simp] theorem length_zeros (n : Nat) : (zeros n).length = n :=
  List.length_replicate

theorem zeros_add (n k : Nat) : zeros (n + k) = zeros n ++ zeros k :=
  List.replicate_append_replicate.symm

theorem drop_zeros (n k : Nat) : (zeros n).drop k = zeros (n - k) :=
  List.drop_replicate

@[simp] theorem zeros_zero : zeros 0 = [] := rfl

/-! ## Assignments -/

theorem patch_append_left {l p : List UInt8} {o : Nat} (k : List UInt8)
    (h : o + p.length ≤ l.length) : patch (l ++ k) o p = patch l o p ++ k := by
  rw [patch, patch, List.take_append_of_le_length (by omega),
    List.drop_append_of_le_length h, List.append_assoc, List.append_assoc, List.append_assoc]

theorem patch_append_right (l k p : List UInt8) (o : Nat) :
    patch (l ++ k) (l.length + o) p = l ++ patch k o p := by
  rw [patch, patch, Nat.add_assoc, List.take_length_add_append, List.drop_length_add_append,
    List.append_assoc, List.append_assoc, List.append_assoc]

/-- Every assignment stays inside a buffer of `n` bytes. -/
def Within (n : Nat) (as : List (Nat × List UInt8)) : Prop :=
  ∀ a ∈ as, a.1 + a.2.length ≤ n

theorem assign_append (buf : List UInt8) (as bs : List (Nat × List UInt8)) :
    assign buf (as ++ bs) = assign (assign buf as) bs :=
  List.foldl_append

theorem assign_length {buf : List UInt8} {as : List (Nat × List UInt8)}
    (h : Within buf.length as) : (assign buf as).length = buf.length := by
  induction as generalizing buf with
  | nil => rfl
  | cons a as ih =>
    have hlen : (patch buf a.1 a.2).length = buf.length :=
      patch_length (h a List.mem_cons_self)
    have hrest : Within (patch buf a.1 a.2).length as := by
      rw [hlen]
      exact fun b hb => h b (List.mem_cons_of_mem _ hb)
    exact (ih hrest).trans hlen

theorem assign_left {l : List UInt8} (k : List UInt8) {as : List (Nat × List UInt8)}
    (h : Within l.length as) : assign (l ++ k) as = assign l as ++ k := by
  induction as generalizing l with
  | nil => rfl
  | cons a as ih =>
    have hlen : (patch l a.1 a.2).length = l.length := patch_length (h a List.mem_cons_self)
    have hrest : Within (patch l a.1 a.2).length as := by
      rw [hlen]
      exact fun b hb => h b (List.mem_cons_of_mem _ hb)
    calc assign (l ++ k) (a :: as) = assign (patch (l ++ k) a.1 a.2) as := rfl
      _ = assign (patch l a.1 a.2 ++ k) as := by
        rw [patch_append_left k (h a List.mem_cons_self)]
      _ = assign (patch l a.1 a.2) as ++ k := ih hrest

/-- The assignments moved up by `n`. -/
def shift (n : Nat) (as : List (Nat × List UInt8)) : List (Nat × List UInt8) :=
  as.map fun a => (n + a.1, a.2)

theorem assign_right (l k : List UInt8) (as : List (Nat × List UInt8)) :
    assign (l ++ k) (shift l.length as) = l ++ assign k as := by
  induction as generalizing k with
  | nil => rfl
  | cons a as ih =>
    calc assign (l ++ k) (shift l.length (a :: as))
        = assign (patch (l ++ k) (l.length + a.1) a.2) (shift l.length as) := rfl
      _ = assign (l ++ patch k a.1 a.2) (shift l.length as) := by rw [patch_append_right]
      _ = l ++ assign k (a :: as) := ih _

/-- Assignments to the front part and to the rest of a buffer. -/
theorem assign_split {l : List UInt8} (k : List UInt8) {as : List (Nat × List UInt8)}
    (bs : List (Nat × List UInt8)) (h : Within l.length as) :
    assign (l ++ k) (as ++ shift l.length bs) = assign l as ++ assign k bs := by
  rw [assign_append, assign_left k h, ← assign_length h, assign_right]

/-! ## The root directory -/

/-- The entry of a file. -/
def fileRecord (name : List UInt8) (h : name.length = 11) (cluster size : Nat) : RawDirEntry where
  name := name
  attr := 0x20
  ntRes := 0
  crtTimeTenth := 0x10
  crtTime := 0x8A17
  crtDate := 0x4A4B
  lstAccDate := 0x4A4B
  fstClusHi := 0
  wrtTime := 0x8A17
  wrtDate := 0x4A4B
  fstClusLo := cluster
  fileSize := size
  name_length := h

/-- The volume label. -/
def labelRecord : RawDirEntry where
  name := [0x41, 0x45, 0x52, 0x4F, 0x53, 0x20, 0x44, 0x49, 0x53, 0x4B, 0x20]
  attr := 0x08
  ntRes := 0
  crtTimeTenth := 0x10
  crtTime := 0x8A17
  crtDate := 0x4A4B
  lstAccDate := 0
  fstClusHi := 0
  wrtTime := 0
  wrtDate := 0
  fstClusLo := 0
  fileSize := 0
  name_length := rfl

/-- The entries of the root directory. -/
def rootRecords (c : Contents) : List RawDirEntry :=
  [labelRecord,
    fileRecord helloName rfl 3 c.hello.length,
    fileRecord forktestName rfl 4 c.forktest.length,
    fileRecord sysutilsName rfl SYSUTILS_START_CLUSTER c.sysutils.length,
    fileRecord readmeName rfl (SYSUTILS_START_CLUSTER + sysutilsClusters c) c.readme.length]

theorem within_fileEntry {name : List UInt8} (h : name.length = 11) (cluster size : Nat) :
    Within 32 (fileEntry 0 name cluster size) := by
  simp [Within, fileEntry, h]

theorem shift_fileEntry (n e : Nat) (name : List UInt8) (cluster size : Nat) :
    shift n (fileEntry e name cluster size) = fileEntry (n + e) name cluster size := by
  simp [shift, fileEntry, Nat.add_assoc]

/-- The assignments of a file behind the name. -/
def fileFields (cluster size : Nat) : List (Nat × List UInt8) :=
  [(0, [0x20]), (2, [0x10]), (3, leBytes 2 0x8A17), (5, leBytes 2 0x4A4B),
    (7, leBytes 2 0x4A4B), (11, leBytes 2 0x8A17), (13, leBytes 2 0x4A4B),
    (15, leBytes 2 cluster), (17, leBytes 4 size)]

theorem shift_append (n : Nat) (as bs : List (Nat × List UInt8)) :
    shift n (as ++ bs) = shift n as ++ shift n bs :=
  List.map_append

theorem within_labelEntry : Within 32 labelEntry := by
  simp [Within, labelEntry]

/-- Assignments to the first slot and to the slots behind it. -/
theorem assign_slot (n : Nat) {as : List (Nat × List UInt8)} (bs : List (Nat × List UInt8))
    (h : Within 32 as) :
    assign (zeros (32 + n)) (as ++ shift 32 bs) =
      assign (zeros 32) as ++ assign (zeros n) bs := by
  rw [zeros_add]
  exact assign_split (zeros n) bs h

/-- A slot that the assignments of a file fill. -/
theorem assign_fileEntry {name : List UInt8} (h : name.length = 11) (cluster size : Nat) :
    assign (zeros 32) (fileEntry 0 name cluster size) = (fileRecord name h cluster size).pack := by
  have hname : patch (zeros 32) 0 name = name ++ zeros 21 := by
    simp [patch, zeros, h]
  have hfields : assign (zeros 21) (fileFields cluster size) =
      [0x20, 0, 0x10] ++ leBytes 2 0x8A17 ++ leBytes 2 0x4A4B ++ leBytes 2 0x4A4B ++ leBytes 2 0 ++
        leBytes 2 0x8A17 ++ leBytes 2 0x4A4B ++ leBytes 2 cluster ++ leBytes 4 size := by
    simp [assign, fileFields, patch, zeros, leBytes, List.replicate]
  have hentry : fileEntry 0 name cluster size = (0, name) :: shift 11 (fileFields cluster size) :=
    by simp [fileEntry, fileFields, shift]
  calc assign (zeros 32) (fileEntry 0 name cluster size)
      = assign (patch (zeros 32) 0 name) (shift 11 (fileFields cluster size)) := by
        rw [hentry, assign, List.foldl_cons, assign]
    _ = assign (name ++ zeros 21) (shift name.length (fileFields cluster size)) := by rw [hname, h]
    _ = name ++ assign (zeros 21) (fileFields cluster size) := assign_right _ _ _
    _ = (fileRecord name h cluster size).pack := by
      rw [hfields]
      simp only [RawDirEntry.pack, fileRecord, List.append_assoc]

/-- The root directory is the row of its entries. -/
theorem makeRootCluster_eq (c : Contents) :
    makeRootCluster c = (rootRecords c).flatMap RawDirEntry.pack ++ zeros 352 := by
  have hfile {name : List UInt8} (h : name.length = 11) (cluster size n : Nat)
      (bs : List (Nat × List UInt8)) :
      assign (zeros (32 + n)) (fileEntry 0 name cluster size ++ shift 32 bs) =
        (fileRecord name h cluster size).pack ++ assign (zeros n) bs := by
    rw [assign_slot n bs (within_fileEntry h cluster size), assign_fileEntry h]
  have hlabel : assign (zeros 32) labelEntry = labelRecord.pack := by
    decide +kernel
  have hcat : labelEntry ++
      fileEntry 32 helloName 3 c.hello.length ++
      fileEntry 64 forktestName 4 c.forktest.length ++
      fileEntry 96 sysutilsName SYSUTILS_START_CLUSTER c.sysutils.length ++
      fileEntry 128 readmeName (SYSUTILS_START_CLUSTER + sysutilsClusters c) c.readme.length =
    labelEntry ++ shift 32 (fileEntry 0 helloName 3 c.hello.length ++
      shift 32 (fileEntry 0 forktestName 4 c.forktest.length ++
        shift 32 (fileEntry 0 sysutilsName SYSUTILS_START_CLUSTER c.sysutils.length ++
          shift 32 (fileEntry 0 readmeName (SYSUTILS_START_CLUSTER + sysutilsClusters c)
            c.readme.length ++ shift 32 [])))) := by
    simp only [shift_append, shift_fileEntry, List.append_assoc]
    simp [shift]
  rw [makeRootCluster, hcat, assign_slot 480 _ within_labelEntry, hlabel, hfile rfl _ _ 448,
    hfile rfl _ _ 416, hfile rfl _ _ 384, hfile rfl _ _ 352]
  simp only [rootRecords, List.flatMap_cons, List.flatMap_nil, List.append_nil, List.append_assoc]
  rfl

/-! ## The table -/

/-- An entry of the table after a word is set. -/
theorem fatOfBytes_patch {l : List UInt8} {j : Nat} (v i : Nat) (hj : j * 4 + 4 ≤ l.length) :
    fatOfBytes (patch l (j * 4) (leBytes 4 v)) i =
      if i = j then v % 2 ^ 32 else fatOfBytes l i := by
  unfold fatOfBytes
  by_cases h : i = j
  · have hword : readBytes ((patch l (j * 4) (leBytes 4 v)).getD · 0) (j * 4) 4 = leBytes 4 v :=
      readBytes_eq_of_getD (leBytes_length 4 v) fun k hk =>
        patch_getD_in (by omega) (by rw [leBytes_length]; exact hk) 0
    rw [if_pos h, h, hword, leNat_leBytes]
    rfl
  · rw [if_neg h]
    refine congrArg leNat (readBytes_congr fun x hx hlt => patch_getD_out ?_ ?_ 0)
    · rw [leBytes_length]
      exact hj
    · rw [leBytes_length]
      omega

/-- The words set one after another. -/
def setWords (l : List UInt8) (ws : List (Nat × Nat)) : List UInt8 :=
  assign l (ws.map fun w => (w.1 * 4, leBytes 4 w.2))

/-- A word that is not set stays. -/
theorem fatOfBytes_setWords_of_notMem {l : List UInt8} {ws : List (Nat × Nat)} {i : Nat}
    (hws : ∀ w ∈ ws, w.1 * 4 + 4 ≤ l.length) (hi : ∀ w ∈ ws, w.1 ≠ i) :
    fatOfBytes (setWords l ws) i = fatOfBytes l i := by
  induction ws generalizing l with
  | nil => rfl
  | cons w ws ih =>
    obtain ⟨hw, hws⟩ := List.forall_mem_cons.1 hws
    obtain ⟨hne, hi⟩ := List.forall_mem_cons.1 hi
    have hlen : (patch l (w.1 * 4) (leBytes 4 w.2)).length = l.length :=
      patch_length (by rw [leBytes_length]; exact hw)
    have hrest := ih (l := patch l (w.1 * 4) (leBytes 4 w.2)) (by rw [hlen]; exact hws) hi
    rw [fatOfBytes_patch w.2 i hw, if_neg (Ne.symm hne)] at hrest
    exact hrest

/-- Each word holds what it was set to, when none is set twice. -/
theorem fatOfBytes_setWords_of_mem {l : List UInt8} {ws : List (Nat × Nat)} {i v : Nat}
    (hws : ∀ w ∈ ws, w.1 * 4 + 4 ≤ l.length) (hnd : (ws.map Prod.fst).Nodup) (h : (i, v) ∈ ws) :
    fatOfBytes (setWords l ws) i = v % 2 ^ 32 := by
  induction ws generalizing l with
  | nil => cases h
  | cons w ws ih =>
    obtain ⟨hw, hrest⟩ := List.forall_mem_cons.1 hws
    rw [List.map_cons, List.nodup_cons] at hnd
    have hlen : (patch l (w.1 * 4) (leBytes 4 w.2)).length = l.length :=
      patch_length (by rw [leBytes_length]; exact hw)
    rcases List.mem_cons.1 h with rfl | hm
    · refine (fatOfBytes_setWords_of_notMem (l := patch l (i * 4) (leBytes 4 v))
        (by rw [hlen]; exact hrest) fun w' hw' he => hnd.1 ?_).trans ?_
      · exact List.mem_map.2 ⟨w', hw', he⟩
      · rw [fatOfBytes_patch v i hw, if_pos rfl]
    · exact ih (l := patch l (w.1 * 4) (leBytes 4 w.2)) (by rw [hlen]; exact hrest) hnd.2 hm

theorem fatEntries_fst (c : Contents) :
    (fatEntries c).map Prod.fst = List.range (SYSUTILS_START_CLUSTER + sysutilsClusters c + 1) := by
  rw [List.range_succ, List.range_add, fatEntries, List.map_append, List.map_append, List.map_map]
  rfl

/-- The contents fit in the data region. -/
structure Contents.Fits (c : Contents) : Prop where
  hello_le : c.hello.length ≤ 512
  forktest_le : c.forktest.length ≤ 512
  readme_le : c.readme.length ≤ 512
  sysutils_pos : 1 ≤ c.sysutils.length
  clusters_le : FAT32_DATA_START + (3 + sysutilsClusters c + 1) ≤ FAT32_SECTORS

namespace Contents.Fits

variable {c : Contents} (hc : c.Fits)

include hc

theorem clusters_pos : 0 < sysutilsClusters c := by
  have := hc.sysutils_pos
  unfold sysutilsClusters
  omega

theorem clusters_lt : SYSUTILS_START_CLUSTER + sysutilsClusters c < 16102 := by
  have := hc.clusters_le
  simp only [FAT32_DATA_START, FAT32_SECTORS, SYSUTILS_START_CLUSTER] at *
  omega

/-- The table entry that `make_fat` sets for a cluster. -/
theorem fatOfBytes_makeFat {i v : Nat} (h : (i, v) ∈ fatEntries c) (hv : v < 2 ^ 32) :
    fatOfBytes (makeFat c) i = v := by
  have hlt := hc.clusters_lt
  have hnd : ((fatEntries c).map Prod.fst).Nodup := by
    rw [fatEntries_fst]
    exact List.nodup_range
  refine (fatOfBytes_setWords_of_mem (fun w hw => ?_) hnd h).trans (Nat.mod_eq_of_lt hv)
  have hmem : w.1 ∈ List.range (SYSUTILS_START_CLUSTER + sysutilsClusters c + 1) := by
    rw [← fatEntries_fst]
    exact List.mem_map_of_mem hw
  have := List.mem_range.1 hmem
  simp only [length_zeros, FAT32_FAT_SZ]
  omega

theorem fat_first {i : Nat} (h : i = 2 ∨ i = 3 ∨ i = 4) : fatOfBytes (makeFat c) i = EOC := by
  refine hc.fatOfBytes_makeFat ?_ (by decide)
  rcases h with rfl | rfl | rfl <;> simp [fatEntries]

theorem fat_sysutils {i : Nat} (h : i < sysutilsClusters c) :
    fatOfBytes (makeFat c) (SYSUTILS_START_CLUSTER + i) =
      if i + 1 = sysutilsClusters c then EOC else SYSUTILS_START_CLUSTER + i + 1 := by
  have hlt := hc.clusters_lt
  refine hc.fatOfBytes_makeFat ?_ ?_
  · unfold fatEntries
    exact List.mem_append_left _ (List.mem_append_right _
      (List.mem_map.2 ⟨i, List.mem_range.2 h, rfl⟩))
  · split
    · decide
    · omega

theorem fat_readme :
    fatOfBytes (makeFat c) (SYSUTILS_START_CLUSTER + sysutilsClusters c) = EOC :=
  hc.fatOfBytes_makeFat (List.mem_append_right _ List.mem_cons_self) (by decide)

end Contents.Fits

/-! ## Files -/

theorem oneCluster_eq (bytes : List UInt8) :
    oneCluster bytes = bytes ++ zeros (512 - bytes.length) := by
  rw [oneCluster, patch, List.take_zero, List.nil_append, Nat.zero_add, drop_zeros]

/-- The clusters of a file: the file, and zeros. -/
theorem clusterLoop_eq {n : Nat} {bytes : List UInt8} (h : bytes.length ≤ n * 512) :
    clusterLoop n bytes = bytes ++ zeros (n * 512 - bytes.length) := by
  induction n generalizing bytes with
  | zero =>
    have : bytes = [] := List.eq_nil_of_length_eq_zero (by omega)
    rw [this]
    rfl
  | succ n ih =>
    rw [clusterLoop]
    by_cases hlast : bytes.length ≤ 512
    · have hmin : min bytes.length 512 = bytes.length := Nat.min_eq_left hlast
      have hrest : 512 - bytes.length + n * 512 = (n + 1) * 512 - bytes.length := by omega
      simp only [hmin, List.take_length, List.drop_length]
      rw [oneCluster_eq, ih (by simp), List.nil_append, List.append_assoc, List.length_nil,
        Nat.sub_zero, ← zeros_add, hrest]
    · have hmin : min bytes.length 512 = 512 := Nat.min_eq_right (by omega)
      have htake : (bytes.take 512).length = 512 := by
        rw [List.length_take]
        omega
      have hrest : n * 512 - (bytes.length - 512) = (n + 1) * 512 - bytes.length := by omega
      simp only [hmin]
      rw [oneCluster_eq, ih (by rw [List.length_drop]; omega), htake, Nat.sub_self, zeros_zero,
        List.append_nil, ← List.append_assoc, List.take_append_drop, List.length_drop, hrest]

end AeroOS.Build
