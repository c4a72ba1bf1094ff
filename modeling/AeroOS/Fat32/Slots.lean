import Mathlib.Data.List.Find
import AeroOS.Fat32.Table

/-!
# FAT32: directory slots by address

The four loops over directory slots read a cluster into a buffer and go over
the buffer.  On a sound volume each is a search over the addresses of the
slots, with a test on the entry stored there.

* `slotAddrs` lists the slots of a directory, `entryAt` decodes one.
* `readDirRaw_eq`, `writeFreeSlot_eq`, `removeDirEntry_eq` and
  `updateSizeRecursive_eq` are the four loops.
* `Slot.disjoint`: two slots do not meet.
-/

namespace AeroOS.Fat32

open Bytes

/-! ## Entries in a store -/

namespace RawDirEntry

/-- The first byte of an entry. -/
def first (e : RawDirEntry) : UInt8 := e.name.getD 0 0

/-- An entry that `update_size_recursive` looks at. -/
def isSized (e : RawDirEntry) : Bool := !(e.isFree || e.attr == attrLfn) && e.first != 0x2E

/-- The subdirectory that `update_size_recursive` notes for an entry. -/
def subdir? (e : RawDirEntry) : Option Nat :=
  if e.isSized && e.isDir && 2 ≤ e.firstCluster then some e.firstCluster else none

theorem ofBytes_congr {m m' : Store} {a a' : Nat} (h : ∀ i, i < 32 → m (a + i) = m' (a' + i)) :
    ofBytes m a = ofBytes m' a' := by
  have hr : ∀ o n, o + n ≤ 32 → readBytes m (a + o) n = readBytes m' (a' + o) n := by
    intro o n hon
    apply List.ext_getElem?
    intro i
    by_cases hi : i < n
    · rw [readBytes_getElem? _ _ hi, readBytes_getElem? _ _ hi, Nat.add_assoc, Nat.add_assoc,
        h _ (by omega)]
    · rw [List.getElem?_eq_none (by simp; omega), List.getElem?_eq_none (by simp; omega)]
  have h0 := hr 0 11 (by omega)
  simp only [Nat.add_zero] at h0
  simp only [ofBytes, h 11 (by omega), h 12 (by omega), h 13 (by omega), hr 14 2 (by omega),
    hr 16 2 (by omega), hr 18 2 (by omega), hr 20 2 (by omega), hr 22 2 (by omega),
    hr 24 2 (by omega), hr 26 2 (by omega), hr 28 4 (by omega), h0]

@[simp] theorem ofBytes_first (m : Store) (a : Nat) : (ofBytes m a).first = m a :=
  readBytes_getD m a (by omega) 0

theorem isFree_eq (e : RawDirEntry) : e.isFree = (e.first == 0x00 || e.first == 0xE5) := rfl

@[simp] theorem pack_length (e : RawDirEntry) : e.pack.length = 32 := by
  simp [pack, e.name_length]

/-- The entry with its words narrowed to the widths they are stored in. -/
def stored (e : RawDirEntry) : RawDirEntry :=
  { e with
    crtTime := e.crtTime % 2 ^ 16
    crtDate := e.crtDate % 2 ^ 16
    lstAccDate := e.lstAccDate % 2 ^ 16
    fstClusHi := e.fstClusHi % 2 ^ 16
    wrtTime := e.wrtTime % 2 ^ 16
    wrtDate := e.wrtDate % 2 ^ 16
    fstClusLo := e.fstClusLo % 2 ^ 16
    fileSize := e.fileSize % 2 ^ 32 }

/-- The entries that `create` and `mkdir` write fit. -/
theorem stored_new (name : List UInt8) (h : name.length = 11) (attr : UInt8) (cluster : Nat) :
    (new name h attr cluster).stored = new name h attr cluster := by
  simp [stored, new]

theorem firstCluster_new {name : List UInt8} {h : name.length = 11} {attr : UInt8}
    {cluster : Nat} (hc : cluster < 2 ^ 32) :
    (new name h attr cluster).firstCluster = cluster := by
  simp only [firstCluster, new]
  omega

/-- An entry that was written is read back. -/
theorem ofBytes_writeBytes_pack (m : Store) (a : Nat) (e : RawDirEntry) :
    ofBytes (writeBytes m a e.pack) a = e.stored := by
  -- every field is a slice of `pack`
  have hread : ∀ o n, o + n ≤ 32 →
      readBytes (writeBytes m a e.pack) (a + o) n = (e.pack.drop o).take n := by
    intro o n hon
    have := readBytes_drop_take (writeBytes m a e.pack) a (n := e.pack.length) (i := o) (k := n)
      (by simpa using hon)
    rw [← this, readBytes_writeBytes]
  have hbyte : ∀ o, o < 32 → writeBytes m a e.pack (a + o) = e.pack.getD o 0 := fun o ho =>
    writeBytes_in m a (by simpa using ho) 0
  have hname := hread 0 11 (by omega)
  rw [Nat.add_zero] at hname
  have hn := e.name_length
  have hpack : e.pack = e.name ++ ([e.attr, e.ntRes, e.crtTimeTenth] ++ leBytes 2 e.crtTime ++
      leBytes 2 e.crtDate ++ leBytes 2 e.lstAccDate ++ leBytes 2 e.fstClusHi ++
      leBytes 2 e.wrtTime ++ leBytes 2 e.wrtDate ++ leBytes 2 e.fstClusLo ++
      leBytes 4 e.fileSize) := by
    simp [pack]
  have hd : ∀ k, e.pack.drop (11 + k) = ([e.attr, e.ntRes, e.crtTimeTenth] ++
      leBytes 2 e.crtTime ++ leBytes 2 e.crtDate ++ leBytes 2 e.lstAccDate ++
      leBytes 2 e.fstClusHi ++ leBytes 2 e.wrtTime ++ leBytes 2 e.wrtDate ++
      leBytes 2 e.fstClusLo ++ leBytes 4 e.fileSize).drop k := by
    intro k
    rw [hpack, ← List.drop_drop, List.drop_left' hn]
  have hg : ∀ k, e.pack.getD (11 + k) 0 = (e.pack.drop (11 + k)).getD 0 0 := by
    intro k
    simp [List.getD]
  have e1 : (e.pack.drop 0).take 11 = e.name := by
    rw [List.drop_zero, hpack, List.take_left' hn]
  simp only [ofBytes, stored, hname, e1, hread 14 2 (by omega), hread 16 2 (by omega),
    hread 18 2 (by omega), hread 20 2 (by omega), hread 22 2 (by omega), hread 24 2 (by omega),
    hread 26 2 (by omega), hread 28 4 (by omega), hbyte 11 (by omega), hbyte 12 (by omega),
    hbyte 13 (by omega), hg 0, hg 1, hg 2, hd 0, hd 1, hd 2, hd 3, hd 5, hd 7, hd 9, hd 11,
    hd 13, hd 15, hd 17]
  simp [leBytes, leNat]
  omega

/-- Two stores that agree on an entry but for its size. -/
theorem ofBytes_congr_key {m m' : Store} {a : Nat} (h : ∀ i, i < 28 → m (a + i) = m' (a + i)) :
    ofBytes m a = { ofBytes m' a with fileSize := (ofBytes m a).fileSize } := by
  have hr : ∀ o n, o + n ≤ 28 → readBytes m (a + o) n = readBytes m' (a + o) n := by
    intro o n hon
    refine readBytes_congr fun x hx hx' => ?_
    obtain ⟨i, rfl⟩ : ∃ i, x = a + i := ⟨x - a, by omega⟩
    exact h i (by omega)
  have h0 := hr 0 11 (by omega)
  simp only [Nat.add_zero] at h0
  simp only [ofBytes, h 11 (by omega), h 12 (by omega), h 13 (by omega), hr 14 2 (by omega),
    hr 16 2 (by omega), hr 18 2 (by omega), hr 20 2 (by omega), hr 22 2 (by omega),
    hr 24 2 (by omega), hr 26 2 (by omega), h0]

end RawDirEntry

/-! ## The slots of a directory -/

/-- The addresses of the slots of some clusters. -/
def Geometry.slotsOf (g : Geometry) (cs : List Nat) : List Nat :=
  cs.flatMap fun c => (List.range (g.bytesPerCluster / 32)).map fun i => g.clusterAddr c + i * 32

/-- The addresses of the slots of a directory. -/
def slotAddrs (s : Fat32) (dir : Nat) : List Nat := s.geo.slotsOf (s.clusterChain dir)

/-- The entry stored at an address. -/
def entryAt (s : Fat32) (a : Nat) : RawDirEntry := RawDirEntry.ofBytes s.disk.bytes a

namespace Geometry

variable {g : Geometry} {cs : List Nat} {a b : Nat}

theorem mem_slotsOf :
    a ∈ g.slotsOf cs ↔
      ∃ c ∈ cs, ∃ i, i < g.bytesPerCluster / 32 ∧ a = g.clusterAddr c + i * 32 := by
  simp only [slotsOf, List.mem_flatMap, List.mem_map, List.mem_range]
  constructor
  · rintro ⟨c, hc, i, hi, rfl⟩
    exact ⟨c, hc, i, hi, rfl⟩
  · rintro ⟨c, hc, i, hi, rfl⟩
    exact ⟨c, hc, i, hi, rfl⟩

theorem slotsOf_append (cs ds : List Nat) :
    g.slotsOf (cs ++ ds) = g.slotsOf cs ++ g.slotsOf ds :=
  List.flatMap_append

/-- A slot lies in one cluster of its directory with all its bytes. -/
theorem inCluster_of_mem_slotsOf (h : a ∈ g.slotsOf cs) :
    ∃ c ∈ cs, ∀ i, i < 32 → g.InCluster c (a + i) := by
  obtain ⟨c, hc, i, hi, rfl⟩ := mem_slotsOf.mp h
  refine ⟨c, hc, fun j hj => ?_⟩
  unfold InCluster
  omega

/-- Slots are aligned. -/
theorem slot_aligned (h : a ∈ g.slotsOf cs) : ∃ k, a = g.dataAddr + 32 * k := by
  obtain ⟨c, -, i, -, rfl⟩ := mem_slotsOf.mp h
  refine ⟨(c - 2) * (g.sectorsPerCluster * 16) + i, ?_⟩
  rw [clusterAddr_eq, bytesPerCluster_eq, show g.sectorsPerCluster * 512 =
    32 * (g.sectorsPerCluster * 16) by omega, ← Nat.mul_assoc, Nat.mul_comm (c - 2) 32,
    Nat.mul_assoc]
  omega

/-- Two slots do not meet. -/
theorem slot_disjoint {ds : List Nat} (ha : a ∈ g.slotsOf cs) (hb : b ∈ g.slotsOf ds)
    (hne : a ≠ b) : a + 32 ≤ b ∨ b + 32 ≤ a := by
  obtain ⟨k, rfl⟩ := slot_aligned ha
  obtain ⟨l, rfl⟩ := slot_aligned hb
  omega

end Geometry

/-! ## The loops as searches over addresses -/

/-- A slot of a cluster buffer is the slot of the store it was read from. -/
theorem readBytes_slot (m : Store) (a n : Nat) {i k : Nat} (hi : i < n / 32) (hk : k < 32) :
    (readBytes m a n).getD (i * 32 + k) 0 = m (a + i * 32 + k) := by
  rw [readBytes_getD m a (by omega), Nat.add_assoc]

theorem ofBytes_readBytes (m : Store) (a n : Nat) {i : Nat} (hi : i < n / 32) :
    RawDirEntry.ofBytes ((readBytes m a n).getD · 0) (i * 32) =
      RawDirEntry.ofBytes m (a + i * 32) :=
  RawDirEntry.ofBytes_congr fun _ hk => readBytes_slot m a n hi hk

/-- A search over the slots of a cluster buffer. -/
theorem find?_slots (p : RawDirEntry → Bool) (m : Store) (a n : Nat) {q : Nat → Bool}
    (hq : ∀ i, i < n / 32 → q i = p (RawDirEntry.ofBytes m (a + i * 32))) :
    ((List.range (n / 32)).find? q).map (fun i => a + i * 32) =
      ((List.range (n / 32)).map fun i => a + i * 32).find? fun x =>
        p (RawDirEntry.ofBytes m x) := by
  rw [List.find?_map]
  congr 1
  exact List.find?_congr fun i hi => hq i (List.mem_range.mp hi)

section scans

variable {s : Fat32}

theorem valid_clusterChain (s : Fat32) (d : Nat) :
    ∀ c ∈ s.clusterChain d, s.geo.validCluster c = true :=
  fun _ => valid_of_mem_chainOf

variable (hs : Sound s)

include hs

theorem readDirClusters_eq {cs : List Nat} (hcs : ∀ c ∈ cs, s.geo.validCluster c = true) :
    s.readDirClusters cs = (s.geo.slotsOf cs).map s.entryAt := by
  induction cs with
  | nil => rfl
  | cons c cs ih =>
    rw [readDirClusters, readCluster_eq hs (hcs c (by simp)),
      ih fun d hd => hcs d (List.mem_cons_of_mem c hd)]
    simp only [Geometry.slotsOf, List.flatMap_cons, List.map_append, List.map_map]
    congr 1
    refine List.map_congr_left fun i hi => ?_
    exact ofBytes_readBytes _ _ _ (List.mem_range.mp hi)

/-- `read_dir_raw` decodes the slots in order. -/
theorem readDirRaw_eq (d : Nat) : s.readDirRaw d = (s.slotAddrs d).map s.entryAt :=
  readDirClusters_eq hs (s.valid_clusterChain d)

/-- The first pass of `write_dir_entry` fills the first free slot. -/
theorem writeFreeSlot_eq (e : RawDirEntry) {cs : List Nat}
    (hcs : ∀ c ∈ cs, s.geo.validCluster c = true) :
    s.writeFreeSlot e cs =
      ((s.geo.slotsOf cs).find? fun a => (s.entryAt a).isFree).map fun a =>
        (.ok (), s.setBytes (writeBytes s.disk.bytes a e.pack)) := by
  induction cs with
  | nil => rfl
  | cons c cs ih =>
    have hc := hcs c (by simp)
    rw [writeFreeSlot, readCluster_eq hs hc]
    simp only
    have hfind := find?_slots RawDirEntry.isFree s.disk.bytes (s.geo.clusterAddr c)
      s.geo.bytesPerCluster (q := slotFree (readBytes s.disk.bytes (s.geo.clusterAddr c)
        s.geo.bytesPerCluster)) (fun i hi => by
          have := readBytes_slot s.disk.bytes (s.geo.clusterAddr c) s.geo.bytesPerCluster hi
            (show 0 < 32 by omega)
          rw [Nat.add_zero, Nat.add_zero] at this
          rw [slotFree, this, RawDirEntry.isFree_eq, RawDirEntry.ofBytes_first])
    rw [show s.geo.slotsOf (c :: cs) = _ ++ s.geo.slotsOf cs from List.flatMap_cons,
      List.find?_append]
    simp only [entryAt]
    rw [← hfind, slotCount]
    cases hf : (List.range (s.geo.bytesPerCluster / 32)).find? (slotFree (readBytes
        s.disk.bytes (s.geo.clusterAddr c) s.geo.bytesPerCluster)) with
    | none =>
      simp only [Option.map_none, Option.none_or]
      exact ih fun d hd => hcs d (List.mem_cons_of_mem c hd)
    | some i =>
      have hi : i < s.geo.bytesPerCluster / 32 := by
        simpa using List.mem_of_find?_eq_some hf
      simp only
      rw [writeCluster_patch hs hc (by rw [e.pack_length]; omega)]
      rfl

/-- The first slot that `remove_dir_entry` takes for the name, unless the end
mark comes first. -/
def removeFind (f : Nat → RawDirEntry) (short : List UInt8) : List Nat → Option Nat
  | [] => none
  | a :: as =>
    if (f a).first == 0x00 then none
    else if (f a).first == 0xE5 || (f a).attr == attrLfn || (f a).name != short then
      removeFind f short as
    else some a

omit hs in
/-- The inner loop of `remove_dir_entry` is the search in its cluster. -/
theorem removeScan_eq (m : Store) (b n : Nat) (short : List UInt8) {l : List Nat}
    (hl : ∀ i ∈ l, i < n / 32) (rest : List Nat) :
    removeFind (RawDirEntry.ofBytes m) short ((l.map fun i => b + i * 32) ++ rest) =
      match removeScan (readBytes m b n) short l with
      | .endMark => none
      | .hit i => some (b + i * 32)
      | .pass => removeFind (RawDirEntry.ofBytes m) short rest := by
  induction l with
  | nil => rfl
  | cons i l ih =>
    have hi := hl i (by simp)
    have ih := ih fun j hj => hl j (List.mem_cons_of_mem i hj)
    have h0 : (readBytes m b n).getD (i * 32) 0 = (RawDirEntry.ofBytes m (b + i * 32)).first := by
      have := readBytes_slot m b n hi (show 0 < 32 by omega)
      rw [RawDirEntry.ofBytes_first]
      simpa using this
    have h11 : (readBytes m b n).getD (i * 32 + 11) 0 =
        (RawDirEntry.ofBytes m (b + i * 32)).attr := readBytes_slot m b n hi (by omega)
    have hname : readBytes ((readBytes m b n).getD · 0) (i * 32) 11 =
        (RawDirEntry.ofBytes m (b + i * 32)).name :=
      congrArg RawDirEntry.name (ofBytes_readBytes m b n hi)
    rw [List.map_cons, List.cons_append, removeFind, removeScan, h0, h11, hname, bne]
    split
    · rfl
    · generalize ((RawDirEntry.ofBytes m (b + i * 32)).first == 0xE5) = erased
      generalize ((RawDirEntry.ofBytes m (b + i * 32)).attr == attrLfn) = lfn
      generalize ((RawDirEntry.ofBytes m (b + i * 32)).name == short) = named
      cases erased <;> cases lfn <;> cases named <;> first | exact ih | rfl

omit hs in
theorem removeScan_hit {buf short : List UInt8} {l : List Nat} {i : Nat}
    (h : removeScan buf short l = .hit i) : i ∈ l ∧ buf.getD (i * 32) 0 ≠ 0xE5 := by
  induction l with
  | nil => cases h
  | cons j l ih =>
    rw [removeScan] at h
    split at h
    · cases h
    split at h
    · exact (ih h).imp_left (List.mem_cons_of_mem j)
    rename_i hdel
    split at h
    · exact (ih h).imp_left (List.mem_cons_of_mem j)
    split at h
    · cases h
      exact ⟨List.mem_cons_self, by simpa using hdel⟩
    · exact (ih h).imp_left (List.mem_cons_of_mem j)

theorem removeClusters_eq (short : List UInt8) {cs : List Nat}
    (hcs : ∀ c ∈ cs, s.geo.validCluster c = true) :
    s.removeClusters short cs =
      match removeFind s.entryAt short (s.geo.slotsOf cs) with
      | none => (.error "file not found", s)
      | some a => (.ok (), s.setBytes (writeBytes s.disk.bytes a [0xE5])) := by
  induction cs with
  | nil => rfl
  | cons c cs ih =>
    have hc := hcs c (by simp)
    have hl : ∀ i ∈ List.range (s.geo.bytesPerCluster / 32), i < s.geo.bytesPerCluster / 32 :=
      fun i hi => List.mem_range.mp hi
    rw [removeClusters, readCluster_eq hs hc,
      show s.geo.slotsOf (c :: cs) = _ ++ s.geo.slotsOf cs from List.flatMap_cons]
    have hscan := removeScan_eq s.disk.bytes (s.geo.clusterAddr c) s.geo.bytesPerCluster short hl
      (s.geo.slotsOf cs)
    change removeFind s.entryAt short _ = _ at hscan
    rw [hscan]
    simp only [slotCount]
    cases hr : removeScan (readBytes s.disk.bytes (s.geo.clusterAddr c) s.geo.bytesPerCluster)
        short (List.range (s.geo.bytesPerCluster / 32)) with
    | endMark => rfl
    | pass => exact ih fun d hd => hcs d (List.mem_cons_of_mem c hd)
    | hit i =>
      have hi := List.mem_range.mp (removeScan_hit hr).1
      simp only
      rw [writeCluster_patch hs hc (by simp; omega)]

/-- `remove_dir_entry` marks the slot its search finds. -/
theorem removeDirEntry_eq (d : Nat) (short : List UInt8) :
    s.removeDirEntry d short =
      match removeFind s.entryAt short (s.slotAddrs d) with
      | none => (.error "file not found", s)
      | some a => (.ok (), s.setBytes (writeBytes s.disk.bytes a [0xE5])) :=
  removeClusters_eq hs short (s.valid_clusterChain d)

/-! ## The search for the size field -/

/-- The entry is the one whose size is to be changed. -/
def sizeHit (target : Nat) (e : RawDirEntry) : Bool := e.isSized && e.firstCluster == target

theorem updateSizeClusters_eq (target n : Nat) {cs : List Nat}
    (hcs : ∀ c ∈ cs, s.geo.validCluster c = true) (subs : List Nat) :
    s.updateSizeClusters target n cs subs =
      match (s.geo.slotsOf cs).find? fun a => sizeHit target (s.entryAt a) with
      | some a => (.ok none, s.setBytes (writeBytes s.disk.bytes (a + 28) (leBytes 4 n)))
      | none =>
        (.ok (some (subs ++ (s.geo.slotsOf cs).filterMap fun a => (s.entryAt a).subdir?)), s) := by
  induction cs generalizing subs with
  | nil => simp [updateSizeClusters, Geometry.slotsOf]
  | cons c cs ih =>
    have hc := hcs c (by simp)
    have hbuf : ∀ i, i < s.geo.bytesPerCluster / 32 →
        sizeSlot (readBytes s.disk.bytes (s.geo.clusterAddr c) s.geo.bytesPerCluster) i =
          (s.entryAt (s.geo.clusterAddr c + i * 32)).isSized ∧
        slotCluster (readBytes s.disk.bytes (s.geo.clusterAddr c) s.geo.bytesPerCluster) i =
          (s.entryAt (s.geo.clusterAddr c + i * 32)).firstCluster ∧
        slotSubdir (readBytes s.disk.bytes (s.geo.clusterAddr c) s.geo.bytesPerCluster) i =
          (s.entryAt (s.geo.clusterAddr c + i * 32)).subdir? := by
      intro i hi
      have h0 : (readBytes s.disk.bytes (s.geo.clusterAddr c) s.geo.bytesPerCluster).getD
          (i * 32) 0 = (s.entryAt (s.geo.clusterAddr c + i * 32)).first := by
        have := readBytes_slot s.disk.bytes (s.geo.clusterAddr c) s.geo.bytesPerCluster hi
          (show 0 < 32 by omega)
        rw [entryAt, RawDirEntry.ofBytes_first]
        simpa using this
      have h11 : (readBytes s.disk.bytes (s.geo.clusterAddr c) s.geo.bytesPerCluster).getD
          (i * 32 + 11) 0 = (s.entryAt (s.geo.clusterAddr c + i * 32)).attr :=
        readBytes_slot s.disk.bytes _ _ hi (by omega)
      have hcl : slotCluster (readBytes s.disk.bytes (s.geo.clusterAddr c)
          s.geo.bytesPerCluster) i =
          (s.entryAt (s.geo.clusterAddr c + i * 32)).firstCluster := by
        rw [entryAt, ← ofBytes_readBytes s.disk.bytes (s.geo.clusterAddr c)
          s.geo.bytesPerCluster hi]
        simp only [slotCluster, RawDirEntry.firstCluster, RawDirEntry.ofBytes]
      have hsz : sizeSlot (readBytes s.disk.bytes (s.geo.clusterAddr c)
          s.geo.bytesPerCluster) i = (s.entryAt (s.geo.clusterAddr c + i * 32)).isSized := by
        rw [sizeSlot, h0, h11]
        rfl
      refine ⟨hsz, hcl, ?_⟩
      rw [slotSubdir, hsz, hcl, h11]
      rfl
    have hfind := find?_slots (sizeHit target) s.disk.bytes (s.geo.clusterAddr c)
      s.geo.bytesPerCluster (q := fun i =>
        sizeSlot (readBytes s.disk.bytes (s.geo.clusterAddr c) s.geo.bytesPerCluster) i &&
        slotCluster (readBytes s.disk.bytes (s.geo.clusterAddr c) s.geo.bytesPerCluster) i ==
          target) (fun i hi => by
            rw [(hbuf i hi).1, (hbuf i hi).2.1]
            rfl)
    rw [updateSizeClusters, readCluster_eq hs hc,
      show s.geo.slotsOf (c :: cs) = _ ++ s.geo.slotsOf cs from List.flatMap_cons,
      List.find?_append]
    simp only [entryAt]
    rw [← hfind, slotCount]
    cases hf : (List.range (s.geo.bytesPerCluster / 32)).find? (fun i =>
        sizeSlot (readBytes s.disk.bytes (s.geo.clusterAddr c) s.geo.bytesPerCluster) i &&
        slotCluster (readBytes s.disk.bytes (s.geo.clusterAddr c) s.geo.bytesPerCluster) i ==
          target) with
    | some i =>
      have hi : i < s.geo.bytesPerCluster / 32 := by
        simpa using List.mem_of_find?_eq_some hf
      simp only
      rw [writeCluster_patch hs hc (by simp; omega), ← Nat.add_assoc]
      rfl
    | none =>
      simp only [Option.map_none, Option.none_or]
      rw [ih (fun d hd => hcs d (List.mem_cons_of_mem c hd))]
      have hsub : (List.range (s.geo.bytesPerCluster / 32)).filterMap (slotSubdir
          (readBytes s.disk.bytes (s.geo.clusterAddr c) s.geo.bytesPerCluster)) =
          ((List.range (s.geo.bytesPerCluster / 32)).map fun i =>
            s.geo.clusterAddr c + i * 32).filterMap fun a => (s.entryAt a).subdir? := by
        rw [List.filterMap_map]
        refine List.filterMap_congr fun i hi => ?_
        exact (hbuf i (List.mem_range.mp hi)).2.2
      rw [hsub, List.filterMap_append, List.append_assoc]
      rfl

omit hs in
/-- The first result among the subdirectories. -/
def firstFound (f : Nat → Except String (Option Nat)) : List Nat → Except String (Option Nat)
  | [] => .ok none
  | d :: ds =>
    match f d with
    | .error e => .error e
    | .ok (some a) => .ok (some a)
    | .ok none => firstFound f ds

omit hs in
/-- The slot whose size `update_size_recursive` changes, if it finds one. -/
def findSized (s : Fat32) (target : Nat) : Nat → Nat → Except String (Option Nat)
  | 0, _ => .error "stack overflow"
  | depth + 1, d =>
    match (s.slotAddrs d).find? fun a => sizeHit target (s.entryAt a) with
    | some a => .ok (some a)
    | none =>
      firstFound (findSized s target depth)
        ((s.slotAddrs d).filterMap fun a => (s.entryAt a).subdir?)

/-- `update_size_recursive` writes the size into the slot its search finds. -/
theorem updateSizeRecursive_eq (target n depth d : Nat) :
    updateSizeRecursive depth s d target n =
      match findSized s target depth d with
      | .error e => (.error e, s)
      | .ok none => (.ok false, s)
      | .ok (some a) =>
        (.ok true, s.setBytes (writeBytes s.disk.bytes (a + 28) (leBytes 4 n))) := by
  induction depth generalizing d with
  | zero => rfl
  | succ depth ih =>
    rw [updateSizeRecursive, updateSizeClusters_eq hs target n (s.valid_clusterChain d), findSized]
    rw [← slotAddrs]
    cases (s.slotAddrs d).find? fun a => sizeHit target (s.entryAt a) with
    | some a => rfl
    | none =>
      simp only [List.nil_append]
      have key : ∀ l : List Nat,
          firstTrue (fun s d => updateSizeRecursive depth s d target n) l s =
            match firstFound (findSized s target depth) l with
            | .error e => (.error e, s)
            | .ok none => (.ok false, s)
            | .ok (some a) =>
              (.ok true, s.setBytes (writeBytes s.disk.bytes (a + 28) (leBytes 4 n))) := by
        intro l
        induction l with
        | nil => rfl
        | cons e l ihl =>
          rw [firstTrue, firstFound, ih e]
          cases findSized s target depth e with
          | error e => rfl
          | ok r =>
            cases r with
            | none => exact ihl
            | some a => rfl
      exact key _

end scans

end AeroOS.Fat32
