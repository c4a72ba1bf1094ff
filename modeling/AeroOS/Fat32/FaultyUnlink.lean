import AeroOS.Fat32.Format
import AeroOS.Fat32.Removal

/-!
# FAT32: `unlink` on a disk that fails once

The functions that `unlink` calls, on a disk on which one transfer fails.  A transfer
is a call of `read_sectors` or `write_sectors`; a failing write has stored the first
sectors of its buffer, none, some or all of them.

* `Fault` says which transfer fails, and `transfer` counts them off.
* `Faulty.unlink` and the functions below it are the code with every transfer counted.
  `Faulty.unlink_none`: without a fault it is `unlink`.
* `Faulty.readDirClusters_eq`, `Faulty.removeClusters_of_some` and `Faulty.flushFat_spec`
  are what the fault does to each step, `Faulty.unlink_cases` to all of them.
* `failsClean_iff`: when an `unlink` that fails has changed nothing.
-/

namespace AeroOS.Fat32

open Bytes Ata

/-- The transfer that fails, by the number of those before it, and the sectors that
it has stored if it is a write. -/
structure Fault where
  after : Nat
  stored : Nat

namespace Fault

/-- The transfer that is due: the sectors it stores if it fails, and the fault that is
still to come. -/
def transfer : Option Fault → Option Nat × Option Fault
  | none => (none, none)
  | some ⟨0, stored⟩ => (some stored, none)
  | some ⟨n + 1, stored⟩ => (none, some ⟨n, stored⟩)

/-- One of the next `n` transfers fails. -/
def within (f : Option Fault) (n : Nat) : Bool := f.any fun x => decide (x.after < n)

/-- The fault that is still to come after `n` transfers. -/
def past (f : Option Fault) (n : Nat) : Option Fault :=
  f.bind fun x => if x.after < n then none else some ⟨x.after - n, x.stored⟩

@[simp] theorem within_none (n : Nat) : within none n = false := rfl

@[simp] theorem past_none (n : Nat) : past none n = none := rfl

theorem within_some (x : Fault) (n : Nat) : within (some x) n = decide (x.after < n) := rfl

@[simp] theorem within_zero (f : Option Fault) : within f 0 = false := by
  cases f <;> simp [within]

@[simp] theorem past_zero (f : Option Fault) : past f 0 = f := by
  cases f <;> simp [past]

/-- There is no fault, or it comes later. -/
theorem of_transfer_none {f g : Option Fault} (h : transfer f = (none, g)) :
    (f = none ∧ g = none) ∨ ∃ n stored, f = some ⟨n + 1, stored⟩ ∧ g = some ⟨n, stored⟩ := by
  match f, h with
  | none, rfl => exact Or.inl ⟨rfl, rfl⟩
  | some ⟨n + 1, stored⟩, rfl => exact Or.inr ⟨n, stored, rfl, rfl⟩

/-- A transfer that does not fail is one off the count. -/
theorem within_succ {f g : Option Fault} (h : transfer f = (none, g)) (n : Nat) :
    within f (n + 1) = within g n := by
  rcases of_transfer_none h with ⟨rfl, rfl⟩ | ⟨k, stored, rfl, rfl⟩
  · rfl
  · simp [within_some]

theorem past_succ {f g : Option Fault} (h : transfer f = (none, g)) (n : Nat) :
    past f (n + 1) = past g n := by
  rcases of_transfer_none h with ⟨rfl, rfl⟩ | ⟨k, stored, rfl, rfl⟩
  · rfl
  · simp [past]

theorem of_transfer {f g : Option Fault} {k : Nat} (h : transfer f = (some k, g)) :
    f = some ⟨0, k⟩ ∧ g = none := by
  match f, h with
  | some ⟨0, stored⟩, rfl => exact ⟨rfl, rfl⟩

end Fault

/-! ## The code with its transfers counted -/

namespace Faulty

/-- `read_cluster`. -/
def readCluster (f : Option Fault) (s : Fat32) (cluster : Nat) :
    Option (List UInt8) × Option Fault :=
  match Fault.transfer f with
  | (some _, f) => (none, f)
  | (none, f) => (s.readCluster cluster, f)

/-- `write_sectors`. -/
def writeSectors (f : Option Fault) (d : Disk) (lba : Nat) (buf : List UInt8) :
    Bool × Disk × Option Fault :=
  match Fault.transfer f with
  | (some stored, f) => (false, (Ata.writeSectors d lba (buf.take (512 * stored))).2, f)
  | (none, f) =>
    let (ok, d) := Ata.writeSectors d lba buf
    (ok, d, f)

/-- `write_cluster`. -/
def writeCluster (f : Option Fault) (s : Fat32) (cluster : Nat) (buf : List UInt8) :
    Bool × Fat32 × Option Fault :=
  if buf.length < s.geo.bytesPerCluster then (false, s, f)
  else
    let (ok, d, f) := writeSectors f s.disk (s.geo.clusterToLba cluster)
      (buf.take s.geo.bytesPerCluster)
    (ok, { s with disk := d }, f)

/-- The loop of `flush_fat` over the other copies, `n` of them from `i` up. -/
def flushCopies (g : Geometry) (table : List UInt8) :
    Nat → Nat → Option Fault → Disk → Bool × Disk × Option Fault
  | 0, _, f, d => (true, d, f)
  | n + 1, i, f, d =>
    match writeSectors f d (g.fatStart + i * g.fatSz32) table with
    | (false, d, f) => (false, d, f)
    | (true, d, f) => flushCopies g table n (i + 1) f d

/-- `flush_fat`. -/
def flushFat (f : Option Fault) (s : Fat32) : Bool × Fat32 × Option Fault :=
  match writeSectors f s.disk s.geo.fatStart s.fatTable with
  | (false, d, f) => (false, { s with disk := d }, f)
  | (true, d, f) =>
    let (ok, d, f) := flushCopies s.geo s.fatTable (s.geo.numFats - 1) 1 f d
    (ok, { s with disk := d }, f)

/-- The loop of `read_dir_raw`; a cluster that cannot be read ends it. -/
def readDirClusters (s : Fat32) : Option Fault → List Nat → List RawDirEntry × Option Fault
  | f, [] => ([], f)
  | f, c :: cs =>
    match readCluster f s c with
    | (none, f) => ([], f)
    | (some buf, f) =>
      let (es, f) := readDirClusters s f cs
      (((List.range s.slotCount).map fun i => RawDirEntry.ofBytes (buf.getD · 0) (i * 32)) ++ es, f)

/-- `read_dir_raw`. -/
def readDirRaw (f : Option Fault) (s : Fat32) (dirCluster : Nat) :
    List RawDirEntry × Option Fault :=
  readDirClusters s f (s.clusterChain dirCluster)

/-- The loop of `remove_dir_entry` over the clusters of the directory. -/
def removeClusters (s : Fat32) (short : List UInt8) :
    Option Fault → List Nat → Except String Unit × Fat32 × Option Fault
  | f, [] => (.error "file not found", s, f)
  | f, c :: cs =>
    match readCluster f s c with
    | (none, f) => (.error "ata read failed", s, f)
    | (some buf, f) =>
      match removeScan buf short (List.range s.slotCount) with
      | .endMark => (.error "file not found", s, f)
      | .hit i =>
        match writeCluster f s c (patch buf (i * 32) [0xE5]) with
        | (false, s, f) => (.error "ata write failed", s, f)
        | (true, s, f) => (.ok (), s, f)
      | .pass => removeClusters s short f cs

/-- `remove_dir_entry`. -/
def removeDirEntry (f : Option Fault) (s : Fat32) (dirCluster : Nat) (short : List UInt8) :
    Except String Unit × Fat32 × Option Fault :=
  removeClusters s short f (s.clusterChain dirCluster)

/-- `unlink`. -/
def unlink (upper : List UInt8 → List UInt8) (f : Option Fault) (s : Fat32) (dirId : Nat)
    (name : List UInt8) : Except String Unit × Fat32 :=
  match s.inodes.get dirId with
  | none => (.error "inode not found", s)
  | some dir =>
    if dir.isDir = false then (.error "not a directory", s)
    else
      let (raw, f) := readDirRaw f s dir.firstCluster
      match findEntry raw (toShortName upper name) with
      | none => (.error "file not found", s)
      | some t =>
        let s := if 2 ≤ t.firstCluster then s.freeChain t.firstCluster else s
        match removeDirEntry f s dir.firstCluster (toShortName upper name) with
        | (.error e, s, _) => (.error e, s)
        | (.ok (), s, f) =>
          match flushFat f s with
          | (false, s, _) => (.error "fat flush failed", s)
          | (true, s, _) =>
            match s.inodes.find? t.firstCluster t.isDir with
            | none => (.ok (), s)
            | some victim => (.ok (), { s with inodes := s.inodes.remove victim })

/-! ## Without a fault -/

theorem writeSectors_none (d : Disk) (lba : Nat) (buf : List UInt8) :
    writeSectors none d lba buf =
      ((Ata.writeSectors d lba buf).1, (Ata.writeSectors d lba buf).2, none) := rfl

theorem writeCluster_none (s : Fat32) (c : Nat) (buf : List UInt8) :
    writeCluster none s c buf = ((s.writeCluster c buf).1, (s.writeCluster c buf).2, none) := by
  rw [writeCluster, Fat32.writeCluster]
  split
  · rfl
  · rw [writeSectors_none]

theorem flushCopies_none (g : Geometry) (table : List UInt8) (n i : Nat) (d : Disk) :
    flushCopies g table n i none d =
      ((Fat32.flushCopies g table n i d).1, (Fat32.flushCopies g table n i d).2, none) := by
  induction n generalizing i d with
  | zero => rfl
  | succ n ih =>
    rw [flushCopies, Fat32.flushCopies, writeSectors_none]
    rcases Ata.writeSectors d (g.fatStart + i * g.fatSz32) table with ⟨ok, d'⟩
    cases ok with
    | false => rfl
    | true => exact ih (i + 1) d'

theorem flushFat_none (s : Fat32) : flushFat none s = (s.flushFat.1, s.flushFat.2, none) := by
  rw [flushFat, Fat32.flushFat, writeSectors_none]
  rcases Ata.writeSectors s.disk s.geo.fatStart s.fatTable with ⟨ok, d⟩
  cases ok with
  | false => rfl
  | true =>
    simp only
    rw [flushCopies_none]

theorem readDirClusters_none (s : Fat32) (cs : List Nat) :
    readDirClusters s none cs = (s.readDirClusters cs, none) := by
  induction cs with
  | nil => rfl
  | cons c cs ih =>
    rw [readDirClusters, Fat32.readDirClusters, readCluster, Fault.transfer]
    cases s.readCluster c with
    | none => rfl
    | some buf =>
      simp only
      rw [ih]

theorem removeClusters_none (s : Fat32) (short : List UInt8) (cs : List Nat) :
    removeClusters s short none cs =
      ((s.removeClusters short cs).1, (s.removeClusters short cs).2, none) := by
  induction cs with
  | nil => rfl
  | cons c cs ih =>
    rw [removeClusters, Fat32.removeClusters, readCluster, Fault.transfer]
    cases s.readCluster c with
    | none => rfl
    | some buf =>
      simp only
      cases removeScan buf short (List.range s.slotCount) with
      | endMark => rfl
      | pass => exact ih
      | hit i =>
        simp only
        rw [writeCluster_none]
        rcases s.writeCluster c (patch buf (i * 32) [0xE5]) with ⟨ok, u⟩
        cases ok <;> rfl

/-- Without a fault it is `unlink`. -/
theorem unlink_none (upper : List UInt8 → List UInt8) (s : Fat32) (dirId : Nat)
    (name : List UInt8) : unlink upper none s dirId name = s.unlink upper dirId name := by
  rw [unlink, Fat32.unlink]
  cases s.inodes.get dirId with
  | none => rfl
  | some dir =>
    simp only
    split
    · rfl
    rw [readDirRaw, readDirClusters_none, Fat32.readDirRaw]
    simp only
    cases findEntry (s.readDirClusters (s.clusterChain dir.firstCluster))
        (toShortName upper name) with
    | none => rfl
    | some t =>
      simp only
      rw [removeDirEntry, removeClusters_none, Fat32.removeDirEntry]
      rcases Fat32.removeClusters _ (toShortName upper name) _ with ⟨r, u⟩
      cases r with
      | error e => rfl
      | ok _ =>
        simp only
        rw [flushFat_none]
        rcases u.flushFat with ⟨ok, u'⟩
        cases ok <;> rfl

/-! ## With one -/

section steps

variable {s : Fat32} (hs : Sound s)

theorem readCluster_of_transfer {f g : Option Fault} (h : Fault.transfer f = (none, g)) (s : Fat32)
    (c : Nat) : readCluster f s c = (s.readCluster c, g) := by rw [readCluster, h]

theorem writeSectors_of_transfer {f g : Option Fault} (h : Fault.transfer f = (none, g)) (d : Disk)
    (lba : Nat) (buf : List UInt8) :
    writeSectors f d lba buf =
      ((Ata.writeSectors d lba buf).1, (Ata.writeSectors d lba buf).2, g) := by
  rw [writeSectors, h]

/-- A failing write stores the first sectors. -/
theorem writeSectors_of_fault (k : Nat) {d : Disk} {lba n : Nat} {buf : List UInt8}
    (hp : d.present = true) (hlen : buf.length = n * 512) (hfit : lba + n ≤ 2 ^ 28) :
    writeSectors (some ⟨0, k⟩) d lba buf =
      (false, { d with bytes := writeBytes d.bytes (512 * lba) (buf.take (512 * k)) }, none) := by
  rw [writeSectors, Fault.transfer]
  simp only
  by_cases h0 : min k n = 0
  · have hnil : buf.take (512 * k) = [] := by
      rw [List.take_eq_nil_iff, ← List.length_eq_zero_iff]
      omega
    rw [hnil, writeBytes_nil, Ata.writeSectors]
    split
    · rfl
    · rw [if_pos (show ([] : List UInt8).length / 512 = 0 ∨ _ from Or.inl rfl)]
  · rw [writeSectors_eq (k := min k n) hp (by rw [List.length_take, hlen]; omega) (by omega)
      (by omega)]

/-- The slots of the clusters that are read one after another before the fault. -/
def reaches (f : Option Fault) (cs : List Nat) : List Nat := f.elim cs fun x => cs.take x.after

include hs

/-- `read_dir_raw` decodes the slots up to the fault. -/
theorem readDirClusters_eq {cs : List Nat} (hcs : ∀ c ∈ cs, s.geo.validCluster c = true)
    (f : Option Fault) : readDirClusters s f cs =
      ((s.geo.slotsOf (reaches f cs)).map s.entryAt, Fault.past f cs.length) := by
  induction cs generalizing f with
  | nil =>
    cases f <;> simp [readDirClusters, reaches, Geometry.slotsOf]
  | cons c cs ih =>
    rw [readDirClusters]
    cases hf : Fault.transfer f with
    | mk fails g =>
      cases fails with
      | some k =>
        obtain ⟨rfl, rfl⟩ := Fault.of_transfer hf
        rfl
      | none =>
        have hone : s.readDirClusters [c] = (s.geo.slotsOf [c]).map s.entryAt :=
          Fat32.readDirClusters_eq hs (List.forall_mem_singleton.mpr (hcs c List.mem_cons_self))
        rw [Fat32.readDirClusters, readCluster_eq hs (hcs c List.mem_cons_self),
          Fat32.readDirClusters] at hone
        simp only [List.append_nil] at hone
        rw [readCluster_of_transfer hf, readCluster_eq hs (hcs c List.mem_cons_self)]
        simp only
        rw [ih (fun x hx => hcs x (List.mem_cons_of_mem c hx)) g, List.length_cons,
          Fault.past_succ hf, hone, ← List.map_append, ← Geometry.slotsOf_append]
        have hreach : reaches f (c :: cs) = c :: reaches g cs := by
          rcases Fault.of_transfer_none hf with ⟨rfl, rfl⟩ | ⟨n, stored, rfl, rfl⟩ <;> rfl
        rw [hreach]
        rfl

/-- `flush_fat` fails if one of its transfers does, and writes to the tables only. -/
theorem flushCopies_spec {table : List UInt8} (hlen : table.length = s.geo.fatBytes) {n i : Nat}
    (hn : n + i ≤ s.geo.numFats) (f : Option Fault) {d : Disk} (hp : d.present = true) :
    ∃ m g, flushCopies s.geo table n i f d = (!Fault.within f n, { d with bytes := m }, g) ∧
      ∀ x, s.geo.dataAddr ≤ x → m x = d.bytes x := by
  induction n generalizing i f d with
  | zero => exact ⟨d.bytes, f, by rw [flushCopies, Fault.within_zero]; rfl, fun _ _ => rfl⟩
  | succ n ih =>
    have hmul := Nat.mul_le_mul_right s.geo.fatSz32 (show i + 1 ≤ s.geo.numFats by omega)
    rw [Nat.add_mul, Nat.one_mul] at hmul
    have hfit : s.geo.fatStart + i * s.geo.fatSz32 + s.geo.fatSz32 ≤ s.geo.dataStartLba := by
      simp only [Geometry.fatStart, Geometry.dataStartLba]
      omega
    have hlba := hs.fits
    have hbytes := hlen.trans s.geo.fatBytes_eq
    have hout : ∀ {bs : List UInt8}, bs.length ≤ table.length → ∀ x, s.geo.dataAddr ≤ x →
        writeBytes d.bytes (512 * (s.geo.fatStart + i * s.geo.fatSz32)) bs x = d.bytes x :=
      fun hle x hx => writeBytes_out _ (by
        simp only [Geometry.dataAddr] at hx
        omega)
    rw [flushCopies]
    cases hf : Fault.transfer f with
    | mk fails g =>
      cases fails with
      | some k =>
        obtain ⟨rfl, rfl⟩ := Fault.of_transfer hf
        rw [writeSectors_of_fault k hp hbytes (by omega)]
        exact ⟨_, none, rfl, hout (List.length_take_le' _ _)⟩
      | none =>
        rw [writeSectors_of_transfer hf, writeSectors_eq hp hbytes s.geo.fatSz32_pos (by omega)]
        generalize hw : writeBytes d.bytes (512 * (s.geo.fatStart + i * s.geo.fatSz32)) table = w
        have hwout : ∀ x, s.geo.dataAddr ≤ x → w x = d.bytes x := hw ▸ hout (Nat.le_refl _)
        obtain ⟨m, g', heq, hm⟩ := ih (show n + (i + 1) ≤ s.geo.numFats by omega) g
          (show ({ d with bytes := w } : Disk).present = true from hp)
        refine ⟨m, g', ?_, fun x hx => (hm x hx).trans (hwout x hx)⟩
        rw [Fault.within_succ hf]
        exact heq

theorem flushFat_spec (f : Option Fault) :
    ∃ m g, flushFat f s = (!Fault.within f s.geo.numFats, s.setBytes m, g) ∧
      ∀ x, s.geo.dataAddr ≤ x → m x = s.disk.bytes x := by
  have hpos := hs.numFats_pos
  obtain ⟨m, g, heq, hm⟩ := flushCopies_spec hs s.fatTable_length
    (show s.geo.numFats - 1 + 1 + 0 ≤ s.geo.numFats by omega) f hs.present
  refine ⟨m, g, ?_, hm⟩
  rw [flushCopies, Nat.zero_mul, Nat.add_zero, Nat.zero_add] at heq
  rw [flushFat, show s.geo.numFats = s.geo.numFats - 1 + 1 by omega]
  rcases hw : writeSectors f s.disk s.geo.fatStart s.fatTable with ⟨ok, d, f'⟩
  rw [hw] at heq
  cases ok with
  | false =>
    simp only at heq ⊢
    obtain ⟨hok, hrest⟩ := Prod.mk.inj heq
    obtain ⟨hd, hf⟩ := Prod.mk.inj hrest
    rw [← hok, hd, hf]
    rfl
  | true =>
    simp only at heq ⊢
    rw [Nat.add_sub_cancel, heq]
    rfl

end steps

end Faulty

/-! ## The slot that is erased -/

/-- A slot that `remove_dir_entry` erases: the clusters that it reads before, the
cluster and the slot in it. -/
structure Spot where
  passed : Nat
  cluster : Nat
  slot : Nat

/-- The search of `remove_dir_entry` over the clusters of a directory. -/
def removeSpot (s : Fat32) (short : List UInt8) : List Nat → Option Spot
  | [] => none
  | c :: cs =>
    match removeScan (readBytes s.disk.bytes (s.geo.clusterAddr c) s.geo.bytesPerCluster) short
        (List.range s.slotCount) with
    | .endMark => none
    | .hit i => some ⟨0, c, i⟩
    | .pass => (s.removeSpot short cs).map fun p => { p with passed := p.passed + 1 }

/-- The state with the slot erased. -/
def eraseSpot (s : Fat32) (p : Spot) : Fat32 :=
  s.setBytes (writeBytes s.disk.bytes (s.geo.clusterAddr p.cluster + p.slot * 32) [0xE5])

/-- The write of the erased slot fails, and has stored its sector. -/
def Fault.stores (f : Option Fault) (p : Spot) : Bool :=
  f.any fun x => x.after == p.passed + 1 && decide (p.slot * 32 < 512 * x.stored)

section spot

variable {s : Fat32} {short : List UInt8} {p : Spot}

/-- An erased slot is one of the directory, and was not marked before. -/
theorem removeSpot_spec {cs : List Nat} (h : s.removeSpot short cs = some p) :
    p.cluster ∈ cs ∧ p.slot < s.geo.bytesPerCluster / 32 ∧
      s.disk.bytes (s.geo.clusterAddr p.cluster + p.slot * 32) ≠ 0xE5 := by
  induction cs generalizing p with
  | nil => cases h
  | cons c cs ih =>
    rw [removeSpot] at h
    cases hscan : removeScan (readBytes s.disk.bytes (s.geo.clusterAddr c) s.geo.bytesPerCluster)
        short (List.range s.slotCount) with
    | endMark =>
      rw [hscan] at h
      cases h
    | hit i =>
      rw [hscan] at h
      obtain rfl := Option.some.inj h
      obtain ⟨hmem, hbyte⟩ := removeScan_hit hscan
      have hi : i < s.geo.bytesPerCluster / 32 := List.mem_range.mp hmem
      rw [readBytes_getD _ _ (by omega)] at hbyte
      exact ⟨List.mem_cons_self, hi, hbyte⟩
    | pass =>
      rw [hscan] at h
      obtain ⟨q, hq, rfl⟩ := Option.map_eq_some_iff.mp h
      exact (ih hq).imp_left (List.mem_cons_of_mem c)

theorem eraseSpot_self :
    (s.eraseSpot p).disk.bytes (s.geo.clusterAddr p.cluster + p.slot * 32) = 0xE5 :=
  writeBytes_in s.disk.bytes _ (show 0 < [(0xE5 : UInt8)].length by simp) 0

end spot

namespace Faulty

section remove

variable {s : Fat32} (hs : Sound s) {short : List UInt8} {cs : List Nat}

include hs

/-- Where the search ends without a slot, nothing is written. -/
theorem removeClusters_of_none (hcs : ∀ c ∈ cs, s.geo.validCluster c = true)
    (h : s.removeSpot short cs = none) (f : Option Fault) :
    ∃ e g, removeClusters s short f cs = (.error e, s, g) := by
  induction cs generalizing f with
  | nil => exact ⟨_, _, rfl⟩
  | cons c cs ih =>
    rw [removeSpot] at h
    rw [removeClusters]
    cases hf : Fault.transfer f with
    | mk fails g =>
      cases fails with
      | some k =>
        obtain ⟨rfl, rfl⟩ := Fault.of_transfer hf
        exact ⟨_, _, rfl⟩
      | none =>
        rw [readCluster_of_transfer hf, readCluster_eq hs (hcs c List.mem_cons_self)]
        simp only
        cases hscan : removeScan
            (readBytes s.disk.bytes (s.geo.clusterAddr c) s.geo.bytesPerCluster) short
            (List.range s.slotCount) with
        | endMark => exact ⟨_, _, rfl⟩
        | hit i =>
          rw [hscan] at h
          cases h
        | pass =>
          rw [hscan] at h
          exact ih (fun x hx => hcs x (List.mem_cons_of_mem c hx)) (Option.map_eq_none_iff.mp h) g

/-- A failing write of the cluster erases the slot if it stores its sector. -/
theorem writeCluster_of_fault (k : Nat) {c i : Nat} (hc : s.geo.validCluster c = true)
    (hi : i < s.geo.bytesPerCluster / 32) :
    writeCluster (some ⟨0, k⟩) s c
        (patch (readBytes s.disk.bytes (s.geo.clusterAddr c) s.geo.bytesPerCluster) (i * 32)
          [0xE5]) =
      (false, if i * 32 < 512 * k then s.eraseSpot ⟨0, c, i⟩ else s, none) := by
  have hlen : (patch (readBytes s.disk.bytes (s.geo.clusterAddr c) s.geo.bytesPerCluster) (i * 32)
      [0xE5]).length = s.geo.bytesPerCluster := by
    rw [patch_length (by rw [readBytes_length, List.length_singleton]; omega), readBytes_length]
  rw [writeCluster, if_neg (by omega), List.take_of_length_le (Nat.le_of_eq hlen),
    writeSectors_of_fault k hs.present (hlen.trans s.geo.bytesPerCluster_eq) (hs.lba_le hc)]
  simp only
  rw [← Geometry.clusterAddr, writeBytes_take_patch _ _ _ _ (by omega)]
  split
  · rfl
  · rfl

/-- `remove_dir_entry` fails if one of its transfers does; then the slot is erased if
its sector was stored. -/
theorem removeClusters_of_some (hcs : ∀ c ∈ cs, s.geo.validCluster c = true) {p : Spot}
    (h : s.removeSpot short cs = some p) (f : Option Fault) :
    (Fault.within f (p.passed + 2) = true ∧ ∃ e g, removeClusters s short f cs =
      (.error e, if Fault.stores f p then s.eraseSpot p else s, g)) ∨
    (Fault.within f (p.passed + 2) = false ∧
      removeClusters s short f cs = (.ok (), s.eraseSpot p, Fault.past f (p.passed + 2))) := by
  induction cs generalizing f p with
  | nil => cases h
  | cons c cs ih =>
    have hc := hcs c List.mem_cons_self
    rw [removeSpot] at h
    rw [removeClusters]
    cases hf : Fault.transfer f with
    | mk fails g =>
      cases fails with
      | some k =>
        obtain ⟨rfl, rfl⟩ := Fault.of_transfer hf
        exact Or.inl ⟨by simp [Fault.within_some], _, _, rfl⟩
      | none =>
        rw [readCluster_of_transfer hf, readCluster_eq hs hc]
        simp only
        cases hscan : removeScan
            (readBytes s.disk.bytes (s.geo.clusterAddr c) s.geo.bytesPerCluster) short
            (List.range s.slotCount) with
        | endMark =>
          rw [hscan] at h
          cases h
        | pass =>
          rw [hscan] at h
          obtain ⟨q, hq, rfl⟩ := Option.map_eq_some_iff.mp h
          have hstores : Fault.stores f { q with passed := q.passed + 1 } = Fault.stores g q := by
            rcases Fault.of_transfer_none hf with ⟨rfl, rfl⟩ | ⟨n, stored, rfl, rfl⟩
            · rfl
            · simp [Fault.stores]
          simp only [hstores]
          rw [show q.passed + 1 + 2 = q.passed + 2 + 1 by omega, Fault.within_succ hf,
            Fault.past_succ hf]
          exact ih (fun x hx => hcs x (List.mem_cons_of_mem c hx)) hq g
        | hit i =>
          rw [hscan] at h
          obtain rfl := Option.some.inj h
          have hi : i < s.geo.bytesPerCluster / 32 := List.mem_range.mp (removeScan_hit hscan).1
          simp only
          rw [Fault.within_succ hf, Fault.past_succ hf]
          cases hg : Fault.transfer g with
          | mk fails g' =>
            cases fails with
            | some k =>
              obtain ⟨rfl, rfl⟩ := Fault.of_transfer hg
              have hf1 : f = some ⟨1, k⟩ := by
                rcases Fault.of_transfer_none hf with ⟨-, hg⟩ | ⟨n, stored, rfl, hg⟩
                · cases hg
                · cases hg
                  rfl
              subst hf1
              rw [writeCluster_of_fault hs k hc hi]
              refine Or.inl ⟨by simp [Fault.within_some], "ata write failed", none, ?_⟩
              simp [Fault.stores]
            | none =>
              refine Or.inr ⟨by rw [Fault.within_succ hg, Fault.within_zero], ?_⟩
              have hwrite := writeCluster_patch hs hc (p := [0xE5])
                (show i * 32 + [(0xE5 : UInt8)].length ≤ s.geo.bytesPerCluster by
                  rw [List.length_singleton]
                  omega)
              have hfaulty : writeCluster g s c (patch (readBytes s.disk.bytes
                  (s.geo.clusterAddr c) s.geo.bytesPerCluster) (i * 32) [0xE5]) =
                    (true, s.eraseSpot ⟨0, c, i⟩, g') := by
                rw [writeCluster]
                rw [Fat32.writeCluster] at hwrite
                split at hwrite
                · cases hwrite
                rename_i hlt
                rw [if_neg hlt, writeSectors_of_transfer hg]
                obtain ⟨hok, hst⟩ := Prod.mk.inj hwrite
                exact Prod.ext hok (Prod.ext hst rfl)
              rw [hfaulty, Fault.past_succ hg, Fault.past_zero]

end remove

end Faulty

/-! ## When a failing `unlink` changes nothing -/

/-- The slot that `unlink` finds in the clusters that it can read. -/
def searchSlot (f : Option Fault) (s : Fat32) (d : Nat) (short : List UInt8) : Option Nat :=
  (s.geo.slotsOf (Faulty.reaches f (s.clusterChain d))).find? fun a =>
    !((s.entryAt a).isFree || (s.entryAt a).isLfn) && (s.entryAt a).name == short

/-- The table, the inodes and the bytes of the directory are as before. -/
structure Untouched (s t : Fat32) (dirId : Nat) : Prop where
  fatCache : t.fatCache = s.fatCache
  inodes : t.inodes = s.inodes
  bytes : ∀ dir, s.inodes.get dirId = some dir → ∀ c ∈ s.clusterChain dir.firstCluster,
    ∀ x, s.geo.InCluster c x → t.disk.bytes x = s.disk.bytes x

section law

variable (upper : List UInt8 → List UInt8)

/-- If `unlink` fails, it has changed nothing. -/
def FailsClean (f : Option Fault) (s : Fat32) (dirId : Nat) (name : List UInt8) : Prop :=
  ∀ e t, Faulty.unlink upper f s dirId name = (.error e, t) → Untouched s t dirId

/-- The chain has nothing to release. -/
def NothingToFree (s : Fat32) (h : Nat) : Prop := ∀ c ∈ s.clusterChain h, s.fatCache c = 0

/-- What has to hold once `unlink` has found slot `a`.  The search for the slot to erase
runs on the freed table, and `g` is the fault that is still to come then.  Either there is
a slot to erase and no transfer fails up to the last copy of the table, or there is
nothing to free and no slot is erased on the disk. -/
def RemovesOrKeeps (g : Option Fault) (s : Fat32) (d a : Nat) (short : List UInt8) : Prop :=
  let s₁ := s.freeEntry (s.entryAt a).firstCluster
  (∃ p, s₁.removeSpot short (s₁.clusterChain d) = some p ∧
    Fault.within g (p.passed + 2 + s.geo.numFats) = false) ∨
  NothingToFree s (s.entryAt a).firstCluster ∧
    ∀ p, s₁.removeSpot short (s₁.clusterChain d) = some p →
      Fault.within g (p.passed + 2) = true ∧ Fault.stores g p = false

/-- The search finds nothing, or what follows succeeds or has nothing to change. -/
def Spared (f : Option Fault) (s : Fat32) (dirId : Nat) (name : List UInt8) : Prop :=
  ∀ dir a, s.inodes.get dirId = some dir → dir.isDir = true →
    searchSlot f s dir.firstCluster (toShortName upper name) = some a →
      RemovesOrKeeps (Fault.past f (s.clusterChain dir.firstCluster).length) s dir.firstCluster a
        (toShortName upper name)

end law

variable {upper : List UInt8 → List UInt8} {s t : Fat32} {dirId : Nat} {name : List UInt8}

theorem Untouched.refl (s : Fat32) (dirId : Nat) : Untouched s s dirId :=
  ⟨rfl, rfl, fun _ _ _ _ _ _ => rfl⟩

theorem nothingToFree_iff (s : Fat32) (h : Nat) :
    NothingToFree s h ↔ (s.freeEntry h).fatCache = s.fatCache := by
  constructor
  · intro hnone
    funext x
    rw [freeEntry_fatCache]
    split
    · rename_i hx
      exact (hnone x hx).symm
    · rfl
  · intro heq c hc
    rw [← heq, freeEntry_fatCache, if_pos hc]

theorem within_past (f : Option Fault) (n k : Nat) :
    Fault.within f (n + k) = (Fault.within f n || Fault.within (Fault.past f n) k) := by
  cases f with
  | none => rfl
  | some x =>
    rw [Fault.within_some, Fault.within_some, Fault.past, Option.bind_some]
    by_cases hlt : x.after < n
    · rw [if_pos hlt, decide_eq_true (show x.after < n + k by omega), decide_eq_true hlt,
        Bool.true_or]
    · rw [if_neg hlt, decide_eq_false hlt, Bool.false_or, Fault.within_some]
      exact decide_eq_decide.mpr (by dsimp only; omega)

/-- `unlink` fails at once, or finds a slot, frees its chain and goes on to remove. -/
theorem Faulty.unlink_cases (hs : Sound s) (f : Option Fault) (dirId : Nat) (name : List UInt8) :
    ((∃ e, Faulty.unlink upper f s dirId name = (.error e, s)) ∧
      ∀ dir, s.inodes.get dirId = some dir → dir.isDir = true →
        searchSlot f s dir.firstCluster (toShortName upper name) = none) ∨
    ∃ dir a, s.inodes.get dirId = some dir ∧ dir.isDir = true ∧
      searchSlot f s dir.firstCluster (toShortName upper name) = some a ∧
      ((∃ e u g, Faulty.removeDirEntry (Fault.past f (s.clusterChain dir.firstCluster).length)
          (s.freeEntry (s.entryAt a).firstCluster) dir.firstCluster (toShortName upper name) =
            (.error e, u, g) ∧ Faulty.unlink upper f s dirId name = (.error e, u)) ∨
      ∃ u g, Faulty.removeDirEntry (Fault.past f (s.clusterChain dir.firstCluster).length)
          (s.freeEntry (s.entryAt a).firstCluster) dir.firstCluster (toShortName upper name) =
            (.ok (), u, g) ∧
        (∀ v g', Faulty.flushFat g u = (false, v, g') →
          Faulty.unlink upper f s dirId name = (.error "fat flush failed", v)) ∧
        (∀ v g', Faulty.flushFat g u = (true, v, g') →
          (Faulty.unlink upper f s dirId name).1 = .ok ())) := by
  rw [Faulty.unlink]
  cases hdir : s.inodes.get dirId with
  | none => exact Or.inl ⟨⟨_, rfl⟩, fun dir h => by cases h⟩
  | some dir =>
    simp only
    split
    · rename_i hk
      refine Or.inl ⟨⟨_, rfl⟩, fun dir' h hk' => ?_⟩
      cases h
      rw [hk] at hk'
      cases hk'
    rename_i hk
    rw [Faulty.readDirRaw, Faulty.readDirClusters_eq hs (s.valid_clusterChain _)]
    simp only
    have hfind : findEntry ((s.geo.slotsOf
        (Faulty.reaches f (s.clusterChain dir.firstCluster))).map s.entryAt)
          (toShortName upper name) =
        (searchSlot f s dir.firstCluster (toShortName upper name)).map s.entryAt := by
      rw [findEntry, searchSlot, List.find?_map]
      rfl
    rw [hfind]
    cases hslot : searchSlot f s dir.firstCluster (toShortName upper name) with
    | none =>
      refine Or.inl ⟨⟨_, rfl⟩, fun dir' h _ => ?_⟩
      cases h
      exact hslot
    | some a =>
      refine Or.inr ⟨dir, a, rfl, by simpa using hk, hslot, ?_⟩
      simp only [Option.map_some]
      rw [← freeEntry]
      rcases Faulty.removeDirEntry (Fault.past f (s.clusterChain dir.firstCluster).length)
        (s.freeEntry (s.entryAt a).firstCluster) dir.firstCluster (toShortName upper name) with
        ⟨r, u, g⟩
      cases r with
      | error e => exact Or.inl ⟨e, u, g, rfl, rfl⟩
      | ok _ =>
        refine Or.inr ⟨u, g, rfl, fun v g' h => ?_, fun v g' h => ?_⟩
        · simp only [h]
        · simp only [h]
          split <;> rfl

section found

variable {d a : Nat} {short : List UInt8} {p : Spot}

theorem untouched_freeEntry_iff (s : Fat32) (h dirId : Nat) :
    Untouched s (s.freeEntry h) dirId ↔ NothingToFree s h := by
  obtain ⟨-, hino, hdisk, -⟩ := s.freeEntry_frame h
  rw [nothingToFree_iff]
  exact ⟨fun hu => hu.fatCache, fun heq => ⟨heq, hino, fun _ _ _ _ _ _ => by rw [hdisk]⟩⟩

/-- An erased slot shows in the directory. -/
theorem not_untouched_of_spot {dir : FatInode} (hdir : s.inodes.get dirId = some dir) (h : Nat)
    (hspot : (s.freeEntry h).removeSpot short ((s.freeEntry h).clusterChain dir.firstCluster) =
      some p)
    (ht : t.disk.bytes (s.geo.clusterAddr p.cluster + p.slot * 32) = 0xE5) :
    ¬ Untouched s t dirId := by
  intro hu
  obtain ⟨hgeo, -, hdisk, -⟩ := s.freeEntry_frame h
  obtain ⟨hmem, hslot, hne⟩ := removeSpot_spec hspot
  rw [hgeo] at hslot hne
  have hmem' : p.cluster ∈ s.clusterChain dir.firstCluster := by
    rw [clusterChain_def, hgeo] at hmem
    exact (chainOf_shorter (s.freeEntry_fatCache h) dir.firstCluster).subset hmem
  have hin : s.geo.InCluster p.cluster (s.geo.clusterAddr p.cluster + p.slot * 32) :=
    Geometry.inCluster_add (by omega)
  have hsame := hu.bytes dir hdir p.cluster hmem' _ hin
  rw [ht] at hsame
  rw [hdisk, ← hsame] at hne
  exact hne rfl

theorem flushFat_spot (hs : Sound s) (g : Option Fault) (p : Spot) :
    ∃ v g', Faulty.flushFat g (s.eraseSpot p) = (!Fault.within g s.geo.numFats, v, g') ∧
      v.disk.bytes (s.geo.clusterAddr p.cluster + p.slot * 32) = 0xE5 := by
  have hs' : Sound (s.eraseSpot p) := hs.setBytes _
  obtain ⟨m, g', heq, hm⟩ := Faulty.flushFat_spec hs' g
  refine ⟨_, g', heq, (hm _ ?_).trans eraseSpot_self⟩
  have hle := s.geo.dataAddr_le_clusterAddr p.cluster
  change s.geo.dataAddr ≤ _
  omega

end found

theorem failsClean_of_error {f : Option Fault} {e : String}
    (h : Faulty.unlink upper f s dirId name = (.error e, t)) :
    FailsClean upper f s dirId name ↔ Untouched s t dirId := by
  refine ⟨fun hclean => hclean e t h, fun hu e' t' h' => ?_⟩
  rw [h] at h'
  obtain ⟨-, rfl⟩ := Prod.mk.inj h'
  exact hu

/-- An `unlink` that fails has changed nothing if and only if it is spared, on a disk
with or without a fault. -/
theorem failsClean_iff (hs : Sound s) (f : Option Fault) (dirId : Nat) (name : List UInt8) :
    FailsClean upper f s dirId name ↔ Spared upper f s dirId name := by
  rcases @Faulty.unlink_cases upper s hs f dirId name with ⟨⟨e, heq⟩, hnone⟩ |
    ⟨dir, a, hdir, hk, hslot, hcase⟩
  · constructor
    · intro _ dir a hdir hk hslot
      rw [hnone dir hdir hk] at hslot
      cases hslot
    · intro _ e' t ht
      rw [heq] at ht
      obtain ⟨-, rfl⟩ := Prod.mk.inj ht
      exact Untouched.refl s dirId
  have hspared : Spared upper f s dirId name ↔
      RemovesOrKeeps (Fault.past f (s.clusterChain dir.firstCluster).length) s dir.firstCluster a
        (toShortName upper name) := by
    constructor
    · exact fun h => h dir a hdir hk hslot
    · intro h dir' a' hdir' _ hslot'
      obtain rfl := Option.some.inj (hdir.symm.trans hdir')
      obtain rfl := Option.some.inj (hslot.symm.trans hslot')
      exact h
  rw [hspared]
  generalize Fault.past f (s.clusterChain dir.firstCluster).length = g at hcase ⊢
  obtain ⟨hgeo, -, hdisk, -⟩ := s.freeEntry_frame (s.entryAt a).firstCluster
  have hs₁ : Sound (s.freeEntry (s.entryAt a).firstCluster) := hs.of_eq hgeo (by rw [hdisk])
  have hvalid := (s.freeEntry (s.entryAt a).firstCluster).valid_clusterChain dir.firstCluster
  rw [Faulty.removeDirEntry] at hcase
  -- A failing removal ends the call in the state that it leaves.
  have herror : ∀ {e u g₁}, Faulty.removeClusters (s.freeEntry (s.entryAt a).firstCluster)
      (toShortName upper name) g ((s.freeEntry (s.entryAt a).firstCluster).clusterChain
        dir.firstCluster) = (.error e, u, g₁) →
      (FailsClean upper f s dirId name ↔ Untouched s u dirId) := by
    intro e u g₁ hrem
    rcases hcase with ⟨e', u', g', hrem', heq⟩ | ⟨u', g', hrem', -, -⟩
    · rw [hrem] at hrem'
      obtain ⟨-, hrest⟩ := Prod.mk.inj hrem'
      obtain ⟨rfl, -⟩ := Prod.mk.inj hrest
      exact failsClean_of_error heq
    · rw [hrem] at hrem'
      cases (Prod.mk.inj hrem').1
  rw [RemovesOrKeeps]
  cases hspot : (s.freeEntry (s.entryAt a).firstCluster).removeSpot (toShortName upper name)
      ((s.freeEntry (s.entryAt a).firstCluster).clusterChain dir.firstCluster) with
  | none =>
    obtain ⟨e, g₁, hrem⟩ := Faulty.removeClusters_of_none hs₁ hvalid hspot g
    rw [herror hrem, untouched_freeEntry_iff]
    simp
  | some p =>
    have hmono := within_past g (p.passed + 2) s.geo.numFats
    have hself := eraseSpot_self (s := s.freeEntry (s.entryAt a).firstCluster) (p := p)
    rw [hgeo] at hself
    rcases Faulty.removeClusters_of_some hs₁ hvalid hspot g with ⟨hwithin, e, g₁, hrem⟩ |
      ⟨hwithin, hrem⟩
    · rw [herror hrem]
      cases hstores : Fault.stores g p with
      | true =>
        simp only [if_true]
        have hnot := not_untouched_of_spot hdir _ hspot hself
        simp [hnot, hmono, hwithin, hstores]
      | false =>
        simp only [Bool.false_eq_true, if_false]
        rw [untouched_freeEntry_iff]
        simp [hmono, hwithin, hstores]
    · obtain ⟨v, g', hflush, hbyte⟩ := flushFat_spot hs₁ (Fault.past g (p.passed + 2)) p
      rw [hgeo] at hflush hbyte
      rcases hcase with ⟨e', u', g', hrem', -⟩ | ⟨u', g'', hrem', hfail, hok⟩
      · rw [hrem] at hrem'
        cases (Prod.mk.inj hrem').1
      rw [hrem] at hrem'
      obtain ⟨-, hrest⟩ := Prod.mk.inj hrem'
      obtain ⟨rfl, rfl⟩ := Prod.mk.inj hrest
      cases hlater : Fault.within (Fault.past g (p.passed + 2)) s.geo.numFats with
      | true =>
        rw [hlater] at hflush
        rw [failsClean_of_error (hfail v g' hflush)]
        have hnot := not_untouched_of_spot hdir _ hspot hbyte
        simp [hnot, hmono, hwithin, hlater]
      | false =>
        rw [hlater] at hflush
        have hsucc := hok v g' hflush
        refine iff_of_true (fun e t ht => ?_) (Or.inl ⟨p, rfl, by rw [hmono, hwithin, hlater]; rfl⟩)
        rw [ht] at hsucc
        cases hsucc

/-! ## Two volumes -/

theorem not_failsClean_of_error (hs : Sound s) {f : Option Fault} {dir : FatInode} {a : Nat}
    (hdir : s.inodes.get dirId = some dir) (hk : dir.isDir = true)
    (hslot : searchSlot f s dir.firstCluster (toShortName upper name) = some a)
    {e : String} {g : Option Fault}
    (hrem : Faulty.removeDirEntry (Fault.past f (s.clusterChain dir.firstCluster).length)
      (s.freeEntry (s.entryAt a).firstCluster) dir.firstCluster (toShortName upper name) =
        (.error e, s.freeEntry (s.entryAt a).firstCluster, g))
    (hfree : ¬ NothingToFree s (s.entryAt a).firstCluster) :
    ¬ FailsClean upper f s dirId name := by
  rcases @Faulty.unlink_cases upper s hs f dirId name with ⟨-, hnone⟩ |
    ⟨dir', a', hdir', -, hslot', hcase⟩
  · rw [hnone dir hdir hk] at hslot
    cases hslot
  obtain rfl := Option.some.inj (hdir.symm.trans hdir')
  obtain rfl := Option.some.inj (hslot.symm.trans hslot')
  rw [hrem] at hcase
  rcases hcase with ⟨e', u, g', hrem', heq⟩ | ⟨u, g', hrem', -⟩
  · obtain ⟨-, hrest⟩ := Prod.mk.inj hrem'
    obtain ⟨rfl, -⟩ := Prod.mk.inj hrest
    rw [failsClean_of_error heq, untouched_freeEntry_iff]
    exact hfree
  · cases (Prod.mk.inj hrem').1

/-- A directory whose first slot has the end mark, with the file `A` of two clusters
behind it. -/
def gapVolume : Fat32 :=
  flatVolume smallGeometry twoClusterFat [endMarkEntry, entryA 3 1024]

theorem gapVolume_sound : Sound gapVolume := ⟨rfl, by decide, by decide⟩

theorem failsClean_iff_gap : FailsClean id (some ⟨0, 0⟩) gapVolume 1 [0x41] ↔
    Spared id (some ⟨0, 0⟩) gapVolume 1 [0x41] :=
  failsClean_iff gapVolume_sound (some ⟨0, 0⟩) 1 [0x41]

/-- Behind an end mark the file is found, and freed, and not removed.  And on a disk
that fails to read the directory once more, any file is. -/
theorem not_failsClean :
    ¬ FailsClean id none gapVolume 1 [0x41] ∧
      ¬ FailsClean id (some ⟨1, 0⟩) oneFileMount 1 [0x41] := by
  have hname : toShortName id [0x41] = nameA := by decide
  constructor
  · have hslot : searchSlot none gapVolume 2 nameA = some (rootSlot smallGeometry 1) := by
      decide +kernel
    have hentry : (gapVolume.entryAt (rootSlot smallGeometry 1)).firstCluster = 3 := by
      decide +kernel
    have hnone : removeFind gapVolume.entryAt nameA ((gapVolume.freeEntry 3).slotAddrs 2) = none := by
      decide +kernel
    have hs : Sound (gapVolume.freeEntry 3) := gapVolume_sound.of_eq rfl rfl
    have hrem : Faulty.removeDirEntry none (gapVolume.freeEntry 3) 2 nameA =
        (.error "file not found", gapVolume.freeEntry 3, none) := by
      rw [Faulty.removeDirEntry, Faulty.removeClusters_none, ← removeDirEntry, removeDirEntry_eq hs,
        freeEntry_entryAt, hnone]
    have hfree : ¬ NothingToFree gapVolume 3 := fun h =>
      absurd (h 3 (mem_chainOf_self (by decide))) (by decide)
    rw [← hentry] at hrem hfree
    exact not_failsClean_of_error gapVolume_sound rfl rfl (hname ▸ hslot) (hname ▸ hrem) hfree
  · have hslot : searchSlot (some ⟨1, 0⟩) oneFileMount 2 nameA = some (rootSlot smallGeometry 0) := by
      decide +kernel
    have hentry : (oneFileMount.entryAt (rootSlot smallGeometry 0)).firstCluster = 3 := by
      rw [oneFileMount_entry.2]
      rfl
    have hchain : (oneFileMount.clusterChain 2).length = 1 := by decide +kernel
    have hrem : Faulty.removeDirEntry (Fault.past (some ⟨1, 0⟩) (oneFileMount.clusterChain 2).length)
        (oneFileMount.freeEntry 3) 2 nameA =
          (.error "ata read failed", oneFileMount.freeEntry 3, none) := by
      rw [hchain, Faulty.removeDirEntry, clusterChain_cons (by decide)]
      rfl
    have hfree : ¬ NothingToFree oneFileMount 3 := fun h =>
      absurd (h 3 (mem_chainOf_self (by decide))) (by decide +kernel)
    rw [← hentry] at hrem hfree
    exact not_failsClean_of_error oneFileMount_clean.sound rfl rfl (hname ▸ hslot) (hname ▸ hrem)
      hfree

end AeroOS.Fat32
