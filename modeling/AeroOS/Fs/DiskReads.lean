import AeroOS.Fs.Devfs

/-!
# Reading the disk through `/dev/hda`

A read of the disk device takes whole sectors into a scratch buffer and copies the part that is
asked for, up to the first sector that cannot be read.

* `UpTo` is the number of positions before the first one that fails; it is unique, and adds up
  over consecutive ranges.
* `readHda` is the loop on a drive some of whose sectors cannot be read, and `hdaLoop_filled`
  its invariant.
* `readHda_upTo`: the bytes and the number of them; `readHdaAll_eq`: consecutive reads.
* `read_hda`: on a drive without such sectors it is the read of `Devfs.ops`.
-/

namespace AeroOS.Fs.Devfs

open Bytes Ata

/-! ## Up to the first failure -/

/-- Of `len` positions, those below `n` are good, and `n` is not, if it is one of them. -/
structure UpTo (good : Nat → Prop) (len n : Nat) : Prop where
  le : n ≤ len
  below : ∀ k < n, good k
  stop : n < len → ¬ good n

section upTo

variable {good : Nat → Prop} {len n n' : Nat}

theorem UpTo.unique (h : UpTo good len n) (h' : UpTo good len n') : n = n' := by
  rcases Nat.lt_trichotomy n n' with hlt | heq | hgt
  · exact absurd (h'.below n hlt) (h.stop (Nat.lt_of_lt_of_le hlt h'.le))
  · exact heq
  · exact absurd (h.below n' hgt) (h'.stop (Nat.lt_of_lt_of_le hgt h.le))

/-- A range that is continued where the first part ended, also if that was early. -/
theorem UpTo.append {len' : Nat} (h : UpTo good len n) (h' : UpTo (fun k => good (n + k)) len' n') :
    UpTo good (len + len') (n + n') := by
  have hle := h.le
  have hle' := h'.le
  refine ⟨by omega, ?_, ?_⟩
  · intro k hk
    by_cases hkn : k < n
    · exact h.below k hkn
    · have hgood := h'.below (k - n) (by omega)
      rwa [show n + (k - n) = k by omega] at hgood
  · intro hlt
    by_cases hend : n' < len'
    · exact h'.stop hend
    · -- the second part is whole, so the first one is too, or it is empty
      by_cases hzero : n' = 0
      · rw [hzero]
        exact h.stop (by omega)
      · exact absurd (h'.below 0 (by omega)) (h.stop (by omega))

end upTo

/-! ## The loop -/

/-- `ata::read_sector` on a drive with sectors that cannot be read. -/
def readSector (d : Disk) (bad : Nat → Bool) (lba : Nat) : Option (List UInt8) :=
  if bad lba then none else readSectors d lba 512

/-- The loop of `read`, with the position on the disk, the counter `read_total` and the
buffer. -/
def hdaLoop (d : Disk) (bad : Nat → Bool) : Nat → Nat → Nat → List UInt8 → Nat × List UInt8
  | 0, _, readTotal, buf => (readTotal, buf)
  | fuel + 1, pos, readTotal, buf =>
    if readTotal < buf.length then
      let lba := pos / 512
      let inSector := pos % 512
      match readSector d bad lba with
      | none => (readTotal, buf)
      | some sector =>
        let take := min (512 - inSector) (buf.length - readTotal)
        hdaLoop d bad fuel (pos + take) (readTotal + take)
          (patch buf readTotal ((sector.drop inSector).take take))
    else (readTotal, buf)

/-- `read` on `hda`: the number of bytes, and the buffer.  A round fills a byte at least. -/
def readHda (d : Disk) (bad : Nat → Bool) (offset : Nat) (buf : List UInt8) : Nat × List UInt8 :=
  hdaLoop d bad buf.length offset 0 buf

/-- The sector can be read: there is a drive, the address has 28 bits, and the drive does not
fail there. -/
def Readable (d : Disk) (bad : Nat → Bool) (lba : Nat) : Prop :=
  d.present = true ∧ lba < 2 ^ 28 ∧ bad lba = false

variable {d : Disk} {bad : Nat → Bool}

theorem readSector_eq {lba : Nat} (h : Readable d bad lba) :
    readSector d bad lba = some (readBytes d.bytes (512 * lba) 512) := by
  rw [readSector, h.2.2, if_neg Bool.false_ne_true]
  exact readSectors_eq (k := 1) h.1 (by decide) (by have := h.2.1; omega)

theorem readSector_eq_none {lba : Nat} (h : ¬ Readable d bad lba) :
    readSector d bad lba = none := by
  unfold readSector Readable at *
  cases hbad : bad lba with
  | true => rfl
  | false =>
    rw [if_neg Bool.false_ne_true, readSectors, if_pos]
    by_cases hp : d.present = true
    · exact Or.inr (Nat.le_of_not_lt fun hlt => h ⟨hp, hlt, hbad⟩)
    · exact Or.inl (Bool.eq_false_iff.2 hp)

/-- The byte at a position of the range can be read. -/
def ByteReadable (d : Disk) (bad : Nat → Bool) (offset k : Nat) : Prop :=
  Readable d bad ((offset + k) / 512)

/-- The loop has filled the first `n` bytes of the buffer from the disk. -/
structure Filled (d : Disk) (bad : Nat → Bool) (offset : Nat) (buf : List UInt8) (n : Nat)
    (buf' : List UInt8) : Prop where
  le : n ≤ buf.length
  readable : ∀ k < n, ByteReadable d bad offset k
  bytes : buf' = patch buf 0 (readBytes d.bytes offset n)

/-- The part of a sector from a byte in it on. -/
theorem sector_slice (m : Store) (pos : Nat) {take : Nat} (h : take ≤ 512 - pos % 512) :
    ((readBytes m (512 * (pos / 512)) 512).drop (pos % 512)).take take = readBytes m pos take := by
  have hslice := readBytes_drop_take m (512 * (pos / 512)) (n := 512) (i := pos % 512) (k := take)
    (by omega)
  rwa [Nat.div_add_mod] at hslice

/-- One round of the loop. -/
theorem Filled.round {offset n : Nat} {buf buf' : List UInt8} (h : Filled d bad offset buf n buf')
    (hn : n < buf.length) (hread : ByteReadable d bad offset n) :
    let take := min (512 - (offset + n) % 512) (buf.length - n)
    Filled d bad offset buf (n + take) (patch buf' n (readBytes d.bytes (offset + n) take)) := by
  intro take
  have htake : take ≤ buf.length - n := Nat.min_le_right _ _
  have hsector : take ≤ 512 - (offset + n) % 512 := Nat.min_le_left _ _
  refine ⟨by omega, ?_, ?_⟩
  · intro k hk
    by_cases hkn : k < n
    · exact h.readable k hkn
    · have hlba : (offset + k) / 512 = (offset + n) / 512 := by omega
      rw [ByteReadable, hlba]
      exact hread
  · have happend := patch_append (l := buf) (p := readBytes d.bytes offset n)
      (q := readBytes d.bytes (offset + n) take) (o := 0) (by
        rw [readBytes_length, readBytes_length]
        omega)
    rw [readBytes_length, Nat.zero_add, ← readBytes_add] at happend
    rw [h.bytes, happend]

/-- The loop fills the buffer up to the first sector that cannot be read. -/
theorem hdaLoop_filled {offset : Nat} {buf : List UInt8} {fuel n : Nat} {buf' : List UInt8}
    (h : Filled d bad offset buf n buf') (hfuel : buf.length ≤ n + fuel) :
    let r := hdaLoop d bad fuel (offset + n) n buf'
    Filled d bad offset buf r.1 r.2 ∧
      (r.1 < buf.length → ¬ ByteReadable d bad offset r.1) := by
  induction fuel generalizing n buf' with
  | zero => exact ⟨h, fun hlt => absurd hlt (Nat.not_lt.2 hfuel)⟩
  | succ fuel ih =>
    have hlen : buf'.length = buf.length := by
      rw [h.bytes, patch_length (by rw [readBytes_length]; have := h.le; omega)]
    intro r
    by_cases hn : n < buf.length
    · by_cases hread : ByteReadable d bad offset n
      · have htake := Nat.min_le_left (512 - (offset + n) % 512) (buf.length - n)
        have hr : r = hdaLoop d bad fuel
            (offset + (n + min (512 - (offset + n) % 512) (buf.length - n)))
            (n + min (512 - (offset + n) % 512) (buf.length - n))
            (patch buf' n (readBytes d.bytes (offset + n)
              (min (512 - (offset + n) % 512) (buf.length - n)))) := by
          show hdaLoop d bad (fuel + 1) (offset + n) n buf' = _
          rw [hdaLoop, hlen, if_pos hn]
          simp only [readSector_eq hread, sector_slice _ _ htake, ← Nat.add_assoc]
        rw [hr]
        refine ih (h.round hn hread) ?_
        have hmod := Nat.mod_lt (offset + n) (show 0 < 512 by decide)
        omega
      · have hr : r = (n, buf') := by
          show hdaLoop d bad (fuel + 1) (offset + n) n buf' = _
          rw [hdaLoop, hlen, if_pos hn]
          simp only [readSector_eq_none hread]
        rw [hr]
        exact ⟨h, fun _ => hread⟩
    · have hr : r = (n, buf') := by
        show hdaLoop d bad (fuel + 1) (offset + n) n buf' = _
        rw [hdaLoop, hlen, if_neg hn]
      rw [hr]
      exact ⟨h, fun hlt => absurd hlt hn⟩

/-- The number of bytes is that up to the first sector that cannot be read, and they are the
bytes of the disk. -/
theorem readHda_upTo (d : Disk) (bad : Nat → Bool) (offset : Nat) (buf : List UInt8) :
    UpTo (ByteReadable d bad offset) buf.length (readHda d bad offset buf).1 ∧
      (readHda d bad offset buf).2 =
        readBytes d.bytes offset (readHda d bad offset buf).1 ++
          buf.drop (readHda d bad offset buf).1 := by
  have hstart : Filled d bad offset buf 0 buf :=
    ⟨Nat.zero_le _, fun k hk => absurd hk (Nat.not_lt_zero k), by simp⟩
  obtain ⟨hfilled, hstop⟩ := hdaLoop_filled hstart (Nat.le_add_left buf.length 0)
  refine ⟨⟨hfilled.le, hfilled.readable, hstop⟩, ?_⟩
  have hbytes := hfilled.bytes
  rw [patch, List.take_zero, List.nil_append, readBytes_length, Nat.zero_add] at hbytes
  exact hbytes

/-! ## Consecutive reads -/

/-- The bytes that a list of reads gives, each into a buffer of its own and from where the one
before it ended. -/
def readHdaAll (d : Disk) (bad : Nat → Bool) : Nat → List (List UInt8) → List UInt8
  | _, [] => []
  | offset, buf :: bufs =>
    let r := readHda d bad offset buf
    r.2.take r.1 ++ readHdaAll d bad (offset + r.1) bufs

theorem readHda_take (d : Disk) (bad : Nat → Bool) (offset : Nat) (buf : List UInt8) :
    (readHda d bad offset buf).2.take (readHda d bad offset buf).1 =
      readBytes d.bytes offset (readHda d bad offset buf).1 := by
  rw [(readHda_upTo d bad offset buf).2]
  exact List.take_left' (readBytes_length _ _ _)

/-- Consecutive reads give the bytes up to the first sector of the whole range that cannot be
read. -/
theorem readHdaAll_eq (d : Disk) (bad : Nat → Bool) (offset : Nat) (bufs : List (List UInt8)) :
    ∃ n, UpTo (ByteReadable d bad offset) (bufs.map List.length).sum n ∧
      readHdaAll d bad offset bufs = readBytes d.bytes offset n := by
  induction bufs generalizing offset with
  | nil => exact ⟨0, ⟨Nat.le_refl 0, fun k hk => absurd hk (Nat.not_lt_zero k),
      fun h => absurd h (Nat.lt_irrefl 0)⟩, rfl⟩
  | cons buf bufs ih =>
    obtain ⟨n, hn, heq⟩ := ih (offset + (readHda d bad offset buf).1)
    have hfirst := (readHda_upTo d bad offset buf).1
    refine ⟨(readHda d bad offset buf).1 + n, ?_, ?_⟩
    · rw [List.map_cons, List.sum_cons]
      refine hfirst.append ?_
      unfold ByteReadable at hn ⊢
      simpa only [Nat.add_assoc] using hn
    · rw [readHdaAll, readHda_take, heq, ← readBytes_add]

/-! ## The device -/

theorem hdaBytes_upTo (d : Disk) (offset left : Nat) :
    UpTo (ByteReadable d (fun _ => false) offset) left (hdaBytes d offset left).length ∧
      hdaBytes d offset left = readBytes d.bytes offset (hdaBytes d offset left).length := by
  induction left using Nat.strongRecOn generalizing offset with
  | ind left ih =>
    have hmod := Nat.mod_lt offset (show 0 < 512 by decide)
    rw [hdaBytes]
    by_cases hleft : 0 < left
    · rw [dif_pos hleft]
      by_cases hread : Readable d (fun _ => false) (offset / 512)
      · have hsector := readSector_eq hread
        rw [readSector, if_neg Bool.false_ne_true] at hsector
        set take := min (512 - offset % 512) left with htake
        have hle : take ≤ 512 - offset % 512 := Nat.min_le_left _ _
        have hle' : take ≤ left := Nat.min_le_right _ _
        obtain ⟨hrest, hbytes⟩ := ih (left - take) (by omega) (offset + take)
        have hfirst : UpTo (ByteReadable d (fun _ => false) offset) take take := by
          refine ⟨Nat.le_refl _, ?_, fun h => absurd h (Nat.lt_irrefl _)⟩
          intro k hk
          rw [ByteReadable, show (offset + k) / 512 = offset / 512 by omega]
          exact hread
        have hrest' : UpTo (fun k => ByteReadable d (fun _ => false) offset (take + k))
            (left - take) (hdaBytes d (offset + take) (left - take)).length := by
          unfold ByteReadable at hrest ⊢
          simpa only [Nat.add_assoc] using hrest
        have hboth := hfirst.append hrest'
        rw [hsector]
        simp only [sector_slice _ _ hle, List.length_append, readBytes_length]
        rw [show take + (left - take) = left by omega] at hboth
        refine ⟨hboth, ?_⟩
        rw [readBytes_add, ← hbytes]
      · have hsector := readSector_eq_none hread
        rw [readSector, if_neg Bool.false_ne_true] at hsector
        rw [hsector]
        refine ⟨⟨Nat.zero_le _, fun k hk => absurd hk (Nat.not_lt_zero k), fun _ => ?_⟩, rfl⟩
        exact hread
    · rw [dif_neg hleft]
      exact ⟨⟨Nat.zero_le _, fun k hk => absurd hk (Nat.not_lt_zero k),
        fun h => absurd h hleft⟩, rfl⟩

/-- On a drive that does not fail this is the read of the device filesystem. -/
theorem read_hda {τ : Type} (disk : DiskIn τ) (s : Devices × τ) (offset : Nat)
    (buf : List UInt8) :
    read disk s HDA_INODE offset buf =
      (.ok (readHda (disk.get s.2) (fun _ => false) offset buf), s) := by
  obtain ⟨hupTo, hbytes⟩ := hdaBytes_upTo (disk.get s.2) offset buf.length
  obtain ⟨hupTo', hbuf⟩ := readHda_upTo (disk.get s.2) (fun _ => false) offset buf
  have hn := hupTo.unique hupTo'
  show (Except.ok ((hdaBytes (disk.get s.2) offset buf.length).length,
    patch buf 0 (hdaBytes (disk.get s.2) offset buf.length)), s) = _
  rw [hn] at hbytes
  rw [hn, hbytes, patch, List.take_zero, List.nil_append, readBytes_length, Nat.zero_add, ← hbuf]

/-- Reads of `/dev/hda` are exact: a read gives the number of bytes up to the first sector that
cannot be read and the bytes of the disk, and leaves the rest of the buffer; and any list of
consecutive reads gives the bytes of one read of the whole range. -/
theorem hda_exact (d : Disk) (bad : Nat → Bool) (offset : Nat) (buf : List UInt8) :
    let r := readHda d bad offset buf
    UpTo (ByteReadable d bad offset) buf.length r.1 ∧
      r.2 = readBytes d.bytes offset r.1 ++ buf.drop r.1 ∧
      (∀ bufs : List (List UInt8), (bufs.map List.length).sum = buf.length →
        readHdaAll d bad offset bufs = r.2.take r.1) ∧
      ∀ {τ : Type} (disk : DiskIn τ) (s : Devices × τ), disk.get s.2 = d →
        (∀ lba, bad lba = false) → read disk s HDA_INODE offset buf = (.ok r, s) := by
  intro r
  obtain ⟨hupTo, hbuf⟩ := readHda_upTo d bad offset buf
  refine ⟨hupTo, hbuf, ?_, ?_⟩
  · intro bufs hsum
    obtain ⟨n, hn, heq⟩ := readHdaAll_eq d bad offset bufs
    rw [hsum] at hn
    rw [heq, readHda_take, hn.unique hupTo]
  · intro τ disk s hdisk hgood
    rw [read_hda, hdisk, ← funext hgood]

end AeroOS.Fs.Devfs
