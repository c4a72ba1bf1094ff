import AeroOS.Lib.Bytes

/-!
# The ATA disk driver

`ata.rs` moves whole sectors between a buffer and the primary master.  The
device is an exact array of sectors: byte `i` of sector `n` is byte
`512 * n + i` of the store, a command that the driver issues succeeds, and the
driver refuses a command only on the checks it makes itself.

* `readSectors` and `writeSectors` are `read_sectors` and `write_sectors`:
  more than 256 sectors go in chunks of 255, each a command of its own.
* `readSectors_eq` and `writeSectors_eq`: below the 28-bit limit a transfer
  of any length is one range of the store.
* `writeSectors_of_ok`: a transfer that reports success is one range, wherever
  it goes.  `writeSectors_below`: no transfer writes below its first sector.
-/

namespace AeroOS.Ata

open Bytes

/-- The disk: whether `detect` found one, and its contents. -/
structure Disk where
  present : Bool
  bytes : Store

/-- One command of at most 256 sectors. -/
def readCommand (d : Disk) (lba len : Nat) : Option (List UInt8) :=
  if d.present = false ∨ 2 ^ 28 ≤ lba then none
  else if len / 512 = 0 ∨ len % 512 ≠ 0 then none
  else some (readBytes d.bytes (512 * lba) len)

/-- The chunk loop of `read_sectors`, with `n` chunks left from `chunk` up. -/
def readChunks (d : Disk) (lba sectors : Nat) : Nat → Nat → Option (List UInt8)
  | 0, _ => some []
  | n + 1, chunk =>
    let start := chunk * 255
    let k := min (sectors - start) 255
    match readCommand d (lba + start) (k * 512) with
    | none => none
    | some bs => (readChunks d lba sectors n (chunk + 1)).map (bs ++ ·)

/-- `read_sectors` into a buffer of `len` bytes; `none` is its `false`. -/
def readSectors (d : Disk) (lba len : Nat) : Option (List UInt8) :=
  if d.present = false ∨ 2 ^ 28 ≤ lba then none
  else if len / 512 = 0 ∨ len % 512 ≠ 0 then none
  else if 256 < len / 512 then
    readChunks d lba (len / 512) ((len / 512 + 254) / 255) 0
  else readCommand d lba len

/-- One command of at most 256 sectors. -/
def writeCommand (d : Disk) (lba : Nat) (buf : List UInt8) : Bool × Disk :=
  if d.present = false ∨ 2 ^ 28 ≤ lba then (false, d)
  else if buf.length / 512 = 0 ∨ buf.length % 512 ≠ 0 then (false, d)
  else (true, { d with bytes := writeBytes d.bytes (512 * lba) buf })

/-- The chunk loop of `write_sectors`, with `n` chunks left from `chunk` up. -/
def writeChunks (lba : Nat) (buf : List UInt8) : Nat → Nat → Disk → Bool × Disk
  | 0, _, d => (true, d)
  | n + 1, chunk, d =>
    let start := chunk * 255
    let k := min (buf.length / 512 - start) 255
    match writeCommand d (lba + start) ((buf.drop (start * 512)).take (k * 512)) with
    | (false, d) => (false, d)
    | (true, d) => writeChunks lba buf n (chunk + 1) d

/-- `write_sectors`: whether it succeeded, and the disk afterwards. -/
def writeSectors (d : Disk) (lba : Nat) (buf : List UInt8) : Bool × Disk :=
  if d.present = false ∨ 2 ^ 28 ≤ lba then (false, d)
  else if buf.length / 512 = 0 ∨ buf.length % 512 ≠ 0 then (false, d)
  else if 256 < buf.length / 512 then
    writeChunks lba buf ((buf.length / 512 + 254) / 255) 0 d
  else writeCommand d lba buf

/-! ## A transfer is one range of the store -/

theorem readCommand_eq {d : Disk} {lba k : Nat} (hp : d.present = true) (hk : 0 < k)
    (h : lba < 2 ^ 28) :
    readCommand d lba (k * 512) = some (readBytes d.bytes (512 * lba) (k * 512)) := by
  rw [readCommand, if_neg (by simp [hp]; omega), if_neg (by omega)]

theorem writeCommand_eq {d : Disk} {lba : Nat} {buf : List UInt8} {k : Nat}
    (hp : d.present = true) (hlen : buf.length = k * 512) (hk : 0 < k) (h : lba < 2 ^ 28) :
    writeCommand d lba buf =
      (true, { d with bytes := writeBytes d.bytes (512 * lba) buf }) := by
  rw [writeCommand, if_neg (by simp [hp]; omega), if_neg (by omega)]

/-- What is left from a chunk on is the chunk and what is left from the next one. -/
theorem readBytes_chunk (m : Store) (lba sectors chunk : Nat) :
    readBytes m (512 * (lba + chunk * 255)) ((sectors - chunk * 255) * 512) =
      readBytes m (512 * (lba + chunk * 255)) (min (sectors - chunk * 255) 255 * 512) ++
        readBytes m (512 * (lba + (chunk + 1) * 255)) ((sectors - (chunk + 1) * 255) * 512) := by
  have hsplit : (sectors - chunk * 255) * 512 =
      min (sectors - chunk * 255) 255 * 512 + (sectors - (chunk + 1) * 255) * 512 := by
    omega
  rw [hsplit, readBytes_add]
  by_cases hlast : sectors ≤ (chunk + 1) * 255
  · have : sectors - (chunk + 1) * 255 = 0 := by omega
    simp [this]
  · have haddr : 512 * (lba + chunk * 255) + min (sectors - chunk * 255) 255 * 512 =
        512 * (lba + (chunk + 1) * 255) := by omega
    rw [haddr]

/-- From chunk `chunk` on, the chunk loop reads what is left of the range. -/
theorem readChunks_eq {d : Disk} {lba sectors : Nat} (hp : d.present = true)
    (h : lba + sectors ≤ 2 ^ 28) {n chunk total : Nat}
    (hn : n + chunk = total) (hlo : total * 255 < sectors + 255) (hhi : sectors ≤ total * 255) :
    readChunks d lba sectors n chunk =
      some (readBytes d.bytes (512 * (lba + chunk * 255)) ((sectors - chunk * 255) * 512)) := by
  induction n generalizing chunk with
  | zero =>
    have : sectors - chunk * 255 = 0 := by omega
    simp [readChunks, this]
  | succ n ih =>
    have hk : 0 < min (sectors - chunk * 255) 255 := by omega
    rw [readChunks, readCommand_eq hp hk (by omega)]
    have hrest : readChunks d lba sectors n (chunk + 1) =
        some (readBytes d.bytes (512 * (lba + (chunk + 1) * 255))
          ((sectors - (chunk + 1) * 255) * 512)) := ih (by omega)
    simp only [hrest, Option.map_some]
    rw [readBytes_chunk d.bytes lba sectors chunk]

/-- Below the 28-bit limit, `read_sectors` reads one range. -/
theorem readSectors_eq {d : Disk} {lba k : Nat} (hp : d.present = true) (hk : 0 < k)
    (h : lba + k ≤ 2 ^ 28) :
    readSectors d lba (k * 512) = some (readBytes d.bytes (512 * lba) (k * 512)) := by
  rw [readSectors, if_neg (by simp [hp]; omega), if_neg (by omega)]
  split
  · rw [readChunks_eq hp (by omega) rfl (by omega) (by omega)]
    simp
  · exact readCommand_eq hp hk (by omega)

theorem readCommand_of_some {d d' : Disk} {lba len : Nat} {bs : List UInt8}
    (h : readCommand d lba len = some bs) (hp : d'.present = true) :
    readCommand d' lba len = some (readBytes d'.bytes (512 * lba) len) := by
  unfold readCommand at h ⊢
  split at h
  · cases h
  · rename_i hreach
    split at h
    · cases h
    · rename_i hlen
      rw [if_neg (by rw [hp]; simp only [not_or] at hreach ⊢; exact ⟨by decide, hreach.2⟩),
        if_neg hlen]

theorem readChunks_of_some {d d' : Disk} {lba sectors : Nat} (hp : d'.present = true)
    {n chunk total : Nat} {bs : List UInt8} (h : readChunks d lba sectors n chunk = some bs)
    (hn : n + chunk = total) (hlo : total * 255 < sectors + 255) (hhi : sectors ≤ total * 255) :
    readChunks d' lba sectors n chunk =
      some (readBytes d'.bytes (512 * (lba + chunk * 255)) ((sectors - chunk * 255) * 512)) := by
  induction n generalizing chunk bs with
  | zero =>
    have : sectors - chunk * 255 = 0 := by omega
    simp [readChunks, this]
  | succ n ih =>
    rw [readChunks] at h ⊢
    cases hc : readCommand d (lba + chunk * 255) (min (sectors - chunk * 255) 255 * 512) with
    | none => simp [hc] at h
    | some part =>
      simp only [hc, Option.map_eq_some_iff] at h
      obtain ⟨rest, hrest, -⟩ := h
      simp only [readCommand_of_some hc hp, ih hrest (by omega), Option.map_some]
      rw [readBytes_chunk d'.bytes lba sectors chunk]

/-- What can be read from one disk can be read from any other: it is one range. -/
theorem readSectors_of_some {d d' : Disk} {lba len : Nat} {bs : List UInt8}
    (h : readSectors d lba len = some bs) (hp : d'.present = true) :
    readSectors d' lba len = some (readBytes d'.bytes (512 * lba) len) := by
  unfold readSectors at h ⊢
  split at h
  · cases h
  · rename_i hreach
    split at h
    · cases h
    · rename_i hlen
      rw [if_neg (by rw [hp]; simp only [not_or] at hreach ⊢; exact ⟨by decide, hreach.2⟩),
        if_neg hlen]
      split at h
      · rename_i hmany
        rw [if_pos hmany, readChunks_of_some hp h rfl (by omega) (by omega)]
        have hfull : (len / 512 - 0 * 255) * 512 = len := by omega
        rw [hfull, Nat.zero_mul, Nat.add_zero]
      · rename_i hfew
        rw [if_neg hfew]
        exact readCommand_of_some h hp

/-- A command that reports success wrote its buffer. -/
theorem writeCommand_of_ok {d d' : Disk} {lba : Nat} {buf : List UInt8}
    (h : writeCommand d lba buf = (true, d')) :
    d' = { d with bytes := writeBytes d.bytes (512 * lba) buf } := by
  rw [writeCommand] at h
  split at h
  · cases h
  split at h
  · cases h
  exact (Prod.mk.inj h).2.symm

/-- Below the 28-bit limit no chunk fails. -/
theorem writeChunks_ok {lba : Nat} {buf : List UInt8} {sectors : Nat}
    (hlen : buf.length = sectors * 512) (h : lba + sectors ≤ 2 ^ 28) {n chunk total : Nat}
    (hn : n + chunk = total) (hlo : total * 255 < sectors + 255) {d : Disk}
    (hp : d.present = true) : (writeChunks lba buf n chunk d).1 = true := by
  induction n generalizing chunk d with
  | zero => rfl
  | succ n ih =>
    have hdiv : buf.length / 512 = sectors := by omega
    have hk : 0 < min (sectors - chunk * 255) 255 := by omega
    rw [writeChunks, hdiv, writeCommand_eq hp (k := min (sectors - chunk * 255) 255)
      (by simp [hlen]; omega) hk (by omega)]
    exact ih (show n + (chunk + 1) = total by omega) hp

/-- From chunk `chunk` on, a chunk loop that reports success wrote what was left of the
buffer. -/
theorem writeChunks_of_ok {lba : Nat} {buf : List UInt8} {sectors : Nat}
    (hlen : buf.length = sectors * 512) {n chunk total : Nat}
    (hn : n + chunk = total) (hlo : total * 255 < sectors + 255) (hhi : sectors ≤ total * 255)
    {d d' : Disk} (h : writeChunks lba buf n chunk d = (true, d')) :
    d' = { d with
      bytes := writeBytes d.bytes (512 * (lba + chunk * 255)) (buf.drop (chunk * 255 * 512)) } := by
  induction n generalizing chunk d with
  | zero =>
    rw [writeChunks] at h
    rw [List.drop_eq_nil_of_le (by omega), writeBytes_nil, (Prod.mk.inj h).2]
  | succ n ih =>
    have hdiv : buf.length / 512 = sectors := by omega
    rw [writeChunks, hdiv] at h
    cases hc : writeCommand d (lba + chunk * 255)
        ((buf.drop (chunk * 255 * 512)).take (min (sectors - chunk * 255) 255 * 512)) with
    | mk ok d₁ =>
      cases ok with
      | false =>
        rw [hc] at h
        cases h
      | true =>
        rw [hc] at h
        rw [ih (show n + (chunk + 1) = total by omega) h, writeCommand_of_ok hc]
        simp only [Disk.mk.injEq, true_and]
        have hdrop : buf.drop (chunk * 255 * 512) =
            (buf.drop (chunk * 255 * 512)).take (min (sectors - chunk * 255) 255 * 512) ++
              buf.drop ((chunk + 1) * 255 * 512) := by
          conv_lhs => rw [← List.take_append_drop (min (sectors - chunk * 255) 255 * 512)
            (buf.drop (chunk * 255 * 512))]
          rw [List.drop_drop]
          by_cases hlast : sectors ≤ (chunk + 1) * 255
          · have hnil : ∀ i, sectors * 512 ≤ i → buf.drop i = [] := fun i hi =>
              List.drop_eq_nil_of_le (by omega)
            rw [hnil (_ + _) (by omega), hnil ((chunk + 1) * 255 * 512) (by omega)]
          · have hstep : chunk * 255 * 512 + min (sectors - chunk * 255) 255 * 512 =
                (chunk + 1) * 255 * 512 := by omega
            rw [hstep]
        conv_rhs => rw [hdrop, ← writeBytes_append]
        by_cases hlast : sectors ≤ (chunk + 1) * 255
        · rw [List.drop_eq_nil_of_le (show buf.length ≤ (chunk + 1) * 255 * 512 by omega)]
          simp
        · have haddr : 512 * (lba + chunk * 255) +
              ((buf.drop (chunk * 255 * 512)).take
                (min (sectors - chunk * 255) 255 * 512)).length =
              512 * (lba + (chunk + 1) * 255) := by
            simp [hlen]
            omega
          rw [haddr]

/-- A transfer that reports success wrote its buffer as one range. -/
theorem writeSectors_of_ok {d d' : Disk} {lba : Nat} {buf : List UInt8}
    (h : writeSectors d lba buf = (true, d')) :
    d' = { d with bytes := writeBytes d.bytes (512 * lba) buf } := by
  rw [writeSectors] at h
  split at h
  · cases h
  split at h
  · cases h
  split at h
  · have hlen : buf.length = buf.length / 512 * 512 := by omega
    simpa using writeChunks_of_ok hlen rfl (by omega) (by omega) h
  · exact writeCommand_of_ok h

/-- Below the 28-bit limit, `write_sectors` writes one range. -/
theorem writeSectors_eq {d : Disk} {lba : Nat} {buf : List UInt8} {k : Nat}
    (hp : d.present = true) (hlen : buf.length = k * 512) (hk : 0 < k)
    (h : lba + k ≤ 2 ^ 28) :
    writeSectors d lba buf =
      (true, { d with bytes := writeBytes d.bytes (512 * lba) buf }) := by
  have hok : (writeSectors d lba buf).1 = true := by
    rw [writeSectors, if_neg (by simp [hp]; omega), if_neg (by omega)]
    split
    · exact writeChunks_ok hlen h rfl (by omega) hp
    · rw [writeCommand_eq hp hlen hk (by omega)]
  have hres : writeSectors d lba buf = (true, (writeSectors d lba buf).2) := Prod.ext hok rfl
  rw [hres, writeSectors_of_ok hres]

/-! ## Where a transfer writes -/

/-- From `d` to `d'` the disk is the same below byte `a`. -/
structure SameBelow (a : Nat) (d d' : Disk) : Prop where
  present : d'.present = d.present
  bytes : ∀ x < a, d'.bytes x = d.bytes x

theorem SameBelow.refl (a : Nat) (d : Disk) : SameBelow a d d := ⟨rfl, fun _ _ => rfl⟩

theorem SameBelow.trans {a : Nat} {d d' d'' : Disk} (h : SameBelow a d d')
    (h' : SameBelow a d' d'') : SameBelow a d d'' :=
  ⟨h'.present.trans h.present, fun x hx => (h'.bytes x hx).trans (h.bytes x hx)⟩

theorem writeCommand_below (d : Disk) {lba a : Nat} (buf : List UInt8) (ha : a ≤ 512 * lba) :
    SameBelow a d (writeCommand d lba buf).2 := by
  rw [writeCommand]
  split
  · exact SameBelow.refl a d
  split
  · exact SameBelow.refl a d
  exact ⟨rfl, fun x hx => writeBytes_out _ (Or.inl (by omega))⟩

theorem writeChunks_below {lba a : Nat} (buf : List UInt8) (n chunk : Nat) (d : Disk)
    (ha : a ≤ 512 * lba) : SameBelow a d (writeChunks lba buf n chunk d).2 := by
  induction n generalizing chunk d with
  | zero => exact SameBelow.refl a d
  | succ n ih =>
    have hcmd := writeCommand_below d
      ((buf.drop (chunk * 255 * 512)).take (min (buf.length / 512 - chunk * 255) 255 * 512))
      (show a ≤ 512 * (lba + chunk * 255) by omega)
    rw [writeChunks]
    cases hc : writeCommand d (lba + chunk * 255)
        ((buf.drop (chunk * 255 * 512)).take
          (min (buf.length / 512 - chunk * 255) 255 * 512)) with
    | mk ok d₁ =>
      rw [hc] at hcmd
      cases ok with
      | false => exact hcmd
      | true => exact hcmd.trans (ih (chunk + 1) d₁)

/-- A transfer, also one that fails, leaves what lies below its first sector. -/
theorem writeSectors_below (d : Disk) {lba a : Nat} (buf : List UInt8) (ha : a ≤ 512 * lba) :
    SameBelow a d (writeSectors d lba buf).2 := by
  rw [writeSectors]
  split
  · exact SameBelow.refl a d
  split
  · exact SameBelow.refl a d
  split
  · exact writeChunks_below buf _ 0 d ha
  · exact writeCommand_below d buf ha

end AeroOS.Ata
