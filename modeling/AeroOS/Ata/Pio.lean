import AeroOS.Ata
import AeroOS.Ata.Device

/-!
# Transfers through the ports

`read_sectors` and `write_sectors` down to the ports: the polls of the status, the
registers of a command, and the loop that moves the words of every sector.

* `readSectors` and `writeSectors` are the two functions, `readCommand` and `writeCommand`
  their part for 256 sectors at most.
* `Shows` is what a run of them leaves on the device, `Exchange` a command with its
  sectors, and `Moves` a run made of exchanges.
* `readSectors_refines` and `writeSectors_refines`: they do to the device what the
  functions of the same name do to the disk.
* `transfer_tiles`: the exchanges tile the range, whatever its length.
-/

namespace AeroOS.Ata.Pio

open Bytes Device

/-! ## The driver -/

/-- Wait for the controller to be ready, with `n` polls left. -/
def waitNotBusy : Nat → Device → Bool × Device
  | 0, d => (false, d)
  | n + 1, d =>
    let (s, d) := d.readStatus
    if s &&& statusBsy = 0 then (true, d) else waitNotBusy n d

/-- Wait for a data request, with `n` polls left. -/
def waitDrq : Nat → Device → Bool × Device
  | 0, d => (false, d)
  | n + 1, d =>
    let (s, d) := d.readStatus
    if s &&& statusBsy = 0 then
      if s &&& statusDrq ≠ 0 then (true, d)
      else if s &&& statusErr ≠ 0 then (false, d)
      else waitDrq n d
    else waitDrq n d

/-- Program the controller: sector count and 28-bit address. -/
def program (lba sectors : Nat) (cmd : UInt8) (d : Device) : Device :=
  let d := d.writeRegister .secCount (UInt8.ofNat (sectors &&& 0xFF))
  let d := d.writeRegister .lbaLo (UInt8.ofNat (lba &&& 0xFF))
  let d := d.writeRegister .lbaMid (UInt8.ofNat ((lba >>> 8) &&& 0xFF))
  let d := d.writeRegister .lbaHi (UInt8.ofNat ((lba >>> 16) &&& 0xFF))
  let d := d.writeRegister .drive ((0xE0 : UInt8) ||| UInt8.ofNat ((lba >>> 24) &&& 0x0F))
  d.writeCommand cmd

/-- The bytes of `n` words of the data port. -/
def readWords : Nat → Device → List UInt8 × Device
  | 0, d => ([], d)
  | n + 1, d =>
    let (w, d) := d.readData
    let (bs, d) := readWords n d
    (lowByte w :: highByte w :: bs, d)

theorem readWords_succ (n : Nat) (d : Device) :
    readWords (n + 1) d = (lowByte d.readData.1 :: highByte d.readData.1 ::
      (readWords n d.readData.2).1, (readWords n d.readData.2).2) := rfl

theorem readWords_zero (d : Device) : readWords 0 d = ([], d) := rfl

-- a sector has 256 words, which no proof goes through one by one
attribute [irreducible] readWords

/-- The loop of `read_sectors` over the sectors. -/
def readLoop : Nat → Device → Option (List UInt8) × Device
  | 0, d => (some [], d)
  | n + 1, d =>
    match waitDrq pollLimit d with
    | (false, d) => (none, d)
    | (true, d) =>
      let (bs, d) := readWords 256 d
      let (rest, d) := readLoop n d
      (rest.map (bs ++ ·), d)

/-- `read_sectors` for 256 sectors at most; `present` is `DISK_PRESENT`. -/
def readCommand (present : Bool) (lba len : Nat) (d : Device) : Option (List UInt8) × Device :=
  if present = false ∨ 2 ^ 28 ≤ lba then (none, d)
  else if len / 512 = 0 ∨ len % 512 ≠ 0 then (none, d)
  else
    match waitNotBusy pollLimit d with
    | (false, d) => (none, d)
    | (true, d) => readLoop (len / 512) (program lba (len / 512) cmdReadSectors d)

/-- The chunk loop of `read_sectors`, with `n` chunks left from `chunk` up. -/
def readChunks (present : Bool) (lba sectors : Nat) :
    Nat → Nat → Device → Option (List UInt8) × Device
  | 0, _, d => (some [], d)
  | n + 1, chunk, d =>
    let start := chunk * 255
    let k := min (sectors - start) 255
    match readCommand present (lba + start) (k * 512) d with
    | (none, d) => (none, d)
    | (some bs, d) =>
      let (rest, d) := readChunks present lba sectors n (chunk + 1) d
      (rest.map (bs ++ ·), d)

/-- `read_sectors` into a buffer of `len` bytes; `none` is its `false`. -/
def readSectors (present : Bool) (lba len : Nat) (d : Device) : Option (List UInt8) × Device :=
  if present = false ∨ 2 ^ 28 ≤ lba then (none, d)
  else if len / 512 = 0 ∨ len % 512 ≠ 0 then (none, d)
  else if 256 < len / 512 then
    readChunks present lba (len / 512) ((len / 512 + 254) / 255) 0 d
  else readCommand present lba len d

/-- The 256 words from byte `base` of the buffer go to the data port. -/
def writeWords (buf : List UInt8) (base : Nat) (d : Device) : Device :=
  (List.range 256).foldl
    (fun d i => d.writeData (word (buf.getD (base + i * 2) 0) (buf.getD (base + i * 2 + 1) 0))) d

/-- The words that go to the port are those of a sector. -/
theorem writeWords_eq (buf : List UInt8) (base : Nat) (d : Device) :
    writeWords buf base d =
      (sectorWords (buf.getD · 0) base).foldl (fun d w => d.writeData w) d := by
  rw [writeWords, sectorWords, List.foldl_map]

attribute [irreducible] writeWords

/-- The loop of `write_sectors` over the sectors, with `n` left from `s` up. -/
def writeLoop (buf : List UInt8) : Nat → Nat → Device → Bool × Device
  | 0, _, d => (true, d)
  | n + 1, s, d =>
    match waitDrq pollLimit d with
    | (false, d) => (false, d)
    | (true, d) => writeLoop buf n (s + 1) (writeWords buf (s * 512) d)

/-- Flush the cache, so that writes are durable. -/
def flushCache (d : Device) : Bool × Device :=
  match waitNotBusy pollLimit d with
  | (false, d) => (false, d)
  | (true, d) => (true, (waitNotBusy pollLimit (d.writeCommand cmdFlushCache)).2)

/-- `write_sectors` for 256 sectors at most. -/
def writeCommand (present : Bool) (lba : Nat) (buf : List UInt8) (d : Device) : Bool × Device :=
  if present = false ∨ 2 ^ 28 ≤ lba then (false, d)
  else if buf.length / 512 = 0 ∨ buf.length % 512 ≠ 0 then (false, d)
  else
    match waitNotBusy pollLimit d with
    | (false, d) => (false, d)
    | (true, d) =>
      match writeLoop buf (buf.length / 512) 0
        (program lba (buf.length / 512) cmdWriteSectors d) with
      | (false, d) => (false, d)
      | (true, d) => flushCache d

/-- The chunk loop of `write_sectors`, with `n` chunks left from `chunk` up. -/
def writeChunks (present : Bool) (lba : Nat) (buf : List UInt8) :
    Nat → Nat → Device → Bool × Device
  | 0, _, d => (true, d)
  | n + 1, chunk, d =>
    let start := chunk * 255
    let k := min (buf.length / 512 - start) 255
    match writeCommand present (lba + start) ((buf.drop (start * 512)).take (k * 512)) d with
    | (false, d) => (false, d)
    | (true, d) => writeChunks present lba buf n (chunk + 1) d

/-- `write_sectors`: whether it succeeded, and the device afterwards. -/
def writeSectors (present : Bool) (lba : Nat) (buf : List UInt8) (d : Device) : Bool × Device :=
  if present = false ∨ 2 ^ 28 ≤ lba then (false, d)
  else if buf.length / 512 = 0 ∨ buf.length % 512 ≠ 0 then (false, d)
  else if 256 < buf.length / 512 then
    writeChunks present lba buf ((buf.length / 512 + 254) / 255) 0 d
  else writeCommand present lba buf d

/-! ## What a run shows -/

/-- From `d` to `d'` the events `es` were seen, the medium became `m`, and the transfer
`t` is going on.  The master stays selected. -/
structure Shows (d d' : Device) (m : Store) (es : List Event) (t : Transfer) : Prop where
  bytes : d'.bytes = m
  log : d'.log = d.log ++ es
  transfer : d'.transfer = t
  selected : d.selected = true → d'.selected = true

section shows

variable {d d' d'' : Device} {m m' : Store} {es es' : List Event} {t t' : Transfer}

theorem Shows.refl (d : Device) : Shows d d d.bytes [] d.transfer :=
  ⟨rfl, (List.append_nil d.log).symm, rfl, id⟩

theorem Shows.trans (h : Shows d d' m es t) (h' : Shows d' d'' m' es' t') :
    Shows d d'' m' (es ++ es') t' where
  bytes := h'.bytes
  log := by rw [h'.log, h.log, List.append_assoc]
  transfer := h'.transfer
  selected := fun hsel => h'.selected (h.selected hsel)

/-- The device when it is not busy any more. -/
def settled (d : Device) : Device := { d with busy := 0, busy_lt := pollLimit_pos }

theorem shows_settled (d : Device) : Shows d (settled d) d.bytes [] d.transfer :=
  ⟨rfl, (List.append_nil d.log).symm, rfl, id⟩

/-- While the device is busy, its status says no more. -/
theorem readStatus_busy {n : Nat} (h : d.busy = n + 1) :
    d.readStatus.1 = statusBsy ∧ d.readStatus.2.busy = n ∧
      settled d.readStatus.2 = settled d := by
  refine ⟨?_, ?_, rfl⟩
  · rw [readStatus, if_pos (by omega)]
  · show d.busy - 1 = n
    omega

theorem readStatus_ready (h : d.busy = 0) :
    d.readStatus.1 = readyStatus d.transfer ∧ d.readStatus.2 = settled d := by
  constructor
  · rw [readStatus, if_neg (by omega)]
  · simp only [readStatus, settled, h]

theorem readyStatus_cases (t : Transfer) :
    t = .idle ∧ readyStatus t = statusDrdy ∨
      t ≠ .idle ∧ readyStatus t = statusDrdy ||| statusDrq := by
  cases t with
  | idle => exact Or.inl ⟨rfl, rfl⟩
  | reading lba left ws => exact Or.inr ⟨Transfer.noConfusion, rfl⟩
  | writing lba left ws => exact Or.inr ⟨Transfer.noConfusion, rfl⟩

theorem readyStatus_not_busy (t : Transfer) : readyStatus t &&& statusBsy = 0 := by
  rcases readyStatus_cases t with ⟨-, h⟩ | ⟨-, h⟩
  · rw [h]
    decide
  · rw [h]
    decide

theorem readyStatus_drq (ht : t ≠ .idle) : readyStatus t &&& statusDrq ≠ 0 := by
  rcases readyStatus_cases t with ⟨h, -⟩ | ⟨-, h⟩
  · exact absurd h ht
  · rw [h]
    decide

/-- The driver waits long enough. -/
theorem waitNotBusy_eq {n : Nat} (h : d.busy < n) : waitNotBusy n d = (true, settled d) := by
  induction n generalizing d with
  | zero => omega
  | succ n ih =>
    rw [waitNotBusy]
    cases hb : d.busy with
    | zero =>
      obtain ⟨hs, hd⟩ := readStatus_ready hb
      simp only [hs, hd, readyStatus_not_busy, if_true]
    | succ k =>
      obtain ⟨hs, hk, hd⟩ := readStatus_busy hb
      simp only [hs]
      rw [if_neg (by decide), ih (by omega), hd]

/-- During a transfer it waits for the next sector. -/
theorem waitDrq_eq {n : Nat} (h : d.busy < n) (ht : d.transfer ≠ .idle) :
    waitDrq n d = (true, settled d) := by
  induction n generalizing d with
  | zero => omega
  | succ n ih =>
    rw [waitDrq]
    cases hb : d.busy with
    | zero =>
      obtain ⟨hs, hd⟩ := readStatus_ready hb
      simp only [hs, hd, readyStatus_not_busy, if_true]
      rw [if_pos (readyStatus_drq ht)]
    | succ k =>
      obtain ⟨hs, hk, hd⟩ := readStatus_busy hb
      have hwait := ih (d := d.readStatus.2) (by omega) ht
      simp only [hs]
      rw [if_neg (by decide), hwait, hd]

end shows

/-! ## The command -/

section commands

variable {d d' : Device} {lba k : Nat}

/-- The count byte of a command for `k` sectors. -/
def countByte (k : Nat) : UInt8 := UInt8.ofNat (k &&& 0xFF)

/-- It stands for the sectors, also when there are 256 of them. -/
theorem length_countByte (hk : 0 < k) (hk' : k ≤ 256) : length (countByte k) = k := by
  have hmod : (countByte k).toNat = k % 256 := by
    rw [countByte, show k &&& 0xFF = k % 2 ^ 8 from Nat.and_two_pow_sub_one_eq_mod k 8,
      UInt8.toNat_ofNat']
    omega
  rw [length]
  split
  · next h0 =>
    rw [h0] at hmod
    change 0 = k % 256 at hmod
    omega
  · next h0 =>
    have hne : (countByte k).toNat ≠ 0 := fun h => h0 (UInt8.toNat_inj.1 h)
    omega

/-- The registers hold the command. -/
def addressed (lba k : Nat) (d : Device) : Device :=
  { d with
    count := countByte k
    lbaLo := UInt8.ofNat (lba &&& 0xFF)
    lbaMid := UInt8.ofNat ((lba >>> 8) &&& 0xFF)
    lbaHi := UInt8.ofNat ((lba >>> 16) &&& 0xFF)
    drive := (0xE0 : UInt8) ||| UInt8.ofNat ((lba >>> 24) &&& 0x0F) }

theorem program_eq (h : d.busy = 0) (cmd : UInt8) :
    program lba k cmd d = (addressed lba k d).writeCommand cmd := by
  simp [program, writeRegister, h, addressed, countByte]

/-- An address below 2^28 is what the registers say. -/
theorem addressed_lba (h : lba < 2 ^ 28) (d : Device) : (addressed lba k d).lba = lba := by
  have hbyte : ∀ n, n &&& 0xFF = n % 256 := fun n => Nat.and_two_pow_sub_one_eq_mod n 8
  have hnibble : ∀ n, n &&& 0x0F = n % 16 := fun n => Nat.and_two_pow_sub_one_eq_mod n 4
  have hdrive : ∀ n, n < 16 → (((0xE0 : UInt8) ||| UInt8.ofNat n) &&& 0x0F).toNat = n := by
    decide
  simp only [Device.lba, addressed]
  rw [hbyte, hbyte, hbyte, hnibble, hdrive _ (Nat.mod_lt _ (by decide))]
  simp only [UInt8.toNat_ofNat', Nat.shiftRight_eq_div_pow]
  omega

theorem addressed_selected (lba k : Nat) (d : Device) : (addressed lba k d).selected = true := by
  have hdrive : ∀ n, n < 16 → (((0xE0 : UInt8) ||| UInt8.ofNat n) &&& 0x50 == 0x40) = true := by
    decide
  apply hdrive
  rw [show lba >>> 24 &&& 0x0F = _ from Nat.and_two_pow_sub_one_eq_mod _ 4]
  exact Nat.mod_lt _ (by decide)

/-- A read command offers the first sector. -/
theorem program_read (hb : d.busy = 0) (ht : d.transfer = .idle) (h : lba < 2 ^ 28) :
    Shows d (program lba k cmdReadSectors d) d.bytes [.command .read lba (countByte k)]
      (offer d.bytes lba (length (countByte k))) := by
  have hb' : (addressed lba k d).busy = 0 := hb
  have ht' : (addressed lba k d).transfer = .idle := ht
  rw [program_eq hb, Device.writeCommand]
  simp only [hb', ht', addressed_selected, if_true, addressed_lba h]
  exact ⟨rfl, rfl, rfl, fun _ => addressed_selected lba k d⟩

/-- A write command accepts the first sector, and leaves the master selected for the flush. -/
theorem program_write (hb : d.busy = 0) (ht : d.transfer = .idle) (h : lba < 2 ^ 28) :
    Shows d (program lba k cmdWriteSectors d) d.bytes [.command .write lba (countByte k)]
        (accept lba (length (countByte k))) ∧
      (program lba k cmdWriteSectors d).selected = true := by
  have hb' : (addressed lba k d).busy = 0 := hb
  have ht' : (addressed lba k d).transfer = .idle := ht
  have hcmd : cmdWriteSectors ≠ cmdReadSectors := by decide
  have hsel := addressed_selected lba k d
  rw [program_eq hb, Device.writeCommand]
  simp only [hb', ht', hsel, hcmd, if_true, if_false, addressed_lba h]
  exact ⟨⟨rfl, rfl, rfl, fun _ => hsel⟩, hsel⟩

/-- The flush is a command of its own. -/
theorem flushCache_shows (ht : d.transfer = .idle) (hsel : d.selected = true) :
    (flushCache d).1 = true ∧ Shows d (flushCache d).2 d.bytes [.flush] .idle := by
  have hwait : waitNotBusy pollLimit d = (true, settled d) := waitNotBusy_eq d.busy_lt
  have hcmd : (settled d).writeCommand cmdFlushCache =
      { (settled d).pause with log := d.log ++ [.flush] } := by
    have ht' : (settled d).transfer = .idle := ht
    have hsel' : (settled d).selected = true := hsel
    have hread : cmdFlushCache ≠ cmdReadSectors := by decide
    have hwrite : cmdFlushCache ≠ cmdWriteSectors := by decide
    rw [Device.writeCommand]
    simp only [ht', hsel', hread, hwrite, if_true, if_false]
    rfl
  rw [flushCache]
  simp only [hwait, hcmd, waitNotBusy_eq (Device.busy_lt _), true_and]
  exact ⟨rfl, rfl, ht, fun _ => hsel⟩

end commands

/-! ## The data loops -/

section loops

variable {d : Device} {lba left k : Nat}

/-- The words that are left of a sector are taken. -/
theorem readWords_shows {w : UInt16} {ws : List UInt16} (hb : d.busy = 0)
    (ht : d.transfer = .reading lba left (w :: ws)) :
    (readWords (ws.length + 1) d).1 = (w :: ws).flatMap wordBytes ∧
      Shows d (readWords (ws.length + 1) d).2 d.bytes [.sector lba]
        (offer d.bytes (lba + 1) (left - 1)) := by
  induction ws generalizing d w with
  | nil =>
    have hread : d.readData = (w, { d.pause with
        transfer := offer d.bytes (lba + 1) (left - 1)
        log := d.log ++ [.sector lba] }) := by
      simp only [readData, hb, ht]
    simp only [List.length_nil, readWords_succ, readWords_zero, hread]
    exact ⟨rfl, rfl, rfl, rfl, id⟩
  | cons w' ws ih =>
    have hread : d.readData = (w, { d with transfer := .reading lba left (w' :: ws) }) := by
      simp only [readData, hb, ht]
    obtain ⟨hbytes, hshows⟩ := ih (d := { d with transfer := .reading lba left (w' :: ws) }) hb rfl
    rw [List.length_cons, readWords_succ]
    simp only [hread]
    refine ⟨?_, hshows.bytes, hshows.log, hshows.transfer, hshows.selected⟩
    rw [hbytes]
    rfl

/-- The loop of a read takes every sector that is offered. -/
theorem readLoop_shows (ht : d.transfer = offer d.bytes lba k) :
    (readLoop k d).1 = some (readBytes d.bytes (512 * lba) (k * 512)) ∧
      Shows d (readLoop k d).2 d.bytes ((List.range' lba k).map .sector) .idle := by
  induction k generalizing d lba with
  | zero =>
    rw [offer, if_pos rfl] at ht
    exact ⟨by simp [readLoop], ht ▸ Shows.refl d⟩
  | succ k ih =>
    rw [offer, if_neg (Nat.succ_ne_zero k)] at ht
    have hwait : waitDrq pollLimit d = (true, settled d) := by
      apply waitDrq_eq d.busy_lt
      rw [ht]
      exact Transfer.noConfusion
    obtain ⟨w, ws, hws⟩ := List.exists_cons_of_length_pos
      (show 0 < (sectorWords d.bytes (512 * lba)).length by rw [sectorWords_length]; decide)
    have hlen : ws.length + 1 = 256 := by
      rw [← List.length_cons, ← hws, sectorWords_length]
    have hsector := readWords_shows (d := settled d) rfl (ht.trans (by rw [hws]))
    rw [hlen, ← hws, flatMap_wordBytes] at hsector
    rw [readLoop, hwait]
    cases hwords : readWords 256 (settled d) with
    | mk bs d₁ =>
      rw [hwords] at hsector
      obtain ⟨hfirst, hshows⟩ := hsector
      have hnext : d₁.transfer = offer d₁.bytes (lba + 1) k := by
        rw [hshows.transfer, hshows.bytes, Nat.add_sub_cancel]
      obtain ⟨hrest, hshows'⟩ := ih hnext
      have hall := ((shows_settled d).trans hshows).trans hshows'
      rw [hshows.bytes] at hrest hall
      simp only [hwords]
      refine ⟨?_, hall⟩
      have haddr : 512 * (lba + 1) = 512 * lba + 512 := by omega
      have hsum : (k + 1) * 512 = 512 + k * 512 := by omega
      rw [hrest, Option.map_some, haddr, hsum, readBytes_add]
      exact congrArg some (congrArg (· ++ _) hfirst)

/-- With the words that are still missing, a sector is stored. -/
theorem writeData_shows {got ws : List UInt16} (hne : ws ≠ []) (hlen : got.length + ws.length = 256)
    (hb : d.busy = 0) (ht : d.transfer = .writing lba left got) :
    Shows d (ws.foldl (fun d w => d.writeData w) d)
      (writeBytes d.bytes (512 * lba) ((got ++ ws).flatMap wordBytes)) [.sector lba]
      (accept (lba + 1) (left - 1)) := by
  induction ws generalizing d got with
  | nil => exact absurd rfl hne
  | cons w ws ih =>
    rw [List.length_cons] at hlen
    rw [List.foldl_cons]
    cases ws with
    | nil =>
      rw [List.length_nil] at hlen
      rw [List.foldl_nil, writeData]
      simp only [hb, ht]
      rw [if_neg (by omega)]
      exact ⟨rfl, rfl, rfl, id⟩
    | cons w' ws =>
      have hwrite : d.writeData w = { d with transfer := .writing lba left (got ++ [w]) } := by
        rw [writeData]
        simp only [hb, ht]
        rw [List.length_cons] at hlen
        rw [if_pos (by omega)]
      have hlen' : (got ++ [w]).length + (w' :: ws).length = 256 := by
        rw [List.length_append, List.length_singleton]
        omega
      have hshows := ih (d := { d with transfer := .writing lba left (got ++ [w]) })
        (List.cons_ne_nil w' ws) hlen' hb rfl
      rw [List.append_assoc] at hshows
      rw [hwrite]
      exact ⟨hshows.bytes, hshows.log, hshows.transfer, hshows.selected⟩

theorem writeWords_shows {buf : List UInt8} {s : Nat} (hs : s * 512 + 512 ≤ buf.length)
    (hb : d.busy = 0) (ht : d.transfer = .writing lba left []) :
    Shows d (writeWords buf (s * 512) d)
      (writeBytes d.bytes (512 * lba) ((buf.drop (s * 512)).take 512)) [.sector lba]
      (accept (lba + 1) (left - 1)) := by
  have hne : sectorWords (buf.getD · 0) (s * 512) ≠ [] := by
    apply List.ne_nil_of_length_pos
    rw [sectorWords_length]
    decide
  have hslice : readBytes (buf.getD · 0) (s * 512) 512 = (buf.drop (s * 512)).take 512 := by
    apply readBytes_eq_of_getD
    · rw [List.length_take, List.length_drop]
      omega
    · intro j hj
      rw [List.getD, List.getD, List.getElem?_take_of_lt hj, List.getElem?_drop]
  have hlen : ([] : List UInt16).length + (sectorWords (buf.getD · 0) (s * 512)).length = 256 := by
    rw [sectorWords_length]
    rfl
  have hshows := writeData_shows hne hlen hb ht
  rw [List.nil_append, flatMap_wordBytes, hslice] at hshows
  rw [writeWords_eq]
  exact hshows

/-- The loop of a write stores every sector of the buffer. -/
theorem writeLoop_shows {buf : List UInt8} {s : Nat} (hlen : (s + k) * 512 ≤ buf.length)
    (ht : d.transfer = accept lba k) :
    (writeLoop buf k s d).1 = true ∧
      Shows d (writeLoop buf k s d).2
        (writeBytes d.bytes (512 * lba) ((buf.drop (s * 512)).take (k * 512)))
        ((List.range' lba k).map .sector) .idle := by
  induction k generalizing d lba s with
  | zero =>
    rw [accept, if_pos rfl] at ht
    have hnil : (buf.drop (s * 512)).take (0 * 512) = [] := by simp
    rw [hnil, writeBytes_nil]
    exact ⟨rfl, ht ▸ Shows.refl d⟩
  | succ k ih =>
    rw [accept, if_neg (Nat.succ_ne_zero k)] at ht
    have hwait : waitDrq pollLimit d = (true, settled d) := by
      apply waitDrq_eq d.busy_lt
      rw [ht]
      exact Transfer.noConfusion
    have hshows := writeWords_shows (show s * 512 + 512 ≤ buf.length by omega)
      (show (settled d).busy = 0 from rfl) ht
    have hnext : (writeWords buf (s * 512) (settled d)).transfer = accept (lba + 1) k :=
      hshows.transfer
    have hlen' : (s + 1 + k) * 512 ≤ buf.length := by
      rw [Nat.add_assoc, Nat.add_comm 1 k]
      exact hlen
    obtain ⟨hok, hshows'⟩ := ih hlen' hnext
    have hall := ((shows_settled d).trans hshows).trans hshows'
    rw [writeLoop]
    simp only [hwait]
    refine ⟨hok, ?_⟩
    have hstore : writeBytes (writeWords buf (s * 512) (settled d)).bytes (512 * (lba + 1))
        ((buf.drop ((s + 1) * 512)).take (k * 512)) =
          writeBytes d.bytes (512 * lba) ((buf.drop (s * 512)).take ((k + 1) * 512)) := by
      have hsplit : (buf.drop (s * 512)).take ((k + 1) * 512) =
          (buf.drop (s * 512)).take 512 ++ (buf.drop ((s + 1) * 512)).take (k * 512) := by
        rw [show (k + 1) * 512 = 512 + k * 512 by omega, List.take_add, List.drop_drop,
          show s * 512 + 512 = (s + 1) * 512 by omega]
      have hone : ((buf.drop (s * 512)).take 512).length = 512 := by
        rw [List.length_take, List.length_drop]
        omega
      rw [hshows.bytes, hsplit, ← writeBytes_append, hone, show 512 * (lba + 1) = 512 * lba + 512 by
        omega]
      rfl
    rw [hstore] at hall
    exact hall

end loops

/-! ## Exchanges -/

/-- A transfer command with the sectors that its count byte stands for. -/
structure Exchange where
  op : Op
  lba : Nat
  count : UInt8

namespace Exchange

def sectors (e : Exchange) : List Nat := List.range' e.lba (length e.count)

/-- The ports see the command, then each of the sectors.  A write ends with a flush. -/
def events (e : Exchange) : List Event :=
  .command e.op e.lba e.count :: e.sectors.map .sector ++
    match e.op with
    | .read => []
    | .write => [.flush]

end Exchange

/-- From `d` to `d'` the ports have seen exchanges and nothing else.  If the run is `ok`,
their sectors in order are the `k` from `lba` on. -/
structure Moves (op : Op) (d d' : Device) (ok : Bool) (lba k : Nat) : Prop where
  transfer : d'.transfer = .idle
  log : ∃ es : List Exchange, d'.log = d.log ++ es.flatMap Exchange.events ∧
    (∀ e ∈ es, e.op = op) ∧ (ok = true → es.flatMap Exchange.sectors = List.range' lba k)

section moves

variable {op : Op} {d d' d'' : Device} {ok : Bool} {lba k k' : Nat}

/-- Without a command no sector is moved. -/
theorem Moves.refl (ht : d.transfer = .idle) (h : ok = true → k = 0) : Moves op d d ok lba k := by
  refine ⟨ht, [], by simp, by simp, ?_⟩
  intro hok
  rw [h hok]
  rfl

theorem Moves.one (e : Exchange) (hop : e.op = op) (ht : d'.transfer = .idle)
    (hlog : d'.log = d.log ++ e.events) (hlba : e.lba = lba) (hk : length e.count = k) :
    Moves op d d' ok lba k := by
  refine ⟨ht, [e], by simpa using hlog, by simpa using hop, ?_⟩
  intro _
  rw [List.flatMap_singleton, Exchange.sectors, hlba, hk]

theorem Moves.trans (h : Moves op d d' true lba k) (h' : Moves op d' d'' ok (lba + k) k') :
    Moves op d d'' ok lba (k + k') := by
  obtain ⟨-, es, hlog, hop, hsectors⟩ := h
  obtain ⟨ht, es', hlog', hop', hsectors'⟩ := h'
  refine ⟨ht, es ++ es', ?_, ?_, ?_⟩
  · rw [hlog', hlog, List.flatMap_append, List.append_assoc]
  · intro e he
    exact (List.mem_append.1 he).elim (hop e) (hop' e)
  · intro hok
    rw [List.flatMap_append, hsectors rfl, hsectors' hok, List.range'_append_1]

/-- A transfer that fails has moved what it has moved. -/
theorem Moves.failed (h : Moves op d d' ok lba k) {lba' n : Nat} :
    Moves op d d' false lba' n := by
  obtain ⟨ht, es, hlog, hop, -⟩ := h
  exact ⟨ht, es, hlog, hop, fun h => Bool.noConfusion h⟩

/-- The next piece begins behind the last one, or is empty. -/
theorem Moves.next {start n : Nat} (h : Moves op d d' ok start n)
    (hstart : start = lba + k ∨ n = 0) : Moves op d d' ok (lba + k) n := by
  rcases hstart with rfl | rfl
  · exact h
  · obtain ⟨ht, es, hlog, hop, hsectors⟩ := h
    exact ⟨ht, es, hlog, hop, hsectors⟩

/-- The exchanges that tile a range stay inside. -/
theorem Moves.bounds (h : Moves op d d' true lba k) :
    ∃ es : List Exchange, d'.log = d.log ++ es.flatMap Exchange.events ∧
      (∀ e ∈ es, e.op = op ∧ lba ≤ e.lba ∧ e.lba + length e.count ≤ lba + k) ∧
      es.flatMap Exchange.sectors = List.range' lba k := by
  obtain ⟨-, es, hlog, hop, hsectors⟩ := h
  refine ⟨es, hlog, ?_, hsectors rfl⟩
  intro e he
  have hpos : 0 < length e.count := by
    rw [length]
    split
    · decide
    · next h0 => exact Nat.pos_of_ne_zero fun h => h0 (UInt8.toNat_inj.1 h)
  have hmem : ∀ i < length e.count, e.lba + i ∈ List.range' lba k := by
    intro i hi
    rw [← hsectors rfl]
    exact List.mem_flatMap.2 ⟨e, he, List.mem_range'_1.2 ⟨by omega, by omega⟩⟩
  have hfirst := List.mem_range'_1.1 (hmem 0 hpos)
  have hlast := List.mem_range'_1.1 (hmem (length e.count - 1) (by omega))
  exact ⟨hop e he, by omega, by omega⟩

end moves

/-! ## The transfers -/

section transfers

variable {d : Device} {present : Bool} {lba : Nat}

/-- The disk of a device. -/
def disk (present : Bool) (d : Device) : Disk := ⟨present, d.bytes⟩

@[simp] theorem disk_present (present : Bool) (d : Device) :
    (disk present d).present = present := rfl

/-- A command of at most 256 sectors reads what the disk reads. -/
theorem readCommand_refines (ht : d.transfer = .idle) {len : Nat} (hlen : len / 512 ≤ 256) :
    (readCommand present lba len d).1 = Ata.readCommand (disk present d) lba len ∧
      (readCommand present lba len d).2.bytes = d.bytes ∧
      Moves .read d (readCommand present lba len d).2 (readCommand present lba len d).1.isSome
        lba (len / 512) := by
  rw [readCommand, Ata.readCommand, disk_present]
  by_cases hrefuse : present = false ∨ 2 ^ 28 ≤ lba
  · rw [if_pos hrefuse, if_pos hrefuse]
    exact ⟨rfl, rfl, Moves.refl ht fun h => Bool.noConfusion h⟩
  rw [if_neg hrefuse, if_neg hrefuse]
  by_cases hbuf : len / 512 = 0 ∨ len % 512 ≠ 0
  · rw [if_pos hbuf, if_pos hbuf]
    exact ⟨rfl, rfl, Moves.refl ht fun h => Bool.noConfusion h⟩
  rw [if_neg hbuf, if_neg hbuf]
  simp only [waitNotBusy_eq d.busy_lt]
  have hlba : lba < 2 ^ 28 := by omega
  have hcount : length (countByte (len / 512)) = len / 512 := length_countByte (by omega) hlen
  have hprogram := program_read (show (settled d).busy = 0 from rfl) ht hlba (k := len / 512)
  have hoffer : (program lba (len / 512) cmdReadSectors (settled d)).transfer =
      offer (program lba (len / 512) cmdReadSectors (settled d)).bytes lba (len / 512) := by
    rw [hprogram.transfer, hprogram.bytes, hcount]
  obtain ⟨hread, hloop⟩ := readLoop_shows hoffer
  have hall := ((shows_settled d).trans hprogram).trans hloop
  rw [hprogram.bytes] at hread hall
  refine ⟨?_, hall.bytes, ?_⟩
  · rw [hread, show len / 512 * 512 = len by omega]
    rfl
  · refine Moves.one ⟨.read, lba, countByte (len / 512)⟩ rfl hall.transfer ?_ rfl hcount
    rw [hall.log, Exchange.events, Exchange.sectors, hcount]
    simp

/-- A command of at most 256 sectors writes what the disk writes. -/
theorem writeCommand_refines (ht : d.transfer = .idle) {buf : List UInt8}
    (hlen : buf.length / 512 ≤ 256) :
    Ata.writeCommand (disk present d) lba buf =
        ((writeCommand present lba buf d).1, disk present (writeCommand present lba buf d).2) ∧
      Moves .write d (writeCommand present lba buf d).2 (writeCommand present lba buf d).1
        lba (buf.length / 512) := by
  rw [writeCommand, Ata.writeCommand, disk_present]
  by_cases hrefuse : present = false ∨ 2 ^ 28 ≤ lba
  · rw [if_pos hrefuse, if_pos hrefuse]
    exact ⟨rfl, Moves.refl ht fun h => Bool.noConfusion h⟩
  rw [if_neg hrefuse, if_neg hrefuse]
  by_cases hbuf : buf.length / 512 = 0 ∨ buf.length % 512 ≠ 0
  · rw [if_pos hbuf, if_pos hbuf]
    exact ⟨rfl, Moves.refl ht fun h => Bool.noConfusion h⟩
  rw [if_neg hbuf, if_neg hbuf]
  simp only [waitNotBusy_eq d.busy_lt]
  have hlba : lba < 2 ^ 28 := by omega
  have hcount : length (countByte (buf.length / 512)) = buf.length / 512 :=
    length_countByte (by omega) hlen
  have hbusy : (settled d).busy = 0 := rfl
  obtain ⟨hprogram, hselected⟩ := program_write hbusy ht hlba (k := buf.length / 512)
  generalize program lba (buf.length / 512) cmdWriteSectors (settled d) = d₁ at hprogram hselected ⊢
  rw [hcount] at hprogram
  obtain ⟨hok, hloop⟩ := writeLoop_shows (show (0 + buf.length / 512) * 512 ≤ buf.length by omega)
    hprogram.transfer
  cases hrun : writeLoop buf (buf.length / 512) 0 d₁ with
  | mk ok d₂ =>
    rw [hrun] at hok hloop
    have hok' : ok = true := hok
    subst hok'
    obtain ⟨hflushed, hflush⟩ := flushCache_shows hloop.transfer (hloop.selected hselected)
    have hall := (((shows_settled d).trans hprogram).trans hloop).trans hflush
    have hstore : d₂.bytes = writeBytes d.bytes (512 * lba) buf := by
      rw [hloop.bytes, hprogram.bytes, Nat.zero_mul, List.drop_zero, List.take_of_length_le
        (by omega)]
      rfl
    simp only
    constructor
    · rw [hflushed, disk, disk, hall.bytes, hstore]
    · refine Moves.one ⟨.write, lba, countByte (buf.length / 512)⟩ rfl hall.transfer ?_ rfl hcount
      rw [hall.log, Exchange.events, Exchange.sectors, hcount]
      simp

/-- From chunk `chunk` on, the chunk loop reads what the one of the disk reads. -/
theorem readChunks_refines {sectors n chunk total : Nat} (ht : d.transfer = .idle)
    (hn : n + chunk = total) (hlo : total * 255 < sectors + 255) (hhi : sectors ≤ total * 255) :
    (readChunks present lba sectors n chunk d).1 =
        Ata.readChunks (disk present d) lba sectors n chunk ∧
      (readChunks present lba sectors n chunk d).2.bytes = d.bytes ∧
      Moves .read d (readChunks present lba sectors n chunk d).2
        (readChunks present lba sectors n chunk d).1.isSome (lba + chunk * 255)
        (sectors - chunk * 255) := by
  induction n generalizing chunk d with
  | zero =>
    refine ⟨rfl, rfl, Moves.refl ht ?_⟩
    intro _
    omega
  | succ n ih =>
    have hsize : min (sectors - chunk * 255) 255 * 512 / 512 = min (sectors - chunk * 255) 255 :=
      Nat.mul_div_cancel _ (by decide)
    have hcommand := @readCommand_refines d present (lba + chunk * 255) ht _
      (hsize.trans_le (show _ ≤ 256 by omega))
    rw [hsize] at hcommand
    obtain ⟨hout, hbytes, hmoves⟩ := hcommand
    rw [readChunks, Ata.readChunks, ← hout]
    cases hrun : readCommand present (lba + chunk * 255) (min (sectors - chunk * 255) 255 * 512) d
      with
    | mk r d₁ =>
      rw [hrun] at hbytes hmoves
      cases r with
      | none => exact ⟨rfl, hbytes, hmoves.failed⟩
      | some bs =>
        obtain ⟨hout', hbytes', hmoves'⟩ := ih hmoves.transfer
          (show n + (chunk + 1) = total by omega)
        have hdisk : disk present d₁ = disk present d := congrArg (Disk.mk present) hbytes
        rw [hdisk] at hout'
        simp only
        rw [← hout']
        cases hrest : readChunks present lba sectors n (chunk + 1) d₁ with
        | mk rest d₂ =>
          rw [hrest] at hbytes' hmoves'
          refine ⟨rfl, hbytes'.trans hbytes, ?_⟩
          have hjoin := hmoves.trans (hmoves'.next (show lba + (chunk + 1) * 255 =
            lba + chunk * 255 + min (sectors - chunk * 255) 255 ∨ sectors - (chunk + 1) * 255 = 0
              by omega))
          rw [show min (sectors - chunk * 255) 255 + (sectors - (chunk + 1) * 255) =
            sectors - chunk * 255 by omega] at hjoin
          simpa using hjoin

/-- From chunk `chunk` on, the chunk loop writes what the one of the disk writes. -/
theorem writeChunks_refines {buf : List UInt8} {sectors n chunk total : Nat}
    (ht : d.transfer = .idle) (hlen : buf.length = sectors * 512) (hn : n + chunk = total)
    (hlo : total * 255 < sectors + 255) (hhi : sectors ≤ total * 255) :
    Ata.writeChunks lba buf n chunk (disk present d) =
        ((writeChunks present lba buf n chunk d).1,
          disk present (writeChunks present lba buf n chunk d).2) ∧
      Moves .write d (writeChunks present lba buf n chunk d).2
        (writeChunks present lba buf n chunk d).1 (lba + chunk * 255) (sectors - chunk * 255) := by
  induction n generalizing chunk d with
  | zero =>
    refine ⟨rfl, Moves.refl ht ?_⟩
    intro _
    omega
  | succ n ih =>
    have hsectors : buf.length / 512 = sectors := by omega
    have hpiece : ((buf.drop (chunk * 255 * 512)).take
        (min (sectors - chunk * 255) 255 * 512)).length / 512 =
          min (sectors - chunk * 255) 255 := by
      rw [List.length_take, List.length_drop]
      omega
    have hcommand := @writeCommand_refines d present (lba + chunk * 255) ht _
      (hpiece.trans_le (show _ ≤ 256 by omega))
    rw [hpiece] at hcommand
    obtain ⟨hout, hmoves⟩ := hcommand
    rw [writeChunks, Ata.writeChunks, hsectors]
    simp only [hout]
    cases hrun : writeCommand present (lba + chunk * 255)
        ((buf.drop (chunk * 255 * 512)).take (min (sectors - chunk * 255) 255 * 512)) d with
    | mk ok d₁ =>
      rw [hrun] at hmoves
      cases ok with
      | false => exact ⟨rfl, hmoves.failed⟩
      | true =>
        obtain ⟨hout', hmoves'⟩ := ih hmoves.transfer (show n + (chunk + 1) = total by omega)
        refine ⟨hout', ?_⟩
        have hjoin := hmoves.trans (hmoves'.next (show lba + (chunk + 1) * 255 =
          lba + chunk * 255 + min (sectors - chunk * 255) 255 ∨ sectors - (chunk + 1) * 255 = 0
            by omega))
        rwa [show min (sectors - chunk * 255) 255 + (sectors - (chunk + 1) * 255) =
          sectors - chunk * 255 by omega] at hjoin

/-- `read_sectors` reads what the disk reads, in exchanges that tile the range. -/
theorem readSectors_refines (ht : d.transfer = .idle) (len : Nat) :
    (readSectors present lba len d).1 = Ata.readSectors (disk present d) lba len ∧
      (readSectors present lba len d).2.bytes = d.bytes ∧
      Moves .read d (readSectors present lba len d).2 (readSectors present lba len d).1.isSome
        lba (len / 512) := by
  rw [readSectors, Ata.readSectors, disk_present]
  by_cases hrefuse : present = false ∨ 2 ^ 28 ≤ lba
  · rw [if_pos hrefuse, if_pos hrefuse]
    exact ⟨rfl, rfl, Moves.refl ht fun h => Bool.noConfusion h⟩
  rw [if_neg hrefuse, if_neg hrefuse]
  by_cases hbuf : len / 512 = 0 ∨ len % 512 ≠ 0
  · rw [if_pos hbuf, if_pos hbuf]
    exact ⟨rfl, rfl, Moves.refl ht fun h => Bool.noConfusion h⟩
  rw [if_neg hbuf, if_neg hbuf]
  by_cases hmany : 256 < len / 512
  · rw [if_pos hmany, if_pos hmany]
    have hchunks := @readChunks_refines d present lba (len / 512) ((len / 512 + 254) / 255) 0 _ ht
      rfl (by omega) (by omega)
    simpa using hchunks
  · rw [if_neg hmany, if_neg hmany]
    exact readCommand_refines ht (by omega)

/-- `write_sectors` writes what the disk writes, in exchanges that tile the range. -/
theorem writeSectors_refines (ht : d.transfer = .idle) (buf : List UInt8) :
    Ata.writeSectors (disk present d) lba buf =
        ((writeSectors present lba buf d).1, disk present (writeSectors present lba buf d).2) ∧
      Moves .write d (writeSectors present lba buf d).2 (writeSectors present lba buf d).1
        lba (buf.length / 512) := by
  rw [writeSectors, Ata.writeSectors, disk_present]
  by_cases hrefuse : present = false ∨ 2 ^ 28 ≤ lba
  · rw [if_pos hrefuse, if_pos hrefuse]
    exact ⟨rfl, Moves.refl ht fun h => Bool.noConfusion h⟩
  rw [if_neg hrefuse, if_neg hrefuse]
  by_cases hbuf : buf.length / 512 = 0 ∨ buf.length % 512 ≠ 0
  · rw [if_pos hbuf, if_pos hbuf]
    exact ⟨rfl, Moves.refl ht fun h => Bool.noConfusion h⟩
  rw [if_neg hbuf, if_neg hbuf]
  by_cases hmany : 256 < buf.length / 512
  · rw [if_pos hmany, if_pos hmany]
    have hchunks := @writeChunks_refines d present lba buf (buf.length / 512)
      ((buf.length / 512 + 254) / 255) 0 _ ht (by omega) rfl (by omega) (by omega)
    simpa using hchunks
  · rw [if_neg hmany, if_neg hmany]
    exact writeCommand_refines ht (by omega)

end transfers

/-! ## Tiling -/

/-- The bytes of a sector. -/
def sector (m : Store) (n : Nat) : List UInt8 := readBytes m (512 * n) 512

/-- From `d` to `d'` the ports have seen transfer commands below 2^28, each with the
sectors that its count byte stands for.  The sectors are the `k` from `lba` on. -/
def Tiled (op : Op) (d d' : Device) (lba k : Nat) : Prop :=
  ∃ es : List Exchange, d'.log = d.log ++ es.flatMap Exchange.events ∧
    (∀ e ∈ es, e.op = op ∧ e.lba + length e.count ≤ 2 ^ 28) ∧
    es.flatMap Exchange.sectors = List.range' lba k

theorem Moves.tiled {op : Op} {d d' : Device} {lba k : Nat} (h : Moves op d d' true lba k)
    (hlba : lba + k ≤ 2 ^ 28) : Tiled op d d' lba k := by
  obtain ⟨es, hlog, hbounds, hsectors⟩ := h.bounds
  refine ⟨es, hlog, ?_, hsectors⟩
  intro e he
  obtain ⟨hop, -, hend⟩ := hbounds e he
  exact ⟨hop, hend.trans hlba⟩

/-- A transfer of `k` sectors below 2^28.  `write_sectors` puts the `i`-th piece of the
buffer into sector `lba + i` and changes no other; `read_sectors` then returns the
buffer.  The commands of each tile the range. -/
theorem transfer_tiles {d : Device} (ht : d.transfer = .idle) {lba k : Nat} (hk : 1 ≤ k)
    (hlba : lba + k ≤ 2 ^ 28) {buf : List UInt8} (hlen : buf.length = 512 * k) :
    ∃ d' d'', writeSectors true lba buf d = (true, d') ∧
      readSectors true lba (512 * k) d' = (some buf, d'') ∧
      (∀ i < k, sector d'.bytes (lba + i) = (buf.drop (512 * i)).take 512) ∧
      (∀ n, n < lba ∨ lba + k ≤ n → sector d'.bytes n = sector d.bytes n) ∧
      d''.bytes = d'.bytes ∧
      Tiled .write d d' lba k ∧ Tiled .read d' d'' lba k := by
  have hbuf : buf.length / 512 = k := by omega
  have hlen' : buf.length = k * 512 := by omega
  have hdisk := Ata.writeSectors_eq (d := disk true d) rfl hlen' hk hlba
  obtain ⟨hwrite, hmoves⟩ := @writeSectors_refines d true lba ht buf
  rw [hdisk] at hwrite
  rw [hbuf] at hmoves
  cases hrun : writeSectors true lba buf d with
  | mk ok d' =>
    rw [hrun] at hwrite hmoves
    obtain ⟨hok, hstore⟩ := Prod.mk.inj hwrite
    have hok' : ok = true := hok.symm
    subst hok'
    have hbytes : d'.bytes = writeBytes d.bytes (512 * lba) buf := (congrArg Disk.bytes hstore).symm
    obtain ⟨hread, hsame, hmoves'⟩ := @readSectors_refines d' true lba hmoves.transfer (512 * k)
    have hout : Ata.readSectors (disk true d') lba (512 * k) = some buf := by
      rw [Nat.mul_comm, Ata.readSectors_eq rfl hk hlba, ← hlen']
      show some (readBytes d'.bytes (512 * lba) buf.length) = some buf
      rw [hbytes, readBytes_writeBytes]
    rw [hout] at hread
    rw [hread, Nat.mul_div_cancel_left k (by decide)] at hmoves'
    refine ⟨d', (readSectors true lba (512 * k) d').2, rfl, Prod.ext hread rfl, ?_, ?_, hsame,
      hmoves.tiled hlba, hmoves'.tiled hlba⟩
    · intro i hi
      have hpart := readBytes_drop_take d'.bytes (512 * lba)
        (show 512 * i + 512 ≤ buf.length by omega)
      rw [hbytes, readBytes_writeBytes] at hpart
      rw [sector, hbytes, Nat.mul_add, hpart]
    · intro n hn
      rw [sector, hbytes]
      exact readBytes_writeBytes_disjoint d.bytes (by omega)

/-- A device that waits for a command and is ready after one poll. -/
def idleDevice : Device where
  count := 0
  lbaLo := 0
  lbaMid := 0
  lbaHi := 0
  drive := 0
  transfer := .idle
  pace _ := ⟨0, pollLimit_pos⟩
  pauses := 0
  busy := 0
  busy_lt := pollLimit_pos
  bytes _ := 0
  log := []

/-- 300 sectors at the end of the range, which go in two pieces. -/
theorem transfer_tiles_300 : ∃ d' d'',
    writeSectors true (2 ^ 28 - 300) (List.replicate (512 * 300) 7) idleDevice = (true, d') ∧
    readSectors true (2 ^ 28 - 300) (512 * 300) d' = (some (List.replicate (512 * 300) 7), d'') ∧
    Tiled .write idleDevice d' (2 ^ 28 - 300) 300 := by
  obtain ⟨d', d'', hwrite, hread, -, -, -, htiled, -⟩ :=
    transfer_tiles (show idleDevice.transfer = .idle from rfl) (show 1 ≤ 300 by decide)
      (show 2 ^ 28 - 300 + 300 ≤ 2 ^ 28 by decide)
      (List.length_replicate : (List.replicate (512 * 300) (7 : UInt8)).length = 512 * 300)
  exact ⟨d', d'', hwrite, hread, htiled⟩

end AeroOS.Ata.Pio
