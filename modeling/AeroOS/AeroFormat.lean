import AeroOS.Lib.Bytes

/-!
# `.aero` packages

`aero_format.rs`: the header of a package, and the ELF binary that is loaded from it.

* `loadAero_eq`: `load_aero` as one case distinction on the fields.
* `Package.encode` is the layout that the format describes.
* `documented_iff`: the byte strings for which `load_aero` does what the format says.

Sums of offsets stay below `2 ^ 33`, so that no `usize` wraps.
-/

namespace AeroOS.AeroFormat

open Bytes

/-- `AERO`. -/
def AERO_MAGIC : List UInt8 := [0x41, 0x45, 0x52, 0x4F]

def AERO_VERSION : Nat := 1

def MAX_NAME_LEN : Nat := 31

structure AeroHeader where
  magic : List UInt8
  version : Nat
  nameLen : Nat
  iconColor : Nat
  elfLen : Nat
  resourceCount : Nat
  deriving DecidableEq, Repr

/-! ## Loading

A `none` of `slice`, of `loadAero` and around the result of `parseHeader` is a panic. -/

/-- `buf[a..b]`. -/
def slice (buf : List UInt8) (a b : Nat) : Option (List UInt8) :=
  if a ≤ b ∧ b ≤ buf.length then some ((buf.drop a).take (b - a)) else none

/-- `parse_header`. -/
def parseHeader (buf : List UInt8) : Option (Option (AeroHeader × Nat)) := do
  if buf.length < 4 + 2 + 1 then
    return none
  let magic ← slice buf 0 4
  if magic ≠ AERO_MAGIC then
    return none
  let version ← slice buf 4 6
  let nameLen ← buf[6]?
  let nameStart := 7
  let nameEnd := nameStart + nameLen.toNat
  if buf.length < nameEnd + 4 + 4 + 2 then
    return none
  let iconColor ← slice buf nameEnd (nameEnd + 4)
  let elfLen ← slice buf (nameEnd + 4) (nameEnd + 8)
  let resourceCount ← slice buf (nameEnd + 8) (nameEnd + 10)
  return some ({
    magic := AERO_MAGIC
    version := leNat version
    nameLen := nameLen.toNat
    iconColor := leNat iconColor
    elfLen := leNat elfLen
    resourceCount := leNat resourceCount }, nameStart)

/-- `elf_offset`. -/
def elfOffset (header : AeroHeader) : Nat × Nat :=
  (7 + header.nameLen + 4 + 4 + 2, header.elfLen)

/-- `load_aero`. -/
def loadAero (buf : List UInt8) : Option (Except String (List UInt8)) := do
  match ← parseHeader buf with
  | none => return .error "invalid .aero header"
  | some (header, _) =>
    if header.version ≠ AERO_VERSION then
      return .error "unsupported .aero version"
    let (elfOff, elfLen) := elfOffset header
    if elfOff + elfLen > buf.length then
      return .error "ELF section truncated"
    let elf ← slice buf elfOff (elfOff + elfLen)
    return .ok elf

/-! ## The fields of a package -/

/-- The little-endian number of `n` bytes at `off`. -/
def numberAt (buf : List UInt8) (off n : Nat) : Nat := leNat ((buf.drop off).take n)

/-- The length of the name. -/
def nameLength (buf : List UInt8) : Nat := (buf.getD 6 0).toNat

/-- The length of the ELF binary, which stands behind the colour of the icon. -/
def elfLength (buf : List UInt8) : Nat := numberAt buf (7 + nameLength buf + 4) 4

/-- A header that `parse_header` takes. -/
structure Parses (buf : List UInt8) : Prop where
  magic : buf.take 4 = AERO_MAGIC
  fits : 7 + nameLength buf + 10 ≤ buf.length

instance (buf : List UInt8) : Decidable (Parses buf) :=
  decidable_of_iff (buf.take 4 = AERO_MAGIC ∧ 7 + nameLength buf + 10 ≤ buf.length)
    ⟨fun h => ⟨h.1, h.2⟩, fun h => ⟨h.1, h.2⟩⟩

theorem slice_of_le {buf : List UInt8} {a n : Nat} (h : a + n ≤ buf.length) :
    slice buf a (a + n) = some ((buf.drop a).take n) := by
  rw [slice, if_pos ⟨by omega, h⟩, Nat.add_sub_cancel_left]

/-- The header of the fields. -/
def headerOf (buf : List UInt8) : AeroHeader where
  magic := AERO_MAGIC
  version := numberAt buf 4 2
  nameLen := nameLength buf
  iconColor := numberAt buf (7 + nameLength buf) 4
  elfLen := elfLength buf
  resourceCount := numberAt buf (7 + nameLength buf + 8) 2

/-- `parse_header` does not panic, and reads the fields of a header that it takes. -/
theorem parseHeader_eq (buf : List UInt8) :
    parseHeader buf = some (if Parses buf then some (headerOf buf, 7) else none) := by
  unfold parseHeader
  by_cases hshort : buf.length < 4 + 2 + 1
  · rw [if_pos hshort, if_neg]
    · rfl
    · intro h
      have := h.fits
      omega
  have hmagic : slice buf 0 4 = some (buf.take 4) := slice_of_le (a := 0) (n := 4) (by omega)
  have hversion : slice buf 4 6 = some ((buf.drop 4).take 2) :=
    slice_of_le (a := 4) (n := 2) (by omega)
  have hlen : 6 < buf.length := by omega
  have hname : buf[6]? = some (buf.getD 6 0) := by
    rw [List.getD_eq_getElem?_getD, List.getElem?_eq_getElem hlen]
    rfl
  rw [if_neg hshort, hmagic, hversion, hname]
  simp only [Option.pure_def, Option.bind_eq_bind, Option.bind_some]
  by_cases hm : buf.take 4 ≠ AERO_MAGIC
  · rw [if_pos hm, if_neg fun h => hm h.magic]
  rw [if_neg hm]
  by_cases hfits : buf.length < 7 + nameLength buf + 4 + 4 + 2
  · rw [if_neg fun h : Parses buf => by have := h.fits; omega]
    exact if_pos hfits
  have hparse : Parses buf := ⟨not_not.1 hm, by omega⟩
  rw [if_pos hparse]
  refine (if_neg hfits).trans ?_
  show (slice buf (7 + nameLength buf) (7 + nameLength buf + 4)).bind _ = _
  rw [slice_of_le (by omega), Option.bind_some,
    show 7 + (buf.getD 6 0).toNat + 8 = 7 + nameLength buf + 4 + 4 from rfl]
  show (slice buf (7 + nameLength buf + 4) (7 + nameLength buf + 4 + 4)).bind _ = _
  rw [slice_of_le (by omega), Option.bind_some]
  show (slice buf (7 + nameLength buf + 8) (7 + nameLength buf + 8 + 2)).bind _ = _
  rw [slice_of_le (by omega), Option.bind_some]
  rfl

/-- A package that `load_aero` takes. -/
structure Loads (buf : List UInt8) : Prop extends Parses buf where
  version : numberAt buf 4 2 = AERO_VERSION
  elf : 7 + nameLength buf + 10 + elfLength buf ≤ buf.length

/-- `load_aero` does not panic, and returns the bytes behind the resource count of the header. -/
theorem loadAero_eq (buf : List UInt8) :
    loadAero buf = some (
      if ¬ Parses buf then .error "invalid .aero header"
      else if numberAt buf 4 2 ≠ AERO_VERSION then .error "unsupported .aero version"
      else if buf.length < 7 + nameLength buf + 10 + elfLength buf then
        .error "ELF section truncated"
      else .ok ((buf.drop (7 + nameLength buf + 10)).take (elfLength buf))) := by
  unfold loadAero
  rw [parseHeader_eq]
  by_cases hparse : Parses buf
  swap
  · rw [if_neg hparse, if_pos hparse]
    rfl
  rw [if_pos hparse, if_neg (not_not.2 hparse)]
  simp only [Option.pure_def, Option.bind_eq_bind, Option.bind_some]
  by_cases hversion : numberAt buf 4 2 ≠ AERO_VERSION
  · rw [if_pos hversion]
    exact if_pos hversion
  rw [if_neg hversion]
  refine (if_neg hversion).trans ?_
  by_cases hend : buf.length < 7 + nameLength buf + 10 + elfLength buf
  · rw [if_pos hend]
    exact if_pos hend
  rw [if_neg hend]
  refine (if_neg hend).trans ?_
  show (slice buf (7 + nameLength buf + 10) (7 + nameLength buf + 10 + elfLength buf)).bind _ = _
  rw [slice_of_le (by omega)]
  rfl

theorem loadAero_of_loads {buf : List UInt8} (h : Loads buf) :
    loadAero buf = some (.ok ((buf.drop (7 + nameLength buf + 10)).take (elfLength buf))) := by
  rw [loadAero_eq, if_neg (not_not.2 h.toParses), if_neg (not_not.2 h.version),
    if_neg (Nat.not_lt.2 h.elf)]

theorem loadAero_of_not_loads {buf : List UInt8} (h : ¬ Loads buf) :
    ∃ e, loadAero buf = some (.error e) := by
  rw [loadAero_eq]
  by_cases hparse : Parses buf
  swap
  · exact ⟨_, congrArg some (if_pos hparse)⟩
  rw [if_neg (not_not.2 hparse)]
  by_cases hversion : numberAt buf 4 2 = AERO_VERSION
  swap
  · exact ⟨_, congrArg some (if_pos hversion)⟩
  rw [if_neg (not_not.2 hversion)]
  refine ⟨_, congrArg some (if_pos ?_)⟩
  by_contra hend
  exact h ⟨hparse, hversion, Nat.not_lt.1 hend⟩

/-! ## The layout -/

/-- A resource entry. -/
structure Resource where
  name : List UInt8
  data : List UInt8
  name_lt : name.length < 2 ^ 8
  data_lt : data.length < 2 ^ 32

def Resource.encode (r : Resource) : List UInt8 :=
  leBytes 1 r.name.length ++ r.name ++ leBytes 4 r.data.length ++ r.data

/-- What a package holds. -/
structure Package where
  name : List UInt8
  iconColor : Nat
  elf : List UInt8
  resources : List Resource
  name_le : name.length ≤ MAX_NAME_LEN
  iconColor_lt : iconColor < 2 ^ 32
  elf_lt : elf.length < 2 ^ 32
  resources_lt : resources.length < 2 ^ 16

namespace Package

variable (p : Package)

/-- What stands behind the ELF binary. -/
def tail : List UInt8 :=
  leBytes 2 p.resources.length ++ p.resources.flatMap Resource.encode

/-- The fields in the order of the format. -/
def encode : List UInt8 :=
  AERO_MAGIC ++ (leBytes 2 AERO_VERSION ++ (leBytes 1 p.name.length ++ (p.name ++
    (leBytes 4 p.iconColor ++ (leBytes 4 p.elf.length ++ (p.elf ++ p.tail))))))

end Package

/-- The number that stands behind `off` bytes. -/
theorem numberAt_append {front rest : List UInt8} {off n v : Nat} (hfront : front.length = off)
    (hv : v < 256 ^ n) : numberAt (front ++ (leBytes n v ++ rest)) off n = v := by
  rw [numberAt, List.drop_left' hfront, List.take_left' (leBytes_length n v),
    leNat_leBytes_of_lt hv]

namespace Package

variable (p : Package)

/-- The fields in front of the ELF binary. -/
def head : List UInt8 :=
  AERO_MAGIC ++ (leBytes 2 AERO_VERSION ++ (leBytes 1 p.name.length ++ (p.name ++
    leBytes 4 p.iconColor)))

theorem encode_eq : p.encode = p.head ++ (leBytes 4 p.elf.length ++ (p.elf ++ p.tail)) := by
  simp only [encode, head, List.append_assoc]

theorem nameLength_encode : nameLength p.encode = p.name.length := by
  have hname : p.name.length ≤ 31 := p.name_le
  show (UInt8.ofNat p.name.length).toNat = p.name.length
  rw [UInt8.toNat_ofNat']
  omega

theorem head_length : p.head.length = 7 + nameLength p.encode + 4 := by
  rw [nameLength_encode, head, List.length_append, List.length_append, List.length_append,
    List.length_append, leBytes_length, leBytes_length, leBytes_length]
  show 4 + (2 + (1 + (p.name.length + 4))) = _
  omega

theorem elfLength_encode : elfLength p.encode = p.elf.length := by
  show numberAt p.encode (7 + nameLength p.encode + 4) 4 = p.elf.length
  rw [encode_eq]
  refine numberAt_append ?_ p.elf_lt
  rw [← encode_eq]
  exact p.head_length

theorem length_encode : p.encode.length = 7 + nameLength p.encode + 8 + p.elf.length +
    p.tail.length := by
  rw [encode_eq, List.length_append, List.length_append, List.length_append, head_length,
    leBytes_length, ← encode_eq]
  omega

theorem two_le_tail : 2 ≤ p.tail.length := by
  rw [tail, List.length_append, leBytes_length]
  omega

theorem drop_encode : p.encode.drop (7 + nameLength p.encode + 8) = p.elf ++ p.tail := by
  have hfront : (p.head ++ leBytes 4 p.elf.length).length = 7 + nameLength p.encode + 8 := by
    rw [List.length_append, head_length, leBytes_length]
  have hdrop : ((p.head ++ leBytes 4 p.elf.length) ++ (p.elf ++ p.tail)).drop
      (7 + nameLength p.encode + 8) = p.elf ++ p.tail := List.drop_left' hfront
  rw [List.append_assoc, ← encode_eq] at hdrop
  exact hdrop

/-- Every package is loaded. -/
theorem loads_encode : Loads p.encode := by
  have htail := p.two_le_tail
  have hlen := p.length_encode
  exact ⟨⟨rfl, by omega⟩, rfl, by rw [elfLength_encode]; omega⟩

/-- What is loaded begins behind the second byte of the ELF binary. -/
theorem loadAero_encode :
    loadAero p.encode = some (.ok ((p.elf ++ leBytes 2 p.resources.length).drop 2)) := by
  rw [loadAero_of_loads p.loads_encode, elfLength_encode,
    show 7 + nameLength p.encode + 10 = 7 + nameLength p.encode + 8 + 2 from rfl,
    ← List.drop_drop, drop_encode, tail, ← List.append_assoc, List.drop_append_of_le_length]
  · apply congrArg fun l => some (Except.ok l)
    apply List.take_left'
    rw [List.length_drop, List.length_append, leBytes_length, Nat.add_sub_cancel]
  · rw [List.length_append, leBytes_length]
    omega

end Package

/-! ## What the format says -/

/-- The name is longer than the format allows. -/
def LongName (buf : List UInt8) : Prop := MAX_NAME_LEN < nameLength buf

/-- The buffer ends in front of the end of the ELF binary. -/
def Truncated (buf : List UInt8) : Prop := buf.length < 7 + nameLength buf + 8 + elfLength buf

/-- A result of `load_aero` is what the format says. -/
structure Documented (buf : List UInt8) (result : Option (Except String (List UInt8))) : Prop where
  package : ∀ p : Package, buf = p.encode → result = some (.ok p.elf)
  returns : result ≠ none
  inside : ∀ elf, result = some (.ok elf) → ∃ a, slice buf a (a + elf.length) = some elf
  long : LongName buf → ∃ e, result = some (.error e)
  truncated : Truncated buf → ∃ e, result = some (.error e)

/-- A package has an ELF binary that, with the resource count behind it, repeats its first two
bytes, and a long name stands in a buffer that is refused for something else. -/
structure Tolerated (buf : List UInt8) : Prop where
  package : ∀ p : Package, buf = p.encode →
    (p.elf ++ leBytes 2 p.resources.length).drop 2 = p.elf
  long : LongName buf → buf.take 4 ≠ AERO_MAGIC ∨ numberAt buf 4 2 ≠ AERO_VERSION ∨
    buf.length < 7 + nameLength buf + 10 + elfLength buf

theorem not_loads_iff (buf : List UInt8) :
    ¬ Loads buf ↔ buf.take 4 ≠ AERO_MAGIC ∨ numberAt buf 4 2 ≠ AERO_VERSION ∨
      buf.length < 7 + nameLength buf + 10 + elfLength buf := by
  constructor
  · intro h
    by_contra hall
    rw [not_or, not_or, not_not, not_not, Nat.not_lt] at hall
    exact h ⟨⟨hall.1, by omega⟩, hall.2.1, hall.2.2⟩
  · rintro (h | h | h) hloads
    · exact h hloads.magic
    · exact h hloads.version
    · have := hloads.elf
      omega

/-- `load_aero` does what the format says if and only if the two bytes that it leaves out of an
ELF binary do not matter, and a long name comes with another mistake. -/
theorem documented_iff (buf : List UInt8) : Documented buf (loadAero buf) ↔ Tolerated buf := by
  constructor
  · intro h
    refine ⟨?_, ?_⟩
    · rintro p rfl
      have hsame := h.package p rfl
      rw [p.loadAero_encode] at hsame
      exact Except.ok.inj (Option.some.inj hsame)
    · intro hlong
      rw [← not_loads_iff]
      intro hloads
      obtain ⟨e, he⟩ := h.long hlong
      rw [loadAero_of_loads hloads] at he
      cases he
  · intro h
    refine ⟨?_, ?_, ?_, ?_, ?_⟩
    · rintro p rfl
      rw [p.loadAero_encode, h.package p rfl]
    · rw [loadAero_eq]
      exact Option.some_ne_none _
    · intro elf helf
      by_cases hloads : Loads buf
      · rw [loadAero_of_loads hloads] at helf
        obtain rfl := Except.ok.inj (Option.some.inj helf)
        have hend := hloads.elf
        refine ⟨7 + nameLength buf + 10, ?_⟩
        rw [List.length_take, List.length_drop, Nat.min_eq_left (by omega), slice_of_le hend]
      · obtain ⟨e, he⟩ := loadAero_of_not_loads hloads
        rw [he] at helf
        cases helf
    · intro hlong
      exact loadAero_of_not_loads ((not_loads_iff buf).2 (h.long hlong))
    · intro htrunc
      apply loadAero_of_not_loads
      intro hloads
      have hend := hloads.elf
      unfold Truncated at htrunc
      omega

/-- A package with the four bytes of an ELF magic, and no name. -/
def smallPackage : Package where
  name := []
  iconColor := 0
  elf := [0x7F, 0x45, 0x4C, 0x46]
  resources := []
  name_le := by decide
  iconColor_lt := by decide
  elf_lt := by decide
  resources_lt := by decide

/-- The ELF binary of a package is not what is loaded. -/
theorem not_documented : ¬ Documented smallPackage.encode (loadAero smallPackage.encode) := by
  intro h
  have hsame := h.package smallPackage rfl
  rw [smallPackage.loadAero_encode] at hsame
  exact absurd (Except.ok.inj (Option.some.inj hsame)) (by decide)

end AeroOS.AeroFormat
