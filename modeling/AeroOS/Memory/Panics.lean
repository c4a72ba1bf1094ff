import AeroOS.Memory.Image

/-!
# When the loader panics

`parse_elf_segments` and `map_elf_segment` panic for some files: at a program
header whose end wraps around, and at an address that is not canonical.

* `phdrs_ok`, `phdrs_error`: which headers are read, and which segments they give.
* `mapElfSegment_errorsIn`: a segment that is safe is mapped or refused, in
  every address space.
* `mapElfSegment_full`: in an address space in which every page is mapped, the
  loop gets to every page, and a segment that is not safe panics.
* `neverPanics_iff`: the files for which neither function can panic.
-/

namespace AeroOS.Memory

open AeroOS.Bytes AeroOS.Hoare AeroOS.Paging

/-- The texts of the panics. -/
def panics : List String :=
  ["range start index out of range for slice",
    "virtual address must be sign extended in bits 48 to 64",
    "attempt to add resulted in non-canonical virtual address"]

/-- An error that is not a panic. -/
def Returned (e : String) : Prop := e ∉ panics

instance (e : String) : Decidable (Returned e) := inferInstanceAs (Decidable (¬ _))

variable {elf : List UInt8} {phoff phentsize i n k : Nat} {mapTo : MapTo} {pml4 page fl : Nat}
  {p : Phys} {seg : ElfSegment}

/-! ## Program headers -/

/-- The offset of a program header. -/
def phdrOff (phoff phentsize i : Nat) : Nat := (phoff + i * phentsize) % 2 ^ 64

/-- The test that a program header ends in the file passes. -/
def PhdrFits (elf : List UInt8) (off : Nat) : Prop := (off + 56) % 2 ^ 64 ≤ elf.length

/-- The loop over `n` headers from `i` on gets to the header `k`. -/
structure Reads (elf : List UInt8) (phoff phentsize i n k : Nat) : Prop where
  ge : i ≤ k
  lt : k < i + n
  fits : ∀ j, i ≤ j → j ≤ k → PhdrFits elf (phdrOff phoff phentsize j)

theorem reads_zero : ¬ Reads elf phoff phentsize i 0 k := fun h => by
  have h1 := h.ge
  have h2 := h.lt
  omega

theorem reads_succ : Reads elf phoff phentsize i (n + 1) k ↔
    PhdrFits elf (phdrOff phoff phentsize i) ∧
      (k = i ∨ Reads elf phoff phentsize (i + 1) n k) := by
  constructor
  · rintro ⟨hge, hlt, hfits⟩
    refine ⟨hfits i le_rfl hge, ?_⟩
    rcases Nat.eq_or_lt_of_le hge with rfl | hik
    · exact Or.inl rfl
    · exact Or.inr ⟨hik, by omega, fun j hj => hfits j (by omega)⟩
  · rintro ⟨hi, rfl | ⟨hge, hlt, hfits⟩⟩
    · exact ⟨le_rfl, by omega, fun j h1 h2 => by rwa [Nat.le_antisymm h2 h1]⟩
    · refine ⟨by omega, by omega, fun j h1 h2 => ?_⟩
      rcases Nat.eq_or_lt_of_le h1 with rfl | hij
      · exact hi
      · exact hfits j hij h2

theorem phdrs_stop (h : ¬ PhdrFits elf (phdrOff phoff phentsize i)) :
    phdrs elf phoff phentsize i (n + 1) = .ok [] :=
  if_pos (Nat.not_le.1 h)

theorem phdrs_panic (h : PhdrFits elf (phdrOff phoff phentsize i))
    (hlt : elf.length < phdrOff phoff phentsize i) :
    phdrs elf phoff phentsize i (n + 1) = .error "range start index out of range for slice" :=
  (if_neg (Nat.not_lt.2 h)).trans (if_pos hlt)

theorem phdrs_next (h : PhdrFits elf (phdrOff phoff phentsize i))
    (hle : phdrOff phoff phentsize i ≤ elf.length) :
    phdrs elf phoff phentsize i (n + 1) =
      if leAt elf (phdrOff phoff phentsize i) 4 = 1 then
        (phdrs elf phoff phentsize (i + 1) n).map (segmentAt elf (phdrOff phoff phentsize i) :: ·)
      else phdrs elf phoff phentsize (i + 1) n := by
  refine (if_neg (Nat.not_lt.2 h)).trans ((if_neg (Nat.not_lt.2 hle)).trans ?_)
  unfold phdrOff
  rw [ite_not]
  cases phdrs elf phoff phentsize (i + 1) n <;> rfl

/-- The loop over the headers panics at one that starts behind the file. -/
theorem phdrs_error {e : String} (h : phdrs elf phoff phentsize i n = .error e) :
    e ∈ panics ∧ ∃ k, Reads elf phoff phentsize i n k ∧
      elf.length < phdrOff phoff phentsize k := by
  induction n generalizing i with
  | zero => cases h
  | succ n ih =>
    by_cases hfit : PhdrFits elf (phdrOff phoff phentsize i)
    · rcases Nat.lt_or_ge elf.length (phdrOff phoff phentsize i) with hlt | hle
      · rw [phdrs_panic hfit hlt] at h
        cases h
        exact ⟨by decide, i, reads_succ.2 ⟨hfit, Or.inl rfl⟩, hlt⟩
      · have hrest : phdrs elf phoff phentsize (i + 1) n = .error e := by
          rw [phdrs_next hfit hle] at h
          cases hr : phdrs elf phoff phentsize (i + 1) n with
          | ok _ =>
            rw [hr] at h
            split at h <;> cases h
          | error e' =>
            rw [hr] at h
            split at h <;> exact h
        obtain ⟨he, k, hk, hlt⟩ := ih hrest
        exact ⟨he, k, reads_succ.2 ⟨hfit, Or.inr hk⟩, hlt⟩
    · rw [phdrs_stop hfit] at h
      cases h

/-- The loop over the headers gives the PT_LOAD headers that it gets to. -/
theorem phdrs_ok {segments : List ElfSegment}
    (h : phdrs elf phoff phentsize i n = .ok segments) :
    (∀ k, Reads elf phoff phentsize i n k → phdrOff phoff phentsize k ≤ elf.length) ∧
      ∀ seg, seg ∈ segments ↔ ∃ k, Reads elf phoff phentsize i n k ∧
        leAt elf (phdrOff phoff phentsize k) 4 = 1 ∧
          segmentAt elf (phdrOff phoff phentsize k) = seg := by
  induction n generalizing i segments with
  | zero =>
    cases h
    exact ⟨fun k hk => absurd hk reads_zero,
      fun seg => ⟨fun h => (nomatch h), fun ⟨k, hk, _⟩ => absurd hk reads_zero⟩⟩
  | succ n ih =>
    by_cases hfit : PhdrFits elf (phdrOff phoff phentsize i)
    · rcases Nat.lt_or_ge elf.length (phdrOff phoff phentsize i) with hlt | hle
      · rw [phdrs_panic hfit hlt] at h
        cases h
      · rw [phdrs_next hfit hle] at h
        by_cases hload : leAt elf (phdrOff phoff phentsize i) 4 = 1
        · rw [if_pos hload] at h
          cases hr : phdrs elf phoff phentsize (i + 1) n with
          | error e =>
            rw [hr] at h
            cases h
          | ok rest =>
            rw [hr] at h
            cases h
            obtain ⟨hin, hmem⟩ := ih hr
            simp only [reads_succ, hfit, true_and, List.mem_cons, hmem, or_and_right, exists_or,
              forall_eq_or_imp, exists_eq_left, hload]
            exact ⟨⟨hle, hin⟩, fun seg => or_congr_left eq_comm⟩
        · rw [if_neg hload] at h
          obtain ⟨hin, hmem⟩ := ih h
          simp only [reads_succ, hfit, true_and, hmem, or_and_right, exists_or, forall_eq_or_imp,
            exists_eq_left, hload, false_and, false_or]
          exact ⟨⟨hle, hin⟩, fun _ => trivial⟩
    · rw [phdrs_stop hfit] at h
      cases h
      simp [reads_succ, hfit]

/-! ## A segment that is safe -/

/-- The ends of the segment are canonical, and its last page is not the last one
of the lower half. -/
structure ElfSegment.Addresses (seg : ElfSegment) : Prop where
  start : Canonical seg.vaddr
  finish : Canonical ((seg.vaddr + seg.memsz) % 2 ^ 64)
  last : (seg.vaddr + seg.memsz) % 2 ^ 64 < 2 ^ 47 - 4096 ∨ 2 ^ 47 ≤ seg.vaddr

/-- The segment is mapped or refused. -/
def ElfSegment.Safe (seg : ElfSegment) : Prop := seg.memsz ≠ 0 → seg.Addresses

/-- The iterator can step past the page. -/
def StepsPast (page : Nat) : Prop := page < 0xfffffffffffff000 → Canonical (page + 4096)

instance (page : Nat) : Decidable (StepsPast page) := inferInstanceAs (Decidable (_ → _))

theorem stepPast_errorsIn (h : StepsPast page) : ErrorsIn Returned (stepPast page) :=
  .ite (fun hc => absurd (h hc.1) hc.2) fun _ => .pure _

theorem ElfSegment.Addresses.stepsPast (h : seg.Addresses)
    (hpage : page ∈ pagesInclusive seg.vaddr ((seg.vaddr + seg.memsz) % 2 ^ 64)) :
    StepsPast page := by
  obtain ⟨h0, h1, h2⟩ := mem_pagesInclusive.1 hpage
  obtain ⟨hstart, hfinish, hlast⟩ := h
  intro hlt
  unfold Canonical at *
  omega

theorem mapErr_errorsIn {α : Type} {T : String → Prop} {err : String} (h : T err)
    (x : Kernel α) : ErrorsIn T (mapErr err x) := by
  intro s e he
  rw [exec_mapErr] at he
  cases hx : (exec x s).1 with
  | ok a =>
    rw [hx] at he
    cases he
  | error e' =>
    rw [hx] at he
    cases he
    exact h

theorem frameFor_errorsIn : ErrorsIn Returned (frameFor mapTo pml4 page fl) := by
  refine .get_bind fun p => ?_
  cases AddressSpace.translate p.mem pml4 page with
  | some pa => exact .ite (fun _ => .pure _) fun _ => .throw (by decide)
  | none =>
    exact .bind (mapErr_errorsIn (by decide) _) fun _ => .bind (.update _) fun _ => .pure _

theorem virtAddr_eq {vaddr : Nat} (h : Canonical vaddr) : virtAddr vaddr = pure vaddr := if_pos h

theorem mapElfSegment_eq (h0 : seg.memsz ≠ 0) (hs : Canonical seg.vaddr)
    (hf : Canonical ((seg.vaddr + seg.memsz) % 2 ^ 64)) :
    mapElfSegment mapTo pml4 elf seg =
      (pagesInclusive seg.vaddr ((seg.vaddr + seg.memsz) % 2 ^ 64)).forM fun page =>
        mapElfPage mapTo pml4 elf seg page := by
  rw [mapElfSegment, if_neg h0, virtAddr_eq hs, virtAddr_eq hf, pure_bind, pure_bind]

/-- A segment that is safe is mapped or refused, in every address space. -/
theorem mapElfSegment_errorsIn (h : seg.Safe) :
    ErrorsIn Returned (mapElfSegment mapTo pml4 elf seg) := by
  by_cases h0 : seg.memsz = 0
  · rw [mapElfSegment, if_pos h0]
    exact .pure _
  · rw [mapElfSegment_eq h0 (h h0).start (h h0).finish]
    refine .forM fun page hpage => ?_
    exact .bind (stepPast_errorsIn ((h h0).stepsPast hpage)) fun _ =>
      .bind frameFor_errorsIn fun _ => .update _

/-! ## An address space in which every page is mapped -/

/-- Tables at 0x1000 to 0x4000, each with 512 entries for the next one, and the
page at 0x5000. -/
def fullMem : Store := fun x =>
  if x % 8 = 0 then 7 else if x % 8 = 1 then UInt8.ofNat (16 * (x / 4096 + 1)) else 0

/-- The tables are in place. -/
def Full (p : Phys) : Prop := ∀ x < 0x5000, p.mem x = fullMem x

/-- A write to the page. -/
theorem Full.write (h : Full p) {a : Nat} (ha : 0x5000 ≤ a) (bs : List UInt8) :
    Full { p with mem := writeBytes p.mem a bs } := fun x hx =>
  (writeBytes_out p.mem (Or.inl (Nat.lt_of_lt_of_le hx ha))).trans (h x hx)

theorem entry_full (h : Full p) {t i : Nat} (ht : t ∈ [0x1000, 0x2000, 0x3000, 0x4000])
    (hi : i < 512) : entry p.mem t i = t + 0x1007 := by
  have hlt : ∀ t ∈ [0x1000, 0x2000, 0x3000, 0x4000], t + 4096 ≤ 0x5000 := by decide
  have hfull : ∀ t ∈ [0x1000, 0x2000, 0x3000, 0x4000], ∀ i < 512,
      entry fullMem t i = t + 0x1007 := by decide +kernel
  rw [← hfull t ht i hi]
  exact entry_congr hi fun x hx => h x (Nat.lt_of_lt_of_le hx.2 (hlt t ht))

theorem translate_full (h : Full p) (vaddr : Nat) :
    AddressSpace.translate p.mem 0x1000 vaddr = some (0x5000 + (vaddr &&& 0xfff)) := by
  have hidx : ∀ k, vaddr >>> k &&& 0x1ff < 512 := fun k => Nat.lt_succ_of_le Nat.and_le_right
  have h4 := entry_full h (t := 0x1000) (by decide) (hidx 39)
  have h3 := entry_full h (t := 0x2000) (by decide) (hidx 30)
  have h2 := entry_full h (t := 0x3000) (by decide) (hidx 21)
  have h1 := entry_full h (t := 0x4000) (by decide) (hidx 12)
  have haddr : ∀ t ∈ [0x1000, 0x2000, 0x3000, 0x4000], present (t + 0x1007) = true ∧
      huge (t + 0x1007) = false ∧ addr (t + 0x1007) = t + 0x1000 := by decide
  unfold AddressSpace.translate
  simp [h4, h3, h2, h1, haddr]

theorem frameFor_full (h : Full p) (hpage : page % 4096 = 0) :
    exec (frameFor mapTo 0x1000 page fl) p = (.ok 0x5000, p) := by
  have hoff : page &&& 0xfff = 0 := (Nat.and_two_pow_sub_one_eq_mod page 12).trans hpage
  have htr := translate_full h page
  rw [hoff] at htr
  rw [frameFor, exec_bind, exec_get]
  simp only [htr]
  rfl

/-- The loop gets past a page that the iterator can step past. -/
theorem mapElfPage_full (h : Full p) (hpage : page % 4096 = 0) (hstep : StepsPast page) :
    ∃ p', exec (mapElfPage mapTo 0x1000 elf seg page) p = (.ok (), p') ∧ Full p' := by
  have hs : stepPast page = pure () := if_neg fun hc => hc.2 (hstep hc.1)
  rw [mapElfPage, hs, pure_bind, exec_bind, frameFor_full h hpage]
  exact ⟨_, exec_modify .., h.write (Nat.le_add_right ..) _⟩

theorem mapElfPage_stuck (hstep : ¬ StepsPast page) :
    (exec (mapElfPage mapTo pml4 elf seg page) p).1 =
      .error "attempt to add resulted in non-canonical virtual address" := by
  have hc : page < 0xfffffffffffff000 ∧ ¬ Canonical (page + 4096) := by
    rwa [StepsPast, Classical.not_imp] at hstep
  have hs : stepPast page = throw "attempt to add resulted in non-canonical virtual address" :=
    if_pos hc
  rw [mapElfPage, hs, exec_bind, exec_throw]

/-- In the address space with every page, a segment is mapped exactly when it is
safe. -/
theorem mapElfSegment_full (h : Full p) :
    (seg.Safe → ∃ p', exec (mapElfSegment mapTo 0x1000 elf seg) p = (.ok (), p') ∧ Full p') ∧
      (¬ seg.Safe → ∃ e, (exec (mapElfSegment mapTo 0x1000 elf seg) p).1 = .error e ∧
        e ∈ panics) := by
  by_cases h0 : seg.memsz = 0
  · rw [mapElfSegment, if_pos h0]
    exact ⟨fun _ => ⟨p, rfl, h⟩, fun hn => absurd (fun hne => absurd h0 hne) hn⟩
  by_cases hs : Canonical seg.vaddr
  · by_cases hf : Canonical ((seg.vaddr + seg.memsz) % 2 ^ 64)
    · have hloop := exec_forM_stops (I := Full) (T := (· ∈ panics))
        (B := fun page => ¬ StepsPast page)
        (l := pagesInclusive seg.vaddr ((seg.vaddr + seg.memsz) % 2 ^ 64))
        (f := fun page => mapElfPage mapTo 0x1000 elf seg page)
        (fun page hpage hstep p hp =>
          mapElfPage_full hp (mem_pagesInclusive.1 hpage).1 (not_not.1 hstep))
        (fun page _ hstep p _ => ⟨_, mapElfPage_stuck hstep, by decide⟩) h
      rw [mapElfSegment_eq h0 hs hf]
      refine ⟨fun hsafe => hloop.1 fun page hpage => not_not.2 ((hsafe h0).stepsPast hpage),
        fun hn => hloop.2 ⟨0x7ffffffff000, ?_, by decide⟩⟩
      have hlast : ¬ ((seg.vaddr + seg.memsz) % 2 ^ 64 < 2 ^ 47 - 4096 ∨ 2 ^ 47 ≤ seg.vaddr) :=
        fun hl => hn fun _ => ⟨hs, hf, hl⟩
      rw [mem_pagesInclusive]
      omega
    · have hv : virtAddr ((seg.vaddr + seg.memsz) % 2 ^ 64) =
          throw "virtual address must be sign extended in bits 48 to 64" := if_neg hf
      rw [mapElfSegment, if_neg h0, virtAddr_eq hs, pure_bind, hv, exec_bind, exec_throw]
      exact ⟨fun hsafe => absurd (hsafe h0).finish hf, fun _ => ⟨_, rfl, by decide⟩⟩
  · have hv : virtAddr seg.vaddr =
        throw "virtual address must be sign extended in bits 48 to 64" := if_neg hs
    rw [mapElfSegment, if_neg h0, hv, exec_bind, exec_throw]
    exact ⟨fun hsafe => absurd (hsafe h0).start hs, fun _ => ⟨_, rfl, by decide⟩⟩

/-! ## Files -/

/-- The checks of the ELF header pass. -/
structure Identified (elf : List UInt8) : Prop where
  length : 64 ≤ elf.length
  magic : elf.take 4 = [0x7f, 0x45, 0x4c, 0x46]
  elf64 : elf.getD 4 0 = 2
  littleEndian : elf.getD 5 0 = 1
  exec : leAt elf 16 2 = 2
  x86_64 : leAt elf 18 2 = 0x3e

theorem parseElfSegments_eq (h : Identified elf) : parseElfSegments elf =
    (phdrs elf (leAt elf 32 8) (leAt elf 54 2) 0 (leAt elf 56 2)).map
      fun segments => (leAt elf 24 8, segments) := by
  obtain ⟨h1, h2, h3, h4, h5, h6⟩ := h
  rw [parseElfSegments, if_neg (Nat.not_lt.2 h1), if_neg (not_not.2 h2), if_neg (not_not.2 h3),
    if_neg (not_not.2 h4), if_neg (not_not.2 h5), if_neg (not_not.2 h6)]
  cases phdrs elf (leAt elf 32 8) (leAt elf 54 2) 0 (leAt elf 56 2) <;> rfl

/-- Another file is refused. -/
theorem parseElfSegments_of_not_identified (h : ¬ Identified elf) :
    ∃ e, parseElfSegments elf = .error e ∧ Returned e := by
  unfold parseElfSegments
  split_ifs with h1 h2 h3 h4 h5 h6
  · exact ⟨_, rfl, by decide⟩
  · exact ⟨_, rfl, by decide⟩
  · exact ⟨_, rfl, by decide⟩
  · exact ⟨_, rfl, by decide⟩
  · exact ⟨_, rfl, by decide⟩
  · exact ⟨_, rfl, by decide⟩
  · exact absurd ⟨Nat.not_lt.1 h1, not_not.1 h2, not_not.1 h3, not_not.1 h4, not_not.1 h5,
      not_not.1 h6⟩ h

/-- The offset of the program header `k` of the file. -/
def headerOff (elf : List UInt8) (k : Nat) : Nat := phdrOff (leAt elf 32 8) (leAt elf 54 2) k

/-- `parse_elf_segments` gets to the program header `k` of the file. -/
def ReadsHeader (elf : List UInt8) (k : Nat) : Prop :=
  Identified elf ∧ Reads elf (leAt elf 32 8) (leAt elf 54 2) 0 (leAt elf 56 2) k

/-- A program header in the file, for a segment that is safe. -/
structure HeaderSafe (elf : List UInt8) (off : Nat) : Prop where
  inside : off ≤ elf.length
  segment : leAt elf off 4 = 1 → (segmentAt elf off).Safe

/-- The segments of a file are those of its headers. -/
theorem mem_parseElfSegments {entryPoint : Nat} {segments : List ElfSegment}
    (h : parseElfSegments elf = .ok (entryPoint, segments)) :
    Identified elf ∧ (∀ k, ReadsHeader elf k → headerOff elf k ≤ elf.length) ∧
      ∀ seg, seg ∈ segments ↔ ∃ k, ReadsHeader elf k ∧ leAt elf (headerOff elf k) 4 = 1 ∧
        segmentAt elf (headerOff elf k) = seg := by
  by_cases hid : Identified elf
  · rw [parseElfSegments_eq hid] at h
    cases hp : phdrs elf (leAt elf 32 8) (leAt elf 54 2) 0 (leAt elf 56 2) with
    | error e =>
      rw [hp] at h
      cases h
    | ok segments' =>
      rw [hp] at h
      cases h
      obtain ⟨hin, hmem⟩ := phdrs_ok hp
      exact ⟨hid, fun k hk => hin k hk.2, fun seg => (hmem seg).trans
        (exists_congr fun k => and_congr_left fun _ => (and_iff_right hid).symm)⟩
  · obtain ⟨e, he, -⟩ := parseElfSegments_of_not_identified hid
    rw [he] at h
    cases h

/-- An error for an ELF file comes from a header that starts behind the file. -/
theorem parseElfSegments_error (hid : Identified elf) {e : String}
    (h : parseElfSegments elf = .error e) :
    e ∈ panics ∧ ∃ k, ReadsHeader elf k ∧ elf.length < headerOff elf k := by
  rw [parseElfSegments_eq hid] at h
  cases hp : phdrs elf (leAt elf 32 8) (leAt elf 54 2) 0 (leAt elf 56 2) with
  | ok segments =>
    rw [hp] at h
    cases h
  | error e' =>
    rw [hp] at h
    cases h
    obtain ⟨he, k, hk, hlt⟩ := phdrs_error hp
    exact ⟨he, k, ⟨hid, hk⟩, hlt⟩

/-- Neither function panics for the file: `parse_elf_segments` does not, nor does
`map_elf_segment` for the segments in their order, in any address space. -/
structure NeverPanics (elf : List UInt8) : Prop where
  parse : ∀ e, parseElfSegments elf = .error e → Returned e
  map : ∀ entryPoint segments, parseElfSegments elf = .ok (entryPoint, segments) →
    ∀ mapTo, FollowsWalk mapTo → ∀ pml4,
      ErrorsIn Returned (segments.forM fun seg => mapElfSegment mapTo pml4 elf seg)

theorem neverPanics_iff : NeverPanics elf ↔
    ∀ k, ReadsHeader elf k → HeaderSafe elf (headerOff elf k) := by
  constructor
  · rintro ⟨hparse, hmap⟩ k hk
    cases hp : parseElfSegments elf with
    | error e => exact absurd (parseElfSegments_error hk.1 hp).1 (hparse e hp)
    | ok r =>
      obtain ⟨entryPoint, segments⟩ := r
      obtain ⟨-, hin, hmem⟩ := mem_parseElfSegments hp
      refine ⟨hin k hk, fun hload => by_contra fun hn => ?_⟩
      -- in the address space with every page the loop gets to the segment
      have hloop := exec_forM_stops (I := Full) (T := (· ∈ panics)) (B := fun seg => ¬ seg.Safe)
        (l := segments) (f := fun seg => mapElfSegment walkTo 0x1000 elf seg)
        (fun seg _ hs p hp => (mapElfSegment_full hp).1 (not_not.1 hs))
        (fun seg _ hs p hp => (mapElfSegment_full hp).2 hs) (s := ⟨fullMem, []⟩) fun _ _ => rfl
      obtain ⟨e, he, hpanic⟩ := hloop.2 ⟨_, (hmem _).2 ⟨k, hk, hload, rfl⟩, hn⟩
      exact hmap _ _ hp walkTo walkTo_follows 0x1000 _ e he hpanic
  · intro h
    refine ⟨fun e he => ?_, fun entryPoint segments hp mapTo _ pml4 => ?_⟩
    · by_cases hid : Identified elf
      · obtain ⟨-, k, hk, hlt⟩ := parseElfSegments_error hid he
        exact absurd (h k hk).inside (Nat.not_le.2 hlt)
      · obtain ⟨e', he', hr⟩ := parseElfSegments_of_not_identified hid
        rw [he'] at he
        cases he
        exact hr
    · obtain ⟨-, -, hmem⟩ := mem_parseElfSegments hp
      refine .forM fun seg hseg => mapElfSegment_errorsIn ?_
      obtain ⟨k, hk, hload, rfl⟩ := (hmem seg).1 hseg
      exact (h k hk).segment hload

/-! ## Copies -/

/-- Where in the file the data of a page starts. -/
def chunkStart (seg : ElfSegment) (page : Nat) : Nat :=
  (seg.offset + fileStart seg page) % 2 ^ 64

/-- How much of the file is for the page. -/
def chunkLen (seg : ElfSegment) (page : Nat) : Nat := fileEnd seg page - fileStart seg page

/-- The loop copies file data to the page. -/
structure Copies (elf : List UInt8) (seg : ElfSegment) (page : Nat) : Prop where
  nonempty : fileEnd seg page > fileStart seg page
  inSegment : fileStart seg page < seg.filesz
  inFile : (chunkStart seg page + chunkLen seg page) % 2 ^ 64 ≤ elf.length

/-- `Copies` is the condition of `fileCopy`. -/
theorem fileCopy_of_copies (h : Copies elf seg page) : fileCopy elf seg page =
    (dstOffset seg page, fileBytes elf (chunkStart seg page) (chunkLen seg page)) :=
  (if_pos ⟨h.nonempty, h.inSegment⟩).trans (if_pos h.inFile)

/-- What is copied to the pages is in the file. -/
def CopiesInside (elf : List UInt8) : Prop :=
  ∀ entryPoint segments, parseElfSegments elf = .ok (entryPoint, segments) →
    ∀ seg ∈ segments, ∀ page ∈ seg.pages, Copies elf seg page →
      chunkStart seg page + chunkLen seg page ≤ elf.length

/-- The data of no page ends past 2^64, where the test that it is in the file
passes because the sum wraps. -/
def HeaderFits (elf : List UInt8) (off : Nat) : Prop :=
  leAt elf off 4 = 1 → ∀ page ∈ (segmentAt elf off).pages, Copies elf (segmentAt elf off) page →
    chunkStart (segmentAt elf off) page + chunkLen (segmentAt elf off) page < 2 ^ 64

theorem Copies.inside_iff (h : Copies elf seg page) (hlen : elf.length < 2 ^ 64) :
    chunkStart seg page + chunkLen seg page ≤ elf.length ↔
      chunkStart seg page + chunkLen seg page < 2 ^ 64 := by
  refine ⟨fun hle => Nat.lt_of_le_of_lt hle hlen, fun hlt => ?_⟩
  have hin := h.inFile
  rwa [Nat.mod_eq_of_lt hlt] at hin

/-- The loader does not panic for a file exactly when every program header that
it gets to is safe.  What it copies is in the file as well exactly when no data
of a page ends past 2^64. -/
theorem loader_safe_iff (elf : List UInt8) :
    (NeverPanics elf ↔ ∀ k, ReadsHeader elf k → HeaderSafe elf (headerOff elf k)) ∧
      (elf.length < 2 ^ 64 → (NeverPanics elf ∧ CopiesInside elf ↔ ∀ k, ReadsHeader elf k →
        HeaderSafe elf (headerOff elf k) ∧ HeaderFits elf (headerOff elf k))) := by
  refine ⟨neverPanics_iff, fun hlen => ?_⟩
  rw [neverPanics_iff]
  constructor
  · rintro ⟨hsafe, hcopies⟩ k hk
    refine ⟨hsafe k hk, fun hload page hpage hcopy => (hcopy.inside_iff hlen).1 ?_⟩
    cases hp : parseElfSegments elf with
    | error e =>
      obtain ⟨-, j, hj, hlt⟩ := parseElfSegments_error hk.1 hp
      exact absurd (hsafe j hj).inside (Nat.not_le.2 hlt)
    | ok r =>
      obtain ⟨-, -, hmem⟩ := mem_parseElfSegments hp
      exact hcopies r.1 r.2 hp _ ((hmem _).2 ⟨k, hk, hload, rfl⟩) page hpage hcopy
  · intro h
    refine ⟨fun k hk => (h k hk).1, fun entryPoint segments hp seg hseg page hpage hcopy => ?_⟩
    obtain ⟨-, -, hmem⟩ := mem_parseElfSegments hp
    obtain ⟨k, hk, hload, rfl⟩ := (hmem seg).1 hseg
    exact (hcopy.inside_iff hlen).2 ((h k hk).2 hload page hpage hcopy)

/-- A segment at the first address that is not canonical. -/
def outsideSegment : ElfSegment := ⟨2 ^ 47, 120, 0, 1, 4⟩

/-- A file with it panics the loader, in a new address space. -/
theorem not_neverPanics_outside : ¬ NeverPanics (elfFile 0 [outsideSegment] []) := by
  intro h
  have hparse : parseElfSegments (elfFile 0 [outsideSegment] []) = .ok (0, [outsideSegment]) := by
    decide +kernel
  have hpanic : (exec ([outsideSegment].forM fun seg =>
      mapElfSegment walkTo 0x1000 (elfFile 0 [outsideSegment] []) seg) freeFrames).1 =
        .error "virtual address must be sign extended in bits 48 to 64" := by decide +kernel
  exact absurd (h.map _ _ hparse walkTo walkTo_follows 0x1000 freeFrames _ hpanic) (by decide)

end AeroOS.Memory
