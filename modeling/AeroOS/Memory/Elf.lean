import AeroOS.Memory.PageTable

/-!
# Loading an ELF image

`userproc.rs`: the program headers of an ELF file, the mapping of its PT_LOAD
segments and of the user stack into a new address space.

Numbers are `u64` of a release build, where sums and differences wrap.
-/

namespace AeroOS.Memory

open AeroOS.Bytes AeroOS.Hoare AeroOS.Paging

def USER_STACK_TOP : Nat := 0x7FFF00000000
def USER_STACK_SIZE : Nat := 64 * 1024

/-! ## Program headers -/

/-- A PT_LOAD segment. -/
structure ElfSegment where
  vaddr : Nat
  offset : Nat
  filesz : Nat
  memsz : Nat
  flags : Nat
  deriving DecidableEq, Repr

/-- The little-endian number of `n` bytes at `off`. -/
def leAt (elf : List UInt8) (off n : Nat) : Nat := leNat ((elf.drop off).take n)

/-- The fields of the program header at `off`. -/
def segmentAt (elf : List UInt8) (off : Nat) : ElfSegment where
  vaddr := leAt elf (off + 16) 8
  offset := leAt elf (off + 8) 8
  filesz := leAt elf (off + 32) 8
  memsz := leAt elf (off + 40) 8
  flags := leAt elf (off + 4) 4

/-- The loop of `parse_elf_segments` over the headers from `i` on, `n` of them.
An offset so large that the test wraps is past the end of the slice, where the
read panics. -/
def phdrs (elf : List UInt8) (phoff phentsize : Nat) :
    (i n : Nat) → Except String (List ElfSegment)
  | _, 0 => .ok []
  | i, n + 1 =>
    let off := (phoff + i * phentsize) % 2 ^ 64
    if (off + 56) % 2 ^ 64 > elf.length then .ok []
    else if off > elf.length then .error "range start index out of range for slice"
    else if leAt elf off 4 ≠ 1 then phdrs elf phoff phentsize (i + 1) n
    else
      match phdrs elf phoff phentsize (i + 1) n with
      | .ok segments => .ok (segmentAt elf off :: segments)
      | .error e => .error e

/-- `parse_elf_segments`: the entry point and the PT_LOAD segments. -/
def parseElfSegments (elf : List UInt8) : Except String (Nat × List ElfSegment) :=
  if elf.length < 64 then .error "ELF too small"
  else if elf.take 4 ≠ [0x7f, 0x45, 0x4c, 0x46] then .error "bad ELF magic"
  else if elf.getD 4 0 ≠ 2 then .error "not ELF64"
  else if elf.getD 5 0 ≠ 1 then .error "not little-endian"
  else if leAt elf 16 2 ≠ 2 then .error "not ET_EXEC"
  else if leAt elf 18 2 ≠ 0x3e then .error "not x86_64"
  else
    match phdrs elf (leAt elf 32 8) (leAt elf 54 2) 0 (leAt elf 56 2) with
    | .ok segments => .ok (leAt elf 24 8, segments)
    | .error e => .error e

/-! ## Pages of a segment -/

/-- `Page::range_inclusive`, by the addresses of the pages. -/
def pagesInclusive (first last : Nat) : List Nat :=
  (List.range' (first / 4096) (last / 4096 + 1 - first / 4096)).map (· * 4096)

/-- The iterator of a range steps past the page that it returns, which panics at
the end of the lower half. -/
def stepPast (page : Nat) : Kernel Unit :=
  if page < 0xfffffffffffff000 ∧ ¬ Canonical (page + 4096) then
    throw "attempt to add resulted in non-canonical virtual address"
  else return ()

/-- `map_err`. -/
def mapErr {α : Type} (err : String) (x : Kernel α) : Kernel α := ExceptT.adapt (fun _ => err) x

/-- The flags with which a segment maps its pages. -/
def segmentFlags (seg : ElfSegment) : Nat :=
  if seg.flags &&& 2 ≠ 0 then PRESENT ||| USER_ACCESSIBLE ||| WRITABLE
  else PRESENT ||| USER_ACCESSIBLE

/-- The frame of a page: the one that is mapped, or a new one that is zeroed. -/
def frameFor (mapTo : MapTo) (pml4 page fl : Nat) : Kernel Nat := do
  let p ← get
  match AddressSpace.translate p.mem pml4 page with
  | some pa =>
    if pa % 4096 = 0 then return pa
    else throw "failed to map ELF page"
  | none =>
    let frame ← mapErr "failed to map ELF page" (AddressSpace.mapUserPageAlloc mapTo pml4 page fl)
    modify fun p => { p with mem := zeroFrame p.mem frame }
    return frame

/-- Where the file data of the page starts in the segment. -/
def fileStart (seg : ElfSegment) (page : Nat) : Nat :=
  if page > seg.vaddr then page - seg.vaddr else 0

/-- Where the file data of the page ends in the segment. -/
def fileEnd (seg : ElfSegment) (page : Nat) : Nat :=
  if (page + 4096) % 2 ^ 64 > (seg.vaddr + seg.filesz) % 2 ^ 64 then seg.filesz
  else ((page + 4096) % 2 ^ 64 + 2 ^ 64 - seg.vaddr) % 2 ^ 64

/-- Where the file data goes in the frame. -/
def dstOffset (seg : ElfSegment) (page : Nat) : Nat :=
  (if page < seg.vaddr then seg.vaddr else page) % 4096

/-- `len` bytes of the file from `src` on.  What is past the end of the file is
not known, and 0 stands for it. -/
def fileBytes (elf : List UInt8) (src len : Nat) : List UInt8 :=
  (List.range len).map fun i => elf.getD (src + i) 0

/-- What of the file is copied to the frame of a page, and where in the frame. -/
def fileCopy (elf : List UInt8) (seg : ElfSegment) (page : Nat) : Nat × List UInt8 :=
  if fileEnd seg page > fileStart seg page ∧ fileStart seg page < seg.filesz then
    let src := (seg.offset + fileStart seg page) % 2 ^ 64
    let len := fileEnd seg page - fileStart seg page
    if (src + len) % 2 ^ 64 ≤ elf.length then (dstOffset seg page, fileBytes elf src len)
    else (0, [])
  else (0, [])

section

variable (mapTo : MapTo)

/-- The body of the loop of `map_elf_segment`. -/
def mapElfPage (pml4 : Nat) (elf : List UInt8) (seg : ElfSegment) (page : Nat) : Kernel Unit := do
  stepPast page
  let frame ← frameFor mapTo pml4 page (segmentFlags seg)
  modify fun p => { p with
    mem := writeBytes p.mem (frame + (fileCopy elf seg page).1) (fileCopy elf seg page).2 }

/-- `map_elf_segment`. -/
def mapElfSegment (pml4 : Nat) (elf : List UInt8) (seg : ElfSegment) : Kernel Unit :=
  if seg.memsz = 0 then return ()
  else do
    let start ← virtAddr seg.vaddr
    let finish ← virtAddr ((seg.vaddr + seg.memsz) % 2 ^ 64)
    (pagesInclusive start finish).forM fun page => mapElfPage mapTo pml4 elf seg page

/-- `map_user_stack`. -/
def mapUserStack (pml4 : Nat) : Kernel Nat := do
  (pagesInclusive (USER_STACK_TOP - USER_STACK_SIZE) USER_STACK_TOP).forM fun page =>
    discard (mapErr "failed to map user stack page" (AddressSpace.mapUserPageAlloc mapTo pml4 page
      (PRESENT ||| WRITABLE ||| USER_ACCESSIBLE)))
  return USER_STACK_TOP

/-- `load_elf_into_new_space`: the space, the entry point and the stack top. -/
def loadElfIntoNewSpace (cr3 : Nat) (elf : List UInt8) : Kernel (Nat × Nat × Nat) := do
  match parseElfSegments elf with
  | .error e => throw e
  | .ok (entryPoint, segments) =>
    let pml4 ← AddressSpace.newUser cr3
    segments.forM fun seg => mapElfSegment mapTo pml4 elf seg
    let stackTop ← mapUserStack mapTo pml4
    return (pml4, entryPoint, stackTop)

end

end AeroOS.Memory
