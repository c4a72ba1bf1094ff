import AeroOS.Memory.Dealloc
import AeroOS.Memory.Fork
import AeroOS.Syscalls.Dispatch

/-!
# The arguments of a program

`sys_exec` collects the strings of `argv` from the memory of the caller and
writes them to the stack of the new program; `_start` and `aero_main` of
`sysutils` read them there.

* `argvStrs_eq`: the strings are collected as they were passed.
* `buildArgs_mod`: the stack pointer of the new program is one more than a
  multiple of eight, as the page of the stack is taken to start at its last byte.
* `buildArgs_mem`: the arguments are written to the frame behind the page of the
  stack.
* `not_roundTrips`: so no list of arguments is passed on as the program expects.
-/

namespace AeroOS.Syscalls

open AeroOS.Bytes AeroOS.Hoare AeroOS.Memory AeroOS.Paging
open AeroOS.Proc (ENOENT)

/-! ## Collecting the strings -/

/-- The loop over the bytes of a string, of which at most `room` are left. -/
def strLen (read : Nat → UInt8) (p : Nat) : (room l : Nat) → Nat
  | 0, l => l
  | room + 1, l => if read (p + l) = 0 then l else strLen read p room (l + 1)

/-- The loop over the pointers of `argv`. -/
def collectArgv (read : Nat → UInt8) (argv : Nat) : (room i total : Nat) → List (List UInt8)
  | 0, _, _ => []
  | room + 1, i, total =>
    let p := leNat (readBytes read (argv + 8 * i) 8)
    let l := strLen read p 64 0
    if p = 0 then []
    else if l = 0 then []
    else if total + l + 1 > 512 then []
    else readBytes read p l :: collectArgv read argv room (i + 1) (total + l + 1)

/-- The strings that `sys_exec` takes from `argv`. -/
def argvStrs (read : Nat → UInt8) (argv : Nat) : List (List UInt8) :=
  if argv = 0 then [] else collectArgv read argv 16 0 0

/-! ## The stack of the new program -/

/-- The start of the page below the top of the stack (`page_base_virt`). -/
def PAGE_BASE : Nat := Memory.USER_STACK_TOP - 4096

/-- The stack while the arguments are pushed: `sp` is an address in the kernel's
window on the physical memory. -/
structure ArgStack where
  sp : Nat
  ptrs : List Nat
  mem : Store

section Push

variable (window stackPage : Nat)

/-- A write of the kernel through its window. -/
def windowWrite (m : Store) (a : Nat) (bs : List UInt8) : Store := writeBytes m (a - window) bs

/-- Push a string and its terminator. -/
def pushString (arg : List UInt8) (s : ArgStack) : ArgStack :=
  let sp := s.sp - (arg.length + 1)
  { sp := sp
    ptrs := (PAGE_BASE + (sp - stackPage)) :: s.ptrs
    mem := windowWrite window (windowWrite window s.mem sp arg) (sp + arg.length) [0] }

/-- Push a `u64`. -/
def pushWord (v : Nat) (s : ArgStack) : ArgStack :=
  { s with sp := s.sp - 8, mem := windowWrite window s.mem (s.sp - 8) (leBytes 8 v) }

/-- The arguments on the stack: the new stack pointer of the user, and the
memory.  `stackPage` is the address that the source has for the start of the
page. -/
def buildArgs (args : List (List UInt8)) (m : Store) : Nat × Store :=
  let strings := args.foldr (pushString window stackPage) ⟨stackPage + 4096, [], m⟩
  let aligned := { strings with sp := strings.sp / 8 * 8 }
  let pointers := strings.ptrs.foldr (pushWord window) aligned
  let s := pushWord window args.length (pushWord window 0 pointers)
  (PAGE_BASE + (s.sp - stackPage), s.mem)

end Push

/-- `sys_exec` from the image on: the entry point, the stack pointer and the
space of the new program.  `read` is the memory of the caller, whose space is
`oldCr3`. -/
def execImage (mapTo : MapTo) (cr3 window : Nat) (read : Nat → UInt8) (argv oldCr3 : Nat)
    (elf : List UInt8) (p : Phys) : Except Int (Nat × Nat × Nat) × Phys :=
  match exec (loadElfIntoNewSpace mapTo cr3 elf) p with
  | (.error _, p) => (.error ENOENT, p)
  | (.ok (pml4, entryPoint, _), p) =>
    match AddressSpace.translate p.mem pml4 (Memory.USER_STACK_TOP - 1) with
    | none => (.error EFAULT, p)
    | some stackTop =>
      let r := buildArgs window (window + stackTop) (argvStrs read argv) p.mem
      let p := Phys.mk r.2 p.free
      (.ok (entryPoint, r.1, pml4),
        if oldCr3 = pml4 then p else AddressSpace.deallocProcSpace p oldCr3)

/-! ## What the program reads -/

section Start

variable (read : Nat → Option UInt8)

/-- A `u64` of the user's memory. -/
def readWord (a : Nat) : Option Nat := ((List.range 8).mapM fun i => read (a + i)).map leNat

/-- The loop of `aero_main` over the bytes of a string. -/
def userStrLen (p : Nat) : (room l : Nat) → Option Nat
  | 0, l => some l
  | room + 1, l => do
    let b ← read (p + l)
    if b = 0 then some l else userStrLen p room (l + 1)

/-- The loop of `aero_main` over `argv`. -/
def mainArgs (argc argv : Nat) : (room i : Nat) → Option (List (List UInt8))
  | 0, _ => some []
  | room + 1, i =>
    if i < argc then do
      let p ← readWord read (argv + 8 * i)
      if p = 0 then some []
      else
        let l ← userStrLen read p 256 0
        let arg ← (List.range l).mapM fun k => read (p + k)
        let rest ← mainArgs argc argv room (i + 1)
        some (arg :: rest)
    else some []

/-- The arguments that `_start` and `aero_main` find from the stack pointer on. -/
def startArgs (rsp : Nat) : Option (List (List UInt8)) := do
  let argc ← readWord read rsp
  mainArgs read argc (rsp + 8) 16 0

/-- The program finds the arguments, and its stack pointer is aligned. -/
structure RoundTrips (rsp : Nat) (args : List (List UInt8)) : Prop where
  args : startArgs read rsp = some args
  aligned : rsp % 8 = 0

end Start

/-! ## What is collected -/

section Collect

variable {read : Nat → UInt8} {argv p l room k i total : Nat} {args : List (List UInt8)}

theorem strLen_eq (hk : k ≤ room) (hbytes : ∀ j < k, read (p + (l + j)) ≠ 0)
    (hend : k = room ∨ read (p + (l + k)) = 0) : strLen read p room l = l + k := by
  induction room generalizing l k with
  | zero =>
    obtain rfl := Nat.le_zero.1 hk
    rfl
  | succ room ih =>
    rw [strLen]
    cases k with
    | zero =>
      have h0 : read (p + l) = 0 := hend.resolve_left (Nat.succ_ne_zero room).symm
      rw [if_pos h0]
      rfl
    | succ k =>
      have h0 : read (p + l) ≠ 0 := hbytes 0 (Nat.succ_pos k)
      have hnext : ∀ j < k, read (p + (l + 1 + j)) ≠ 0 := fun j hj => by
        rw [show l + 1 + j = l + (j + 1) by omega]
        exact hbytes (j + 1) (Nat.succ_lt_succ hj)
      have hstop : k = room ∨ read (p + (l + 1 + k)) = 0 := by
        rw [show l + 1 + k = l + (k + 1) by omega]
        exact hend.imp_left Nat.succ.inj
      rw [if_neg h0, ih (Nat.le_of_succ_le_succ hk) hnext hstop]
      omega

/-- What a string costs on the stack. -/
def cost (args : List (List UInt8)) : Nat := (args.map fun arg => arg.length + 1).sum

@[simp] theorem cost_nil : cost [] = 0 := rfl

@[simp] theorem cost_cons (arg : List UInt8) (args : List (List UInt8)) :
    cost (arg :: args) = arg.length + 1 + cost args := rfl

/-- At most `room` strings are collected, which fit in 512 bytes. -/
theorem collectArgv_le (htotal : total ≤ 512) :
    (collectArgv read argv room i total).length ≤ room ∧
      total + cost (collectArgv read argv room i total) ≤ 512 := by
  induction room generalizing i total with
  | zero => exact ⟨Nat.le_refl 0, htotal⟩
  | succ room ih =>
    rw [collectArgv]
    split_ifs with hp hl hfull
    · exact ⟨Nat.zero_le _, htotal⟩
    · exact ⟨Nat.zero_le _, htotal⟩
    · exact ⟨Nat.zero_le _, htotal⟩
    · obtain ⟨h1, h2⟩ := @ih (i + 1) _ (Nat.not_lt.1 hfull)
      rw [List.length_cons, cost_cons, readBytes_length]
      omega

theorem argvStrs_le (read : Nat → UInt8) (argv : Nat) :
    (argvStrs read argv).length ≤ 16 ∧ cost (argvStrs read argv) ≤ 512 := by
  unfold argvStrs
  split
  · decide
  · have h := @collectArgv_le read argv 16 0 0 (by decide)
    omega

/-- The string is at the address of its pointer. -/
structure StringAt (read : Nat → UInt8) (argv i : Nat) (arg : List UInt8) : Prop where
  nonempty : arg ≠ []
  no_nul : 0 ∉ arg
  short : arg.length ≤ 64
  pointer : leNat (readBytes read (argv + 8 * i) 8) ≠ 0
  bytes : readBytes read (leNat (readBytes read (argv + 8 * i) 8)) arg.length = arg
  terminator : read (leNat (readBytes read (argv + 8 * i) 8) + arg.length) = 0

/-- The arguments are passed as an array of pointers that ends with a null
pointer. -/
structure Passes (read : Nat → UInt8) (argv : Nat) (args : List (List UInt8)) : Prop where
  notNull : argv ≠ 0
  count : args.length ≤ 16
  total : cost args ≤ 512
  strings : ∀ i arg, args[i]? = some arg → StringAt read argv i arg
  null : leNat (readBytes read (argv + 8 * args.length) 8) = 0

theorem StringAt.strLen {arg : List UInt8} (h : StringAt read argv i arg) :
    strLen read (leNat (readBytes read (argv + 8 * i) 8)) 64 0 = arg.length := by
  generalize hp : leNat (readBytes read (argv + 8 * i) 8) = p
  have hbytes := h.bytes
  have hend := h.terminator
  rw [hp] at hbytes hend
  refine (strLen_eq h.short (fun j hj => ?_) (Or.inr ?_)).trans (Nat.zero_add _)
  · rw [Nat.zero_add]
    have hget := readBytes_getElem? read p hj
    rw [hbytes] at hget
    exact fun h0 => h.no_nul (h0 ▸ List.mem_of_getElem? hget)
  · rwa [Nat.zero_add]

theorem collectArgv_eq (hroom : args.length ≤ room) (htotal : total + cost args ≤ 512)
    (hstrings : ∀ j arg, args[j]? = some arg → StringAt read argv (i + j) arg)
    (hnull : leNat (readBytes read (argv + 8 * (i + args.length)) 8) = 0) :
    collectArgv read argv room i total = args := by
  induction args generalizing room i total with
  | nil =>
    cases room with
    | zero => rfl
    | succ room =>
      rw [collectArgv]
      exact if_pos hnull
  | cons arg args ih =>
    obtain ⟨room, rfl⟩ : ∃ r, room = r + 1 := Nat.exists_eq_succ_of_ne_zero
      (Nat.ne_of_gt (Nat.lt_of_lt_of_le (Nat.succ_pos _) hroom))
    have harg : StringAt read argv i arg := hstrings 0 arg rfl
    rw [cost_cons] at htotal
    rw [collectArgv, harg.strLen, if_neg harg.pointer,
      if_neg (List.length_pos_iff.2 harg.nonempty).ne', if_neg (by omega), harg.bytes]
    refine congrArg _ (ih (Nat.le_of_succ_le_succ hroom) (by omega) (fun j a hj => ?_) ?_)
    · rw [show i + 1 + j = i + (j + 1) by omega]
      exact hstrings (j + 1) a hj
    · rwa [show i + 1 + args.length = i + (arg :: args).length by
        rw [List.length_cons]; omega]

/-- What is collected is what was passed. -/
theorem argvStrs_eq (h : Passes read argv args) : argvStrs read argv = args := by
  rw [argvStrs, if_neg h.notNull]
  refine collectArgv_eq h.count (by have := h.total; omega) (fun j arg hj => ?_) ?_
  · rw [Nat.zero_add]
    exact h.strings j arg hj
  · rw [Nat.zero_add]
    exact h.null

end Collect

/-! ## Where the stack pointer ends up -/

section Layout

variable {window stackPage : Nat} {args : List (List UInt8)}

/-- The strings take their bytes off the stack pointer, with a pointer each. -/
theorem pushStrings_eq (s : ArgStack) :
    (args.foldr (pushString window stackPage) s).sp = s.sp - cost args ∧
      (args.foldr (pushString window stackPage) s).ptrs.length = args.length + s.ptrs.length := by
  induction args with
  | nil => exact ⟨rfl, (Nat.zero_add _).symm⟩
  | cons arg args ih =>
    obtain ⟨h1, h2⟩ := ih
    simp only [List.foldr_cons, pushString, List.length_cons, cost_cons]
    omega

theorem pushWords_sp (ptrs : List Nat) (s : ArgStack) :
    (ptrs.foldr (pushWord window) s).sp = s.sp - 8 * ptrs.length := by
  induction ptrs with
  | nil => rfl
  | cons ptr ptrs ih =>
    rw [List.foldr_cons, pushWord, List.length_cons]
    dsimp only
    omega

/-- The new stack pointer, when the arguments fit in the page. -/
theorem buildArgs_rsp (m : Store) : (buildArgs window stackPage args m).1 =
    PAGE_BASE + ((stackPage + 4096 - cost args) / 8 * 8 - 8 * args.length - 8 - 8 - stackPage) := by
  obtain ⟨hsp, hlen⟩ := @pushStrings_eq window stackPage args ⟨stackPage + 4096, [], m⟩
  simp only [buildArgs, pushWord, pushWords_sp, hsp, hlen, List.length_nil, Nat.add_zero]

/-- An address keeps its offset in the page. -/
theorem translate_mod {m : Store} {pml4 v a : Nat} (h : AddressSpace.translate m pml4 v = some a) :
    a % 4096 = v % 4096 := by
  have hframe : ∀ e k, addr e % 4096 = 0 → (addr e + v % (4096 * 2 ^ k)) % 4096 = v % 4096 := by
    intro e k he
    rw [Nat.add_mod, he, Nat.zero_add, Nat.mod_mod, Nat.mod_mul_right_mod]
  have h12 : v &&& 0xfff = v % (4096 * 2 ^ 0) := Nat.and_two_pow_sub_one_eq_mod v 12
  have h21 : v &&& 0x1fffff = v % (4096 * 2 ^ 9) := Nat.and_two_pow_sub_one_eq_mod v 21
  have h30 : v &&& 0x3fffffff = v % (4096 * 2 ^ 18) := Nat.and_two_pow_sub_one_eq_mod v 30
  simp only [AddressSpace.translate, h12, h21, h30] at h
  split_ifs at h
  · cases h
    exact hframe _ 18 (isFrame_addr _).mod
  · cases h
    exact hframe _ 9 (isFrame_addr _).mod
  · cases h
    exact hframe _ 0 (isFrame_addr _).mod

/-- The stack pointer of a new program is never aligned: the top byte of the
stack is taken for the start of its page. -/
theorem buildArgs_mod {stackTop : Nat} (hwindow : window % 4096 = 0)
    (htop : stackTop % 4096 = 0xfff) (hcount : args.length ≤ 16) (hcost : cost args ≤ 512)
    (m : Store) : (buildArgs window (window + stackTop) args m).1 % 8 = 1 := by
  have hbase : PAGE_BASE % 8 = 0 := by decide
  rw [buildArgs_rsp]
  omega

/-- A write of the kernel leaves the bytes before and behind it alone. -/
theorem windowWrite_out (m : Store) {a x : Nat} {bs : List UInt8} (ha : window ≤ a)
    (hx : window + x < a ∨ a + bs.length ≤ window + x) : windowWrite window m a bs x = m x :=
  writeBytes_out m (by omega)

/-- The strings are written below the stack pointer, one after the other. -/
theorem pushStrings_mem {s : ArgStack} (hroom : window + cost args ≤ s.sp) {x : Nat}
    (hx : window + x < s.sp - cost args ∨ s.sp ≤ window + x) :
    (args.foldr (pushString window stackPage) s).mem x = s.mem x := by
  induction args with
  | nil => rfl
  | cons arg args ih =>
    rw [cost_cons] at hroom hx
    obtain ⟨hsp, -⟩ := @pushStrings_eq window stackPage args s
    rw [List.foldr_cons, pushString]
    generalize args.foldr (pushString window stackPage) s = q at hsp ih ⊢
    dsimp only
    rw [windowWrite_out _ (by omega) (by simp only [List.length_singleton]; omega),
      windowWrite_out _ (by omega) (by omega)]
    exact ih (by omega) (by omega)

/-- The pointers too. -/
theorem pushWords_mem {ptrs : List Nat} {s : ArgStack} (hroom : window + 8 * ptrs.length ≤ s.sp)
    {x : Nat} (hx : window + x < s.sp - 8 * ptrs.length ∨ s.sp ≤ window + x) :
    (ptrs.foldr (pushWord window) s).mem x = s.mem x := by
  induction ptrs with
  | nil => rfl
  | cons ptr ptrs ih =>
    rw [List.length_cons] at hroom hx
    have hsp := @pushWords_sp window ptrs s
    rw [List.foldr_cons, pushWord]
    generalize ptrs.foldr (pushWord window) s = q at hsp ih ⊢
    dsimp only
    rw [windowWrite_out _ (by omega) (by rw [leBytes_length]; omega)]
    exact ih (by omega) (by omega)

/-- The arguments are written to the frame behind the page of the stack. -/
theorem buildArgs_mem {stackTop : Nat} (htop : stackTop % 4096 = 0xfff) (hcount : args.length ≤ 16)
    (hcost : cost args ≤ 512) (m : Store) {x : Nat} (hx : ¬ InFrame (stackTop + 1) x) :
    (buildArgs window (window + stackTop) args m).2 x = m x := by
  unfold InFrame at hx
  obtain ⟨hsp, hlen⟩ :=
    @pushStrings_eq window (window + stackTop) args ⟨window + stackTop + 4096, [], m⟩
  have hmem := @pushStrings_mem window (window + stackTop) args ⟨window + stackTop + 4096, [], m⟩
    (by dsimp only; omega) x (by dsimp only; omega)
  simp only [buildArgs]
  generalize args.foldr (pushString window (window + stackTop))
    ⟨window + stackTop + 4096, [], m⟩ = s at hsp hlen hmem ⊢
  simp only [List.length_nil, Nat.add_zero] at hsp hlen
  have hspw := @pushWords_sp window s.ptrs { s with sp := s.sp / 8 * 8 }
  have hmemw := @pushWords_mem window s.ptrs { s with sp := s.sp / 8 * 8 }
    (by dsimp only; omega) x (by dsimp only; omega)
  generalize s.ptrs.foldr (pushWord window) { s with sp := s.sp / 8 * 8 } = q at hspw hmemw ⊢
  dsimp only at hspw hmemw
  simp only [pushWord]
  rw [windowWrite_out _ (by omega) (by rw [leBytes_length]; omega),
    windowWrite_out _ (by omega) (by rw [leBytes_length]; omega), hmemw, hmem]

end Layout

/-! ## The round trip -/

variable {mapTo : MapTo} {cr3 window argv oldCr3 entryPoint rsp pml4 : Nat} {read : Nat → UInt8}
  {elf : List UInt8} {p0 p : Phys} {args : List (List UInt8)}

theorem execImage_rsp (hwindow : window % 4096 = 0)
    (hok : execImage mapTo cr3 window read argv oldCr3 elf p0 = (.ok (entryPoint, rsp, pml4), p)) :
    rsp % 8 = 1 := by
  unfold execImage at hok
  split at hok
  · cases hok
  · split at hok
    · cases hok
    · rename_i stackTop htr
      have htop := translate_mod htr
      obtain ⟨hcount, hcost⟩ := argvStrs_le read argv
      have hmod := buildArgs_mod hwindow (htop.trans (by decide)) hcount hcost
      cases hok
      exact hmod _

/-- No program finds the arguments that it is passed, with an aligned stack
pointer, although the strings are collected as they are. -/
theorem not_roundTrips (hwindow : window % 4096 = 0) (hpass : Passes read argv args)
    (hok : execImage mapTo cr3 window read argv oldCr3 elf p0 = (.ok (entryPoint, rsp, pml4), p)) :
    argvStrs read argv = args ∧ rsp % 8 = 1 ∧ ¬ RoundTrips (userByte p.mem pml4) rsp args := by
  have hrsp := execImage_rsp hwindow hok
  refine ⟨argvStrs_eq hpass, hrsp, fun h => ?_⟩
  have haligned := h.aligned
  omega

/-- The memory of a caller that passes the string `a`: the array of pointers is
at 0x1000. -/
def callerMem (n : Nat) : UInt8 := if n = 0x1001 then 0x20 else if n = 0x2000 then 0x61 else 0

theorem callerMem_passes : Passes callerMem 0x1000 [[0x61]] where
  notNull := by decide
  count := by decide
  total := by decide
  strings := fun i arg hi => by
    cases i with
    | zero =>
      cases hi
      exact ⟨by decide, by decide, by decide, by decide, by decide, by decide⟩
    | succ i => cases hi
  null := by decide

theorem callerMem_exec : execImage walkTo 0 0 callerMem 0x1000 0 (elfFile 0 [] []) freeFrames =
    (.ok (0, 0x7ffeffffffe1, 0x1000),
      (execImage walkTo 0 0 callerMem 0x1000 0 (elfFile 0 [] []) freeFrames).2) :=
  Prod.ext (by decide +kernel) rfl

/-- The program with the argument `a` finds none. -/
theorem not_roundTrips_one : ∃ p,
    execImage walkTo 0 0 callerMem 0x1000 0 (elfFile 0 [] []) freeFrames =
      (.ok (0, 0x7ffeffffffe1, 0x1000), p) ∧
    Passes callerMem 0x1000 [[0x61]] ∧
    ¬ RoundTrips (userByte p.mem 0x1000) 0x7ffeffffffe1 [[0x61]] := by
  have hstart : startArgs (userByte (execImage walkTo 0 0 callerMem 0x1000 0 (elfFile 0 [] [])
      freeFrames).2.mem 0x1000) 0x7ffeffffffe1 = some [] := by decide +kernel
  refine ⟨_, callerMem_exec, callerMem_passes, fun h => ?_⟩
  have hargs := h.args
  rw [hstart] at hargs
  exact absurd hargs (by decide)

/-- Its stack pointer is not aligned either. -/
theorem not_roundTrips_misaligned : ∃ p,
    execImage walkTo 0 0 callerMem 0x1000 0 (elfFile 0 [] []) freeFrames =
      (.ok (0, 0x7ffeffffffe1, 0x1000), p) ∧
    ¬ RoundTrips (userByte p.mem 0x1000) 0x7ffeffffffe1 [[0x61]] :=
  ⟨_, callerMem_exec, (not_roundTrips (by decide) callerMem_passes callerMem_exec).2.2⟩

end AeroOS.Syscalls
