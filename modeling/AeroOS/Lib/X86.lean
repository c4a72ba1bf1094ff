import Mathlib.Algebra.GroupWithZero.Nat
import Mathlib.Data.List.Nodup
import Mathlib.Logic.Function.Basic
import Mathlib.Tactic.Common

/-!
# A fragment of x86-64

Byte memory with 64-bit loads and stores, the register file, and the few
instructions that entry stubs and context switches are made of.

* loads and stores: `read64_write64`, `read64_write64_of_apart`;
* runs of words: `writeDown` is what a row of pushes leaves below the stack
  pointer, `readUp` what a row of pops takes from above it
  (`readUp_writeDown`, `readUp_congr`);
* rows of instructions: `run_pushes`, `run_pops`, `map_assign`.
-/

namespace X86

/-- A 64-bit word. -/
abbrev Word := BitVec 64

/-- A byte for each address. -/
abbrev Memory := Word → BitVec 8

/-! ## Loads and stores -/

/-- The little-endian word at `a`. -/
def read64 (m : Memory) (a : Word) : Word :=
  m (a + 7#64) ++ m (a + 6#64) ++ m (a + 5#64) ++ m (a + 4#64) ++
    m (a + 3#64) ++ m (a + 2#64) ++ m (a + 1#64) ++ m a

/-- The memory after a store of the word `v` at `a`. -/
def write64 (m : Memory) (a v : Word) : Memory := fun x =>
  if (x - a).toNat < 8 then v.extractLsb' (8 * (x - a).toNat) 8 else m x

/-- The `n` bytes from `a` and the `k` bytes from `b` have no byte in common. -/
def Apart (a : Word) (n : Nat) (b : Word) (k : Nat) : Prop :=
  n ≤ (b - a).toNat ∧ k ≤ (a - b).toNat

instance (a : Word) (n : Nat) (b : Word) (k : Nat) : Decidable (Apart a n b k) :=
  inferInstanceAs (Decidable (_ ∧ _))

theorem Apart.symm {a b : Word} {n k : Nat} (h : Apart a n b k) : Apart b k a n :=
  ⟨h.2, h.1⟩

/-- A byte of the one is outside the other. -/
theorem Apart.outside {a b x : Word} {n k : Nat} (h : Apart a n b k) (hx : (x - b).toNat < k) :
    n ≤ (x - a).toNat := by
  obtain ⟨h1, h2⟩ := h
  bv_omega

/-- A load reads only the eight bytes at its address. -/
theorem read64_congr {m m' : Memory} {a : Word}
    (h : ∀ x, (x - a).toNat < 8 → m' x = m x) : read64 m' a = read64 m a := by
  unfold read64
  rw [h (a + 7#64) (by bv_omega), h (a + 6#64) (by bv_omega), h (a + 5#64) (by bv_omega),
    h (a + 4#64) (by bv_omega), h (a + 3#64) (by bv_omega), h (a + 2#64) (by bv_omega),
    h (a + 1#64) (by bv_omega), h a (by bv_omega)]

theorem write64_byte (m : Memory) (a v : Word) {i : Nat} (hi : i < 8) :
    write64 m a v (a + BitVec.ofNat 64 i) = v.extractLsb' (8 * i) 8 := by
  have h : (a + BitVec.ofNat 64 i - a).toNat = i := by bv_omega
  rw [write64, if_pos (by omega), h]

/-- A load gives back what was stored. -/
@[simp] theorem read64_write64 (m : Memory) (a v : Word) : read64 (write64 m a v) a = v := by
  have byte (i : Nat) (hi : i < 8) := write64_byte m a v hi
  have h0 : write64 m a v a = v.extractLsb' 0 8 := by simpa using byte 0 (by decide)
  unfold read64
  rw [byte 7 (by decide), byte 6 (by decide), byte 5 (by decide), byte 4 (by decide),
    byte 3 (by decide), byte 2 (by decide), byte 1 (by decide), h0]
  ext i hi
  simp only [BitVec.getElem_append, BitVec.getElem_extractLsb']
  grind

theorem write64_of_outside {m : Memory} {a v x : Word} (h : 8 ≤ (x - a).toNat) :
    write64 m a v x = m x :=
  if_neg (by omega)

/-- A load is not changed by a store elsewhere. -/
theorem read64_write64_of_apart {m : Memory} {a b : Word} (v : Word) (h : Apart a 8 b 8) :
    read64 (write64 m a v) b = read64 m b :=
  read64_congr fun _ hx => write64_of_outside (h.outside hx)

/-! ## Rows of words -/

/-- The memory after the words are pushed one after another below `sp`. -/
def writeDown (m : Memory) (sp : Word) : List Word → Memory
  | [] => m
  | w :: ws => writeDown (write64 m (sp - 8#64) w) (sp - 8#64) ws

/-- The `n` words from `sp` upwards. -/
def readUp (m : Memory) (sp : Word) : Nat → List Word
  | 0 => []
  | n + 1 => read64 m sp :: readUp m (sp + 8#64) n

/-- The address `n` words above `sp`. -/
def above (sp : Word) (n : Nat) : Word := sp + BitVec.ofNat 64 (8 * n)

/-- The address `n` words below `sp`. -/
def below (sp : Word) (n : Nat) : Word := sp - BitVec.ofNat 64 (8 * n)

@[simp] theorem above_zero (sp : Word) : above sp 0 = sp := by
  unfold above
  bv_omega

@[simp] theorem below_zero (sp : Word) : below sp 0 = sp := by
  unfold below
  bv_omega

theorem above_succ (sp : Word) (n : Nat) : above (sp + 8#64) n = above sp (n + 1) := by
  unfold above
  bv_omega

theorem below_succ (sp : Word) (n : Nat) : below (sp - 8#64) n = below sp (n + 1) := by
  unfold below
  bv_omega

theorem above_add (sp : Word) (n : Nat) : above sp n + 8#64 = above sp (n + 1) := by
  unfold above
  bv_omega

theorem below_sub (sp : Word) (n : Nat) : below sp n - 8#64 = below sp (n + 1) := by
  unfold below
  bv_omega

theorem above_below {n k : Nat} (sp : Word) (h : k ≤ n) :
    above (below sp n) k = below sp (n - k) := by
  unfold above below
  bv_omega

theorem above_above (sp : Word) (n k : Nat) : above (above sp n) k = above sp (n + k) := by
  unfold above
  bv_omega

theorem below_below (sp : Word) (n k : Nat) : below (below sp n) k = below sp (n + k) := by
  unfold below
  bv_omega

theorem writeDown_append (m : Memory) (sp : Word) (ws vs : List Word) :
    writeDown m sp (ws ++ vs) = writeDown (writeDown m sp ws) (below sp ws.length) vs := by
  induction ws generalizing m sp with
  | nil => simp [writeDown]
  | cons w ws ih => rw [List.cons_append, writeDown, ih, writeDown, below_succ, List.length_cons]

theorem readUp_append (m : Memory) (sp : Word) (n k : Nat) :
    readUp m sp (n + k) = readUp m sp n ++ readUp m (above sp n) k := by
  induction n generalizing sp with
  | zero => simp [readUp]
  | succ n ih => rw [Nat.succ_add, readUp, ih, readUp, above_succ, List.cons_append]

@[simp] theorem length_readUp (m : Memory) (sp : Word) (n : Nat) : (readUp m sp n).length = n := by
  induction n generalizing sp with
  | zero => rfl
  | succ n ih => rw [readUp, List.length_cons, ih]

/-- The words read depend only on the bytes they cover. -/
theorem readUp_congr {m m' : Memory} {sp : Word} {n : Nat} (hn : 8 * n ≤ 2 ^ 64)
    (h : ∀ x, (x - sp).toNat < 8 * n → m' x = m x) : readUp m' sp n = readUp m sp n := by
  induction n generalizing sp with
  | zero => rfl
  | succ n ih =>
    rw [readUp, readUp, read64_congr fun x hx => h x (by omega),
      ih (by omega) fun x hx => h x (by bv_omega)]

/-- Pushes change only the bytes below the stack pointer that they cover. -/
theorem writeDown_of_outside {m : Memory} {sp x : Word} {ws : List Word}
    (hn : 8 * ws.length ≤ 2 ^ 64) (h : 8 * ws.length ≤ (x - below sp ws.length).toNat) :
    writeDown m sp ws x = m x := by
  induction ws generalizing m sp with
  | nil => rfl
  | cons w ws ih =>
    rw [List.length_cons] at hn h
    rw [writeDown, ih (by omega) (by rw [below_succ]; omega)]
    exact write64_of_outside (by unfold below at h; bv_omega)

/-- Reading upwards what was pushed gives the words in the reverse order. -/
theorem readUp_writeDown (m : Memory) (sp : Word) {ws : List Word}
    (hn : 8 * ws.length ≤ 2 ^ 64) :
    readUp (writeDown m sp ws) (below sp ws.length) ws.length = ws.reverse := by
  induction ws generalizing m sp with
  | nil => rfl
  | cons w ws ih =>
    rw [List.length_cons] at hn
    have hlast : read64 (writeDown (write64 m (sp - 8#64) w) (sp - 8#64) ws) (sp - 8#64) = w := by
      rw [read64_congr fun x hx => writeDown_of_outside (by omega)
        (by unfold below; bv_omega), read64_write64]
    have haddr : above (below (sp - 8#64) ws.length) ws.length = sp - 8#64 := by
      rw [above_below _ (Nat.le_refl _), Nat.sub_self, below_zero]
    rw [writeDown, List.length_cons, ← below_succ, readUp_append, ih _ _ (by omega), haddr, readUp,
      readUp, hlast, List.reverse_cons]

/-- Words pushed earlier are read back past the ones pushed later. -/
theorem readUp_writeDown_append (m : Memory) (sp : Word) {ws vs : List Word}
    (hn : 8 * (ws ++ vs).length ≤ 2 ^ 64) :
    readUp (writeDown m sp (ws ++ vs)) (below sp ws.length) ws.length = ws.reverse := by
  have hall := readUp_writeDown m sp hn
  rw [List.length_append, Nat.add_comm ws.length, readUp_append,
    above_below _ (Nat.le_add_right _ _), Nat.add_sub_cancel_left, List.reverse_append] at hall
  exact (List.append_inj hall (by simp)).2

/-! ## Instructions -/

/-- The general registers without the stack pointer. -/
inductive Gpr where
  | rax | rbx | rcx | rdx | rsi | rdi | rbp | r8 | r9 | r10 | r11 | r12 | r13 | r14 | r15
  deriving DecidableEq, Repr

/-- The registers and the memory, as the running code sees it. -/
structure State where
  gpr : Gpr → Word
  rip : Word
  cs : Word
  rflags : Word
  rsp : Word
  ss : Word
  cr3 : Word
  mem : Memory

/-- The instructions of an entry stub.  An address that an instruction needs
(the call's own return address) is an operand. -/
inductive Instr where
  | push (r : Gpr)
  | pop (r : Gpr)
  | mov (d s : Gpr)
  /-- `mov d, rsp`. -/
  | getSp (d : Gpr)
  /-- `mov rsp, s`. -/
  | setSp (s : Gpr)
  /-- `mov [a], rsp`. -/
  | storeSp (a : Gpr)
  /-- `test s, s; jz 1f; mov cr3, s; 1:`, without the flags. -/
  | setCr3NonZero (s : Gpr)
  | call (after target : Word)
  | ret
  | iretq

/-- One instruction.  `rip` is written by the transfers of control only: a row of
instructions is run from its first to its last. -/
def exec (i : Instr) (s : State) : State :=
  match i with
  | .push r => { s with mem := write64 s.mem (s.rsp - 8#64) (s.gpr r), rsp := s.rsp - 8#64 }
  | .pop r => { s with gpr := Function.update s.gpr r (read64 s.mem s.rsp), rsp := s.rsp + 8#64 }
  | .mov d r => { s with gpr := Function.update s.gpr d (s.gpr r) }
  | .getSp d => { s with gpr := Function.update s.gpr d s.rsp }
  | .setSp r => { s with rsp := s.gpr r }
  | .storeSp a => { s with mem := write64 s.mem (s.gpr a) s.rsp }
  | .setCr3NonZero r => { s with cr3 := if s.gpr r = 0 then s.cr3 else s.gpr r }
  | .call after target =>
    { s with mem := write64 s.mem (s.rsp - 8#64) after, rsp := s.rsp - 8#64, rip := target }
  | .ret => { s with rip := read64 s.mem s.rsp, rsp := s.rsp + 8#64 }
  | .iretq =>
    { s with
      rip := read64 s.mem s.rsp
      cs := read64 s.mem (s.rsp + 8#64)
      rflags := read64 s.mem (s.rsp + 16#64)
      rsp := read64 s.mem (s.rsp + 24#64)
      ss := read64 s.mem (s.rsp + 32#64) }

/-- A row of instructions. -/
def run : List Instr → State → State
  | [], s => s
  | i :: is, s => run is (exec i s)

theorem run_append (is js : List Instr) (s : State) : run (is ++ js) s = run js (run is s) := by
  induction is generalizing s with
  | nil => rfl
  | cons i is ih => exact ih (exec i s)

/-- The registers after the words are assigned one after another. -/
def assign (g : Gpr → Word) : List Gpr → List Word → Gpr → Word
  | r :: rs, w :: ws => assign (Function.update g r w) rs ws
  | _, _ => g

/-- Pushes change only the memory and the stack pointer. -/
theorem run_pushes (rs : List Gpr) (s : State) :
    run (rs.map .push) s =
      { s with mem := writeDown s.mem s.rsp (rs.map s.gpr), rsp := below s.rsp rs.length } := by
  induction rs generalizing s with
  | nil => simp [run, writeDown]
  | cons r rs ih => rw [List.map_cons, run, ih, exec, below_succ]; rfl

/-- Pops change only the registers named and the stack pointer. -/
theorem run_pops (rs : List Gpr) (s : State) :
    run (rs.map .pop) s =
      { s with
        gpr := assign s.gpr rs (readUp s.mem s.rsp rs.length)
        rsp := above s.rsp rs.length } := by
  induction rs generalizing s with
  | nil => simp [run, assign]
  | cons r rs ih => rw [List.map_cons, run, ih, exec, above_succ]; rfl

theorem assign_of_notMem {g : Gpr → Word} {rs : List Gpr} {r : Gpr} (h : r ∉ rs) (ws : List Word) :
    assign g rs ws r = g r := by
  induction rs generalizing g ws with
  | nil => rfl
  | cons q rs ih =>
    cases ws with
    | nil => rfl
    | cons w ws =>
      have hne : r ≠ q := by
        rintro rfl
        exact h List.mem_cons_self
      rw [assign, ih (fun hm => h (List.mem_cons_of_mem _ hm)), Function.update_of_ne hne]

/-- Registers assigned one after another hold the words assigned. -/
theorem map_assign {g : Gpr → Word} {rs : List Gpr} {ws : List Word} (hnd : rs.Nodup)
    (hlen : ws.length = rs.length) : rs.map (assign g rs ws) = ws := by
  induction rs generalizing g ws with
  | nil => rw [List.map_nil, List.eq_nil_of_length_eq_zero hlen]
  | cons r rs ih =>
    rw [List.nodup_cons] at hnd
    cases ws with
    | nil => cases hlen
    | cons w ws =>
      rw [List.map_cons, assign, assign_of_notMem hnd.1, Function.update_self,
        ih hnd.2 (Nat.succ.inj hlen)]

/-! ## Interrupts -/

/-- An interrupt gate: the handler's address and code segment. -/
structure Gate where
  handler : Word
  cs : Word

/-- The flags that delivery through an interrupt gate clears: TF, IF, NT, RF. -/
def gateFlags : Word := 0x14300#64

/-- The interrupted program's words, in the order of the pushes. -/
def frame (s : State) : List Word := [s.ss, s.rsp, s.rflags, s.cs, s.rip]

/-- Delivery from user mode: the stack of the task state segment, aligned down
to 16 bytes, gets the five words of the interrupted program. -/
def interrupt (g : Gate) (stack : Word) (s : State) : State :=
  let aligned := stack &&& ~~~15#64
  { s with
    mem := writeDown s.mem aligned (frame s)
    rsp := below aligned 5
    rip := g.handler
    cs := g.cs
    ss := 0
    rflags := s.rflags &&& ~~~gateFlags }

end X86
