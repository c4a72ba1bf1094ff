import AeroOS.Lib.Assign
import AeroOS.Lib.Bytes
import Mathlib.Data.List.GetD

/-!
# The memory functions

The compiler calls `memcpy`, `memmove`, `memset` and `memcmp` for copies, moves, fills and
comparisons of blocks.  `kernel/src/mem.rs` has them for the kernel, `sysutils/src/main.rs` for
the commands.  An address is a number below `2 ^ 64`, and `add` wraps around.

* `Copies`: the bytes of the source, as they were, are at the destination, and nothing else
  has changed.
* `copies_of_order`: a loop over the bytes copies, in an order in which no byte is read after
  it was overwritten.
* `memmove_copies`: `memmove` has such an order for all ranges.  `memcpy_repeats` is what `memcpy`
  does with a destination above the source, and `memcpy_copies_iff` when it copies.
* `memset_eq`, `memcmp_eq_zero_iff` and `memcmp_lt_zero_iff`: fills and comparisons.
-/

namespace AeroOS.Mem

open Bytes

/-! ## The kernel -/

/-- `p.add(i)` of a pointer to bytes. -/
def add (p i : Nat) : Nat := (p + i) % 2 ^ 64

/-- `*dest.add(i) = *src.add(i)`. -/
def copyByte (dest src : Nat) (m : Store) (i : Nat) : Store :=
  Function.update m (add dest i) (m (add src i))

/-- `*s.add(i) = byte`. -/
def setByte (s : Nat) (byte : UInt8) (m : Store) (i : Nat) : Store :=
  Function.update m (add s i) byte

/-- `memcpy`: the returned pointer and the memory after the call. -/
def memcpy (dest src n : Nat) (m : Store) : Nat × Store :=
  (dest, (List.range n).foldl (copyByte dest src) m)

/-- `memmove`. -/
def memmove (dest src n : Nat) (m : Store) : Nat × Store :=
  if dest < src then (dest, (List.range n).foldl (copyByte dest src) m)
  else (dest, (List.range n).reverse.foldl (copyByte dest src) m)

/-- `memset`. -/
def memset (s : Nat) (c : Int32) (n : Nat) (m : Store) : Nat × Store :=
  (s, (List.range n).foldl (setByte s c.toUInt32.toUInt8) m)

/-- `if a != b { return (a as c_int) - (b as c_int); }` for the two bytes at `i`. -/
def compareByte (s1 s2 : Nat) (m : Store) (i : Nat) : Option Int :=
  let a := m (add s1 i)
  let b := m (add s2 i)
  if a ≠ b then some ((a.toNat : Int) - b.toNat) else none

/-- `memcmp`. -/
def memcmp (s1 s2 n : Nat) (m : Store) : Int :=
  ((List.range n).findSome? (compareByte s1 s2 m)).getD 0

/-! ## The commands -/

namespace Shims

variable {σ : Type*}

/-- `while i < n { body; i += 1; }`. -/
def whileBelow (body : σ → Nat → σ) (n i : Nat) (s : σ) : σ :=
  if i < n then whileBelow body n (i + 1) (body s i) else s
termination_by n - i

/-- `while i > 0 { i -= 1; body; }`. -/
def whileAbove (body : σ → Nat → σ) : Nat → σ → σ
  | 0, s => s
  | i + 1, s => whileAbove body i (body s i)

/-- `memcpy`. -/
def memcpy (dst src n : Nat) (m : Store) : Nat × Store :=
  (dst, whileBelow (copyByte dst src) n 0 m)

/-- `memmove`. -/
def memmove (dst src n : Nat) (m : Store) : Nat × Store :=
  if dst < src then (dst, whileBelow (copyByte dst src) n 0 m)
  else (dst, whileAbove (copyByte dst src) n m)

/-- `memset`. -/
def memset (s : Nat) (c : Int32) (n : Nat) (m : Store) : Nat × Store :=
  (s, whileBelow (setByte s c.toUInt32.toUInt8) n 0 m)

/-- The loop of `memcmp` from `i` on. -/
def memcmpFrom (a b n i : Nat) (m : Store) : Int :=
  if i < n then
    match compareByte a b m i with
    | some r => r
    | none => memcmpFrom a b n (i + 1) m
  else 0
termination_by n - i

/-- `memcmp`. -/
def memcmp (a b n : Nat) (m : Store) : Int := memcmpFrom a b n 0 m

theorem whileBelow_eq (body : σ → Nat → σ) (i k : Nat) (s : σ) :
    whileBelow body (i + k) i s = (List.range' i k).foldl body s := by
  induction k generalizing i s with
  | zero =>
    rw [whileBelow, if_neg (by omega)]
    rfl
  | succ k ih =>
    rw [whileBelow, if_pos (by omega), List.range'_succ, List.foldl_cons, ← ih,
      show i + (k + 1) = i + 1 + k by omega]

theorem whileBelow_zero (body : σ → Nat → σ) (n : Nat) (s : σ) :
    whileBelow body n 0 s = (List.range n).foldl body s := by
  have h := whileBelow_eq body 0 n s
  rwa [Nat.zero_add, ← List.range_eq_range'] at h

theorem whileAbove_eq (body : σ → Nat → σ) (n : Nat) (s : σ) :
    whileAbove body n s = (List.range n).reverse.foldl body s := by
  induction n generalizing s with
  | zero => rfl
  | succ n ih =>
    rw [whileAbove, ih, List.range_succ, List.reverse_append]
    rfl

theorem memcmpFrom_eq (a b i k : Nat) (m : Store) :
    memcmpFrom a b (i + k) i m = ((List.range' i k).findSome? (compareByte a b m)).getD 0 := by
  induction k generalizing i with
  | zero =>
    rw [memcmpFrom, if_neg (by omega)]
    rfl
  | succ k ih =>
    rw [memcmpFrom, if_pos (by omega), List.range'_succ, List.findSome?_cons,
      show i + (k + 1) = i + 1 + k by omega, ih]
    cases compareByte a b m i <;> rfl

/-! The shims of the commands are the functions of the kernel. -/

theorem memcpy_eq (dst src n : Nat) (m : Store) :
    memcpy dst src n m = Mem.memcpy dst src n m := by
  rw [memcpy, Mem.memcpy, whileBelow_zero]

theorem memmove_eq (dst src n : Nat) (m : Store) :
    memmove dst src n m = Mem.memmove dst src n m := by
  rw [memmove, Mem.memmove, whileBelow_zero, whileAbove_eq]

theorem memset_eq (s : Nat) (c : Int32) (n : Nat) (m : Store) :
    memset s c n m = Mem.memset s c n m := by
  rw [memset, Mem.memset, whileBelow_zero]

theorem memcmp_eq (a b n : Nat) (m : Store) : memcmp a b n m = Mem.memcmp a b n m := by
  have h := memcmpFrom_eq a b 0 n m
  rw [Nat.zero_add, ← List.range_eq_range'] at h
  exact h

end Shims

/-! ## Copies -/

/-- The `n` bytes from `src` on, as they are in `m`, are at `dest` in `m'`, and the bytes around
them are as in `m`. -/
structure Copies (dest src n : Nat) (m m' : Store) : Prop where
  bytes : readBytes m' dest n = readBytes m src n
  others : ∀ x, x < dest ∨ dest + n ≤ x → m' x = m x

/-- A copy is a write of the bytes of the source. -/
theorem Copies.eq_writeBytes {dest src n : Nat} {m m' : Store} (h : Copies dest src n m m') :
    m' = writeBytes m dest (readBytes m src n) := by
  funext x
  by_cases hx : dest ≤ x ∧ x < dest + n
  · obtain ⟨i, rfl⟩ : ∃ i, x = dest + i := ⟨x - dest, by omega⟩
    have hi : i < n := by omega
    rw [writeBytes_in m dest (by rw [readBytes_length]; exact hi) 0, ← h.bytes,
      readBytes_getD m' dest hi]
  · rw [writeBytes_out m (by rw [readBytes_length]; omega)]
    exact h.others x (by omega)

theorem add_eq {p n i : Nat} (h : p + n ≤ 2 ^ 64) (hi : i < n) : add p i = p + i :=
  Nat.mod_eq_of_lt (by omega)

variable {dest src n : Nat}

/-- Inside the address space a loop over the bytes is a row of assignments. -/
theorem foldl_copyByte (hdest : dest + n ≤ 2 ^ 64) (hsrc : src + n ≤ 2 ^ 64) {l : List Nat}
    (hl : ∀ i ∈ l, i < n) (m : Store) :
    l.foldl (copyByte dest src) m = Assign.run (dest + ·) (fun i m => m (src + i)) l m := by
  have hrun : l.foldl (copyByte dest src) m =
      Assign.run (add dest) (fun i m => m (add src i)) l m := rfl
  rw [hrun]
  refine Assign.run_congr (fun i hi => ⟨add_eq hdest (hl i hi), ?_⟩) m
  rw [add_eq hsrc (hl i hi)]

/-- A loop over the bytes, in any order in which no byte is read after it was overwritten. -/
theorem copies_of_order (hdest : dest + n ≤ 2 ^ 64) (hsrc : src + n ≤ 2 ^ 64) {l : List Nat}
    (hmem : ∀ i, i ∈ l ↔ i < n) (hord : l.Pairwise fun i j => i ≠ j ∧ dest + i ≠ src + j)
    (m : Store) : Copies dest src n m (l.foldl (copyByte dest src) m) := by
  rw [foldl_copyByte hdest hsrc fun i hi => (hmem i).1 hi]
  constructor
  · refine readBytes_eq_of_getD (readBytes_length m src n) fun k hk => ?_
    have hrow : l.Pairwise fun i j => dest + i ≠ dest + j ∧ ∀ (m : Store) (b : UInt8),
        Function.update m (dest + i) b (src + j) = m (src + j) := by
      refine hord.imp fun h => ⟨fun he => h.1 (Nat.add_left_cancel he), fun m b => ?_⟩
      exact Function.update_of_ne h.2.symm b m
    rw [readBytes_getD m src hk]
    exact Assign.run_target hrow ((hmem k).2 hk) m
  · intro x hx
    refine Assign.run_of_not_target (fun i hi => ?_) m
    have := (hmem i).1 hi
    omega

/-- The upward loop copies if the destination is not above the source, or above all of it. -/
theorem copies_up (hdest : dest + n ≤ 2 ^ 64) (hsrc : src + n ≤ 2 ^ 64)
    (h : dest ≤ src ∨ src + n ≤ dest) (m : Store) :
    Copies dest src n m ((List.range n).foldl (copyByte dest src) m) := by
  refine copies_of_order hdest hsrc (fun i => List.mem_range) ?_ m
  refine List.pairwise_lt_range.imp_of_mem fun hi hj hij => ⟨hij.ne, ?_⟩
  rw [List.mem_range] at hi hj
  omega

/-- The downward loop copies if the destination is not below the source. -/
theorem copies_down (hdest : dest + n ≤ 2 ^ 64) (hsrc : src + n ≤ 2 ^ 64) (h : src ≤ dest)
    (m : Store) : Copies dest src n m ((List.range n).reverse.foldl (copyByte dest src) m) := by
  refine copies_of_order hdest hsrc (fun i => by rw [List.mem_reverse, List.mem_range]) ?_ m
  refine List.pairwise_reverse.2 (List.pairwise_lt_range.imp fun hij => ⟨hij.ne', ?_⟩)
  omega

theorem copies_memmove (hdest : dest + n ≤ 2 ^ 64) (hsrc : src + n ≤ 2 ^ 64) (m : Store) :
    Copies dest src n m (memmove dest src n m).2 := by
  unfold memmove
  split
  · rename_i hlt
    exact copies_up hdest hsrc (Or.inl hlt.le) m
  · rename_i hlt
    exact copies_down hdest hsrc (Nat.le_of_not_lt hlt) m

/-- The call in the terms in which the rest of the development writes a block. -/
theorem memmove_eq_writeBytes (hdest : dest + n ≤ 2 ^ 64) (hsrc : src + n ≤ 2 ^ 64) (m : Store) :
    memmove dest src n m = (dest, writeBytes m dest (readBytes m src n)) := by
  refine Prod.ext ?_ (copies_memmove hdest hsrc m).eq_writeBytes
  unfold memmove
  split <;> rfl

/-- `memmove` copies between any two ranges of the address space, whichever way they overlap. -/
theorem memmove_copies (hdest : dest + n ≤ 2 ^ 64) (hsrc : src + n ≤ 2 ^ 64) (m : Store) :
    Copies dest src n m (memmove dest src n m).2 ∧
      Copies dest src n m (Shims.memmove dest src n m).2 := by
  have hkernel := copies_memmove hdest hsrc m
  refine ⟨hkernel, ?_⟩
  rw [Shims.memmove_eq]
  exact hkernel

/-- The bytes 1 to 4. -/
def fourBytes : Store := writeBytes (fun _ => 0) 0x1000 [1, 2, 3, 4]

/-- Three of them, moved up and down by one. -/
theorem memmove_copies_one :
    readBytes (memmove 0x1001 0x1000 3 fourBytes).2 0x1001 3 = [1, 2, 3] ∧
      readBytes (memmove 0x1000 0x1001 3 fourBytes).2 0x1000 3 = [2, 3, 4] := by
  have hup : Copies 0x1001 0x1000 3 fourBytes (memmove 0x1001 0x1000 3 fourBytes).2 :=
    (memmove_copies (by decide) (by decide) fourBytes).1
  have hdown : Copies 0x1000 0x1001 3 fourBytes (memmove 0x1000 0x1001 3 fourBytes).2 :=
    (memmove_copies (by decide) (by decide) fourBytes).1
  exact ⟨hup.bytes.trans (by decide), hdown.bytes.trans (by decide)⟩

/-! ### A destination above the source -/

/-- The upward loop reads the bytes that it has written: it repeats those between the source
and the destination. -/
theorem run_up_repeats (hlt : src < dest) (m : Store) {i k : Nat} (hi : i < k) :
    Assign.run (dest + ·) (fun i m => m (src + i)) (List.range k) m (dest + i) =
      m (src + i % (dest - src)) := by
  induction i using Nat.strong_induction_on generalizing k with
  | _ i ih =>
    obtain ⟨r, rfl⟩ : ∃ r, k = i + (r + 1) := ⟨k - i - 1, by omega⟩
    have hsplit : List.range (i + (r + 1)) = List.range i ++ i :: List.range' (i + 1) r := by
      rw [List.range_eq_range', ← List.range'_append_1, Nat.zero_add, List.range'_succ,
        ← List.range_eq_range']
    have hlast : ∀ j ∈ List.range' (i + 1) r, dest + j ≠ dest + i := by
      intro j hj
      have := List.mem_range'_1.1 hj
      omega
    rw [hsplit, Assign.run_last hlast]
    by_cases hfirst : i < dest - src
    · rw [Nat.mod_eq_of_lt hfirst]
      exact Assign.run_of_not_target (fun j _ => by omega) m
    · -- the byte was written `dest - src` rounds before
      have hback : src + i = dest + (i - (dest - src)) := by omega
      rw [hback, Nat.mod_eq_sub_mod (Nat.le_of_not_lt hfirst)]
      exact ih (i - (dest - src)) (by omega) (by omega)

/-- `memcpy` to a destination above the source. -/
theorem memcpy_repeats (hdest : dest + n ≤ 2 ^ 64) (hlt : src < dest) (m : Store) {i : Nat}
    (hi : i < n) : (memcpy dest src n m).2 (dest + i) = m (src + i % (dest - src)) := by
  have hsrc : src + n ≤ 2 ^ 64 := by omega
  rw [memcpy, foldl_copyByte hdest hsrc (fun i => List.mem_range.1) m]
  exact run_up_repeats hlt m hi

/-- `memcpy` asks for ranges that do not overlap.  It copies overlapping ones too, unless the
destination is inside the source. -/
theorem memcpy_copies_iff (hdest : dest + n ≤ 2 ^ 64) (hsrc : src + n ≤ 2 ^ 64) :
    (∀ m, Copies dest src n m (memcpy dest src n m).2) ↔ dest ≤ src ∨ src + n ≤ dest := by
  refine ⟨fun h => ?_, fun h m => copies_up hdest hsrc h m⟩
  by_contra hover
  rw [not_or, Nat.not_le, Nat.not_le] at hover
  -- the byte at the destination is copied from the source before it is read
  have hin : dest - src < n := by omega
  have hbytes := (h fun x => if x = src then 1 else 0).bytes
  have hread := readBytes_getD (fun x => if x = src then (1 : UInt8) else 0) src hin 0
  rw [← hbytes, readBytes_getD _ _ hin, memcpy_repeats hdest hover.1 _ hin, Nat.mod_self,
    Nat.add_zero, if_pos rfl, if_neg (by omega)] at hread
  exact absurd hread (by decide)

/-! ## Fills and comparisons -/

theorem memset_eq {s n : Nat} (h : s + n ≤ 2 ^ 64) (c : Int32) (m : Store) :
    memset s c n m = (s, writeBytes m s (List.replicate n c.toUInt32.toUInt8)) := by
  have hrow : (List.range n).foldl (setByte s c.toUInt32.toUInt8) m =
      Assign.run (s + ·) (fun _ _ => c.toUInt32.toUInt8) (List.range n) m := by
    refine Assign.run_congr (fun i hi => ⟨add_eq h (List.mem_range.1 hi), rfl⟩) m
  rw [memset, hrow]
  refine congrArg (Prod.mk s) (funext fun x => ?_)
  by_cases hx : s ≤ x ∧ x < s + n
  · obtain ⟨i, rfl⟩ : ∃ i, x = s + i := ⟨x - s, by omega⟩
    have hi : i < n := by omega
    rw [writeBytes_in m s (by rw [List.length_replicate]; exact hi) 0, List.getD_replicate _ hi]
    refine Assign.run_target ?_ (List.mem_range.2 hi) m
    exact List.pairwise_lt_range.imp fun hij => ⟨by omega, fun _ _ => rfl⟩
  · rw [writeBytes_out m (by rw [List.length_replicate]; omega)]
    refine Assign.run_of_not_target (fun i hi => ?_) m
    have := List.mem_range.1 hi
    omega

/-- The difference of two strings of bytes, in the first place in which they differ. -/
def difference : List UInt8 → List UInt8 → Int
  | a :: as, b :: bs => if a ≠ b then (a.toNat : Int) - b.toNat else difference as bs
  | _, _ => 0

theorem difference_eq_zero_iff {as bs : List UInt8} (h : as.length = bs.length) :
    difference as bs = 0 ↔ as = bs := by
  induction as generalizing bs with
  | nil =>
    rw [List.eq_nil_of_length_eq_zero h.symm]
    exact ⟨fun _ => rfl, fun _ => rfl⟩
  | cons a as ih =>
    cases bs with
    | nil => cases h
    | cons b bs =>
      rw [difference, List.cons.injEq, ← ih (Nat.succ.inj h)]
      by_cases hab : a = b
      · rw [if_neg (not_not.2 hab)]
        exact ⟨fun hd => ⟨hab, hd⟩, fun hd => hd.2⟩
      · have hne := mt UInt8.toNat_inj.1 hab
        rw [if_pos hab]
        exact ⟨fun hd => by omega, fun hd => absurd hd.1 hab⟩

/-- The sign of the difference is the lexicographic order. -/
theorem difference_lt_zero_iff {as bs : List UInt8} (h : as.length = bs.length) :
    difference as bs < 0 ↔ as < bs := by
  induction as generalizing bs with
  | nil =>
    rw [List.eq_nil_of_length_eq_zero h.symm]
    exact ⟨fun hd => absurd hd (Int.lt_irrefl 0), fun hd => absurd hd (List.not_lt_nil [])⟩
  | cons a as ih =>
    cases bs with
    | nil => cases h
    | cons b bs =>
      rw [difference, List.cons_lt_cons_iff, ← ih (Nat.succ.inj h), UInt8.lt_iff_toNat_lt]
      by_cases hab : a = b
      · subst hab
        rw [if_neg (not_not.2 rfl)]
        exact ⟨fun hd => Or.inr ⟨rfl, hd⟩, fun hd => (hd.resolve_left (Nat.lt_irrefl _)).2⟩
      · rw [if_pos hab]
        exact ⟨fun hd => Or.inl (by omega), fun hd => by
          have := hd.resolve_right fun he => hab he.1
          omega⟩

section compare

variable {s1 s2 : Nat} (m : Store)

theorem findSome?_compareByte (i k : Nat) (h1 : s1 + (i + k) ≤ 2 ^ 64)
    (h2 : s2 + (i + k) ≤ 2 ^ 64) :
    ((List.range' i k).findSome? (compareByte s1 s2 m)).getD 0 =
      difference (readBytes m (s1 + i) k) (readBytes m (s2 + i) k) := by
  induction k generalizing i with
  | zero => rfl
  | succ k ih =>
    have hcons (a : Nat) : readBytes m (a + i) (k + 1) =
        m (a + i) :: readBytes m (a + (i + 1)) k := by
      rw [Nat.add_comm k 1, readBytes_add]
      rfl
    rw [List.range'_succ, List.findSome?_cons, compareByte, add_eq h1 (by omega),
      add_eq h2 (by omega), hcons, hcons, difference, ← ih (i + 1) (by omega) (by omega)]
    by_cases hne : m (s1 + i) ≠ m (s2 + i)
    · rw [if_pos hne, if_pos hne]
      rfl
    · rw [if_neg hne, if_neg hne]

theorem memcmp_eq_difference (h1 : s1 + n ≤ 2 ^ 64) (h2 : s2 + n ≤ 2 ^ 64) :
    memcmp s1 s2 n m = difference (readBytes m s1 n) (readBytes m s2 n) := by
  rw [memcmp, List.range_eq_range', findSome?_compareByte m 0 n (by omega) (by omega)]
  rfl

/-- `memcmp` finds strings equal if they are. -/
theorem memcmp_eq_zero_iff (h1 : s1 + n ≤ 2 ^ 64) (h2 : s2 + n ≤ 2 ^ 64) :
    memcmp s1 s2 n m = 0 ↔ readBytes m s1 n = readBytes m s2 n := by
  rw [memcmp_eq_difference m h1 h2, difference_eq_zero_iff (by simp only [readBytes_length])]

/-- `memcmp` puts strings in their lexicographic order. -/
theorem memcmp_lt_zero_iff (h1 : s1 + n ≤ 2 ^ 64) (h2 : s2 + n ≤ 2 ^ 64) :
    memcmp s1 s2 n m < 0 ↔ readBytes m s1 n < readBytes m s2 n := by
  rw [memcmp_eq_difference m h1 h2, difference_lt_zero_iff (by simp only [readBytes_length])]

end compare

end AeroOS.Mem
