import Mathlib.Data.List.Basic
import Mathlib.Tactic.SplitIfs
import Mathlib.Tactic.Ring

/-!
# Byte stores

A byte store is a total function from addresses to bytes.  It serves as a
disk (the address of byte `i` of sector `n` is `512 * n + i`) and as a
physical memory.

* `readBytes` and `writeBytes` move one contiguous range.  `readBytes_*` and
  `writeBytes_*` say what a read sees after a write: the same range, a range
  that does not meet it, a range written in two adjacent pieces.
* `patch` is `copy_from_slice` into a part of a buffer.
  `writeBytes_patch_readBytes` turns a read-modify-write of a whole block
  into a write of the modified part alone.
* `leNat` and `leBytes` are the little-endian codec for words of any width.
-/

namespace AeroOS.Bytes

/-- A byte store: one byte at every address. -/
abbrev Store := Nat → UInt8

/-- The `n` bytes from address `a` up. -/
def readBytes (m : Store) (a n : Nat) : List UInt8 :=
  (List.range n).map fun i => m (a + i)

/-- The store with `bs` put at address `a`. -/
def writeBytes (m : Store) (a : Nat) (bs : List UInt8) : Store :=
  fun x => if a ≤ x then bs.getD (x - a) (m x) else m x

/-- The buffer `l` with `p` copied over it from index `o` up. -/
def patch (l : List UInt8) (o : Nat) (p : List UInt8) : List UInt8 :=
  l.take o ++ p ++ l.drop (o + p.length)

/-! ## Reading -/

@[simp] theorem readBytes_length (m : Store) (a n : Nat) :
    (readBytes m a n).length = n := by
  simp [readBytes]

@[simp] theorem readBytes_zero (m : Store) (a : Nat) : readBytes m a 0 = [] := rfl

theorem readBytes_getElem? (m : Store) (a : Nat) {n i : Nat} (hi : i < n) :
    (readBytes m a n)[i]? = some (m (a + i)) := by
  simp [readBytes, hi]

theorem readBytes_getD (m : Store) (a : Nat) {n i : Nat} (hi : i < n) (d : UInt8) :
    (readBytes m a n).getD i d = m (a + i) := by
  simp [List.getD, readBytes_getElem? m a hi]

/-- A range is what its bytes are. -/
theorem readBytes_eq_of_getD {m : Store} {a n : Nat} {l : List UInt8} (hl : l.length = n)
    (h : ∀ k, k < n → m (a + k) = l.getD k 0) : readBytes m a n = l := by
  apply List.ext_getElem?
  intro k
  by_cases hk : k < n
  · rw [readBytes_getElem? m a hk, h k hk, List.getD, List.getElem?_eq_getElem (by omega)]
    rfl
  · rw [List.getElem?_eq_none (by simp; omega), List.getElem?_eq_none (by omega)]

/-- Two stores that agree on a range read the same bytes from it. -/
theorem readBytes_congr {m m' : Store} {a n : Nat}
    (h : ∀ x, a ≤ x → x < a + n → m x = m' x) :
    readBytes m a n = readBytes m' a n := by
  simp only [readBytes, List.map_inj_left, List.mem_range]
  intro i hi
  exact h _ (by omega) (by omega)

/-- A range reads as two adjacent ranges. -/
theorem readBytes_add (m : Store) (a n k : Nat) :
    readBytes m a (n + k) = readBytes m a n ++ readBytes m (a + n) k := by
  simp only [readBytes, List.range_add, List.map_append, List.map_map]
  congr 1
  apply List.map_congr_left
  intro i _
  simp only [Function.comp]
  congr 1
  omega

/-- A slice of a range is a range. -/
theorem readBytes_drop_take (m : Store) (a : Nat) {n i k : Nat} (h : i + k ≤ n) :
    ((readBytes m a n).drop i).take k = readBytes m (a + i) k := by
  obtain ⟨r, rfl⟩ : ∃ r, n = i + (k + r) := ⟨n - (i + k), by omega⟩
  rw [readBytes_add, readBytes_add, List.drop_left' (by simp), List.take_left' (by simp)]

/-! ## Writing -/

@[simp] theorem writeBytes_nil (m : Store) (a : Nat) : writeBytes m a [] = m := by
  funext x
  simp [writeBytes]

/-- A write leaves the addresses outside its range alone. -/
theorem writeBytes_out (m : Store) {a x : Nat} {bs : List UInt8}
    (h : x < a ∨ a + bs.length ≤ x) : writeBytes m a bs x = m x := by
  unfold writeBytes
  split_ifs with hax
  · simp [List.getD, List.getElem?_eq_none (show bs.length ≤ x - a by omega)]
  · rfl

/-- What a write leaves at one address depends on that address only. -/
theorem writeBytes_congr {m m' : Store} {a x : Nat} {bs : List UInt8} (h : m x = m' x) :
    writeBytes m a bs x = writeBytes m' a bs x := by
  simp only [writeBytes, h]

theorem writeBytes_in (m : Store) (a : Nat) {bs : List UInt8} {i : Nat}
    (h : i < bs.length) (d : UInt8) : writeBytes m a bs (a + i) = bs.getD i d := by
  simp [writeBytes, List.getD, h]

/-- Reading back what was written. -/
theorem readBytes_writeBytes (m : Store) (a : Nat) (bs : List UInt8) :
    readBytes (writeBytes m a bs) a bs.length = bs := by
  apply List.ext_getElem?
  intro i
  by_cases hi : i < bs.length
  · rw [readBytes_getElem? _ _ hi, writeBytes_in m a hi 0]
    simp [List.getD, hi]
  · rw [List.getElem?_eq_none (by simp; omega), List.getElem?_eq_none (by omega)]

theorem readBytes_writeBytes_append (m : Store) (a : Nat) (bs cs : List UInt8) :
    readBytes (writeBytes m a (bs ++ cs)) a bs.length = bs := by
  have h := readBytes_writeBytes m a (bs ++ cs)
  rw [List.length_append, readBytes_add] at h
  exact List.append_inj_left h (readBytes_length _ _ _)

/-- A read of a range that the write does not meet. -/
theorem readBytes_writeBytes_disjoint (m : Store) {a b n : Nat} {bs : List UInt8}
    (h : b + n ≤ a ∨ a + bs.length ≤ b) :
    readBytes (writeBytes m a bs) b n = readBytes m b n :=
  readBytes_congr fun _ h1 h2 => writeBytes_out m (by omega)

/-- Two adjacent writes are one write. -/
theorem writeBytes_append (m : Store) (a : Nat) (bs cs : List UInt8) :
    writeBytes (writeBytes m a bs) (a + bs.length) cs = writeBytes m a (bs ++ cs) := by
  funext x
  by_cases h1 : x < a
  · rw [writeBytes_out _ (by omega), writeBytes_out _ (by omega), writeBytes_out _ (by omega)]
  by_cases h2 : x < a + bs.length
  · rw [writeBytes_out _ (by omega)]
    obtain ⟨i, rfl⟩ : ∃ i, x = a + i := ⟨x - a, by omega⟩
    rw [writeBytes_in _ _ (by omega) 0, writeBytes_in _ _ (by simp; omega) 0]
    simp [List.getD, List.getElem?_append_left (show i < bs.length by omega)]
  by_cases h3 : x < a + bs.length + cs.length
  · obtain ⟨i, rfl⟩ : ∃ i, x = a + bs.length + i := ⟨x - (a + bs.length), by omega⟩
    rw [writeBytes_in _ _ (by omega) 0, Nat.add_assoc, writeBytes_in _ _ (by simp; omega) 0]
    simp [List.getD, List.getElem?_append_right]
  · rw [writeBytes_out _ (by omega), writeBytes_out _ (by omega),
      writeBytes_out _ (by simp; omega)]

/-! ## Patching a buffer -/

@[simp] theorem patch_length {l p : List UInt8} {o : Nat} (h : o + p.length ≤ l.length) :
    (patch l o p).length = l.length := by
  simp [patch]
  omega

theorem patch_getD_in {l p : List UInt8} {o i : Nat} (ho : o ≤ l.length) (hi : i < p.length)
    (d : UInt8) : (patch l o p).getD (o + i) d = p.getD i d := by
  simp only [patch, List.getD, List.append_assoc]
  rw [List.getElem?_append_right (by simp), List.getElem?_append_left (by simp; omega)]
  congr 2
  simp
  omega

theorem patch_getD_out {l p : List UInt8} {o i : Nat} (ho : o + p.length ≤ l.length)
    (hi : i < o ∨ o + p.length ≤ i) (d : UInt8) : (patch l o p).getD i d = l.getD i d := by
  have hlen : (l.take o).length = o := by simp; omega
  simp only [patch, List.getD, List.append_assoc]
  rcases hi with hi | hi
  · rw [List.getElem?_append_left (by omega), List.getElem?_take_of_lt hi]
  · rw [List.getElem?_append_right (by omega), List.getElem?_append_right (by omega),
      List.getElem?_drop]
    congr 2
    omega

/-- Two adjacent patches are one patch. -/
theorem patch_append {l p q : List UInt8} {o : Nat} (h : o + p.length + q.length ≤ l.length) :
    patch (patch l o p) (o + p.length) q = patch l o (p ++ q) := by
  have hlen : (l.take o ++ p).length = o + p.length := by
    simp
    omega
  have hdrop : (l.take o ++ p ++ l.drop (o + p.length)).drop (o + p.length + q.length) =
      l.drop (o + p.length + q.length) := by
    rw [← List.drop_drop, List.drop_left' hlen, List.drop_drop]
  rw [patch, patch, patch, List.take_left' hlen, hdrop, List.append_assoc, List.length_append,
    ← Nat.add_assoc, List.append_assoc, List.append_assoc, List.append_assoc]

@[simp] theorem patch_nil (l : List UInt8) (o : Nat) : patch l o [] = l := by
  rw [patch, List.append_nil, List.length_nil, Nat.add_zero, List.take_append_drop]

/-- A patch of the whole buffer. -/
theorem patch_all {l p : List UInt8} (h : l.length = p.length) : patch l 0 p = p := by
  rw [patch, List.take_zero, List.nil_append, List.drop_eq_nil_of_le (by omega), List.append_nil]

/-- Reading a block, patching it and writing it back writes the patch. -/
theorem writeBytes_patch_readBytes (m : Store) (a : Nat) {n o : Nat} {p : List UInt8}
    (h : o + p.length ≤ n) :
    writeBytes m a (patch (readBytes m a n) o p) = writeBytes m (a + o) p := by
  have hlen : (patch (readBytes m a n) o p).length = n := by
    rw [patch_length (by simpa using h), readBytes_length]
  funext x
  by_cases h1 : x < a ∨ a + n ≤ x
  · rw [writeBytes_out _ (by omega), writeBytes_out _ (by omega)]
  obtain ⟨i, rfl⟩ : ∃ i, x = a + i := ⟨x - a, by omega⟩
  rw [writeBytes_in m a (show i < _ by omega) 0]
  by_cases h2 : i < o ∨ o + p.length ≤ i
  · rw [patch_getD_out (by simpa using h) h2, readBytes_getD _ _ (by omega),
      writeBytes_out _ (by omega)]
  · obtain ⟨j, rfl⟩ : ∃ j, i = o + j := ⟨i - o, by omega⟩
    rw [patch_getD_in (by simp; omega) (by omega), ← Nat.add_assoc,
      writeBytes_in _ _ (by omega)]

/-- Writing back the first bytes of a block in which one byte was patched. -/
theorem writeBytes_take_patch (m : Store) (a : Nat) {n o : Nat} (k : Nat) (b : UInt8) (ho : o < n) :
    writeBytes m a ((patch (readBytes m a n) o [b]).take k) =
      if o < k then writeBytes m (a + o) [b] else m := by
  have hfit : o + [b].length ≤ (readBytes m a n).length := by
    rw [readBytes_length, List.length_singleton]
    exact ho
  have hlen : ((patch (readBytes m a n) o [b]).take k).length = min k n := by
    rw [List.length_take, patch_length hfit, readBytes_length]
  funext x
  by_cases hx : x < a ∨ a + min k n ≤ x
  · rw [writeBytes_out _ (by omega)]
    split
    · rw [writeBytes_out _ (by rw [List.length_singleton]; omega)]
    · rfl
  obtain ⟨i, rfl⟩ : ∃ i, x = a + i := ⟨x - a, by omega⟩
  rw [writeBytes_in m a (by omega) 0, List.getD_eq_getElem?_getD,
    List.getElem?_take_of_lt (by omega), ← List.getD_eq_getElem?_getD]
  by_cases hio : i = o
  · subst hio
    have hin := patch_getD_in (l := readBytes m a n) (p := [b]) (o := i) (i := 0)
      (by rw [readBytes_length]; omega) (by simp) 0
    rw [if_pos (by omega)]
    exact hin.trans (writeBytes_in m (a + i) (show 0 < [b].length by simp) 0).symm
  · rw [patch_getD_out hfit (by rw [List.length_singleton]; omega), readBytes_getD _ _ (by omega)]
    split
    · rw [writeBytes_out _ (by rw [List.length_singleton]; omega)]
    · rfl

/-! ## Records of one size -/

/-- A byte of a list of records lies in one of them. -/
theorem flatMap_getD {β : Type} {f : β → List UInt8} {n : Nat} (hf : ∀ b, (f b).length = n)
    (l : List β) {i k : Nat} (hi : i < l.length) (hk : k < n) (d : UInt8) :
    (l.flatMap f).getD (i * n + k) d = (f l[i]).getD k d := by
  induction l generalizing i with
  | nil => simp at hi
  | cons b l ih =>
    rw [List.flatMap_cons, List.getD, List.getD]
    cases i with
    | zero =>
      rw [List.getElem?_append_left (by rw [hf]; omega), Nat.zero_mul, Nat.zero_add]
      rfl
    | succ i =>
      have hle : n ≤ (i + 1) * n + k := by
        rw [Nat.add_mul]
        omega
      have hidx : (i + 1) * n + k - n = i * n + k := by
        rw [Nat.add_mul]
        omega
      rw [List.getElem?_append_right (by rw [hf]; exact hle), hf, hidx]
      exact ih (by simpa using hi)

theorem flatMap_length {β : Type} {f : β → List UInt8} {n : Nat} (hf : ∀ b, (f b).length = n)
    (l : List β) : (l.flatMap f).length = l.length * n := by
  induction l with
  | nil => simp
  | cons b l ih =>
    rw [List.flatMap_cons, List.length_append, ih, hf, List.length_cons, Nat.add_mul,
      Nat.one_mul, Nat.add_comm]

/-! ## Little-endian words -/

/-- The number whose little-endian bytes are `bs`. -/
def leNat : List UInt8 → Nat
  | [] => 0
  | b :: bs => b.toNat + 256 * leNat bs

/-- The `n` low bytes of `v`, lowest first. -/
def leBytes : Nat → Nat → List UInt8
  | 0, _ => []
  | n + 1, v => UInt8.ofNat v :: leBytes n (v / 256)

@[simp] theorem leBytes_length (n v : Nat) : (leBytes n v).length = n := by
  induction n generalizing v with
  | zero => rfl
  | succ n ih => simp [leBytes, ih]

theorem leNat_lt (bs : List UInt8) : leNat bs < 256 ^ bs.length := by
  induction bs with
  | nil => simp [leNat]
  | cons b bs ih =>
    have hb : b.toNat < 256 := b.toNat_lt
    simp only [leNat, List.length_cons, Nat.pow_succ]
    omega

/-- Decoding the `n` low bytes of `v` gives `v` modulo `256 ^ n`. -/
theorem leNat_leBytes (n v : Nat) : leNat (leBytes n v) = v % 256 ^ n := by
  induction n generalizing v with
  | zero => simp [leBytes, leNat, Nat.mod_one]
  | succ n ih =>
    rw [leBytes, leNat, ih, Nat.pow_succ, Nat.mul_comm (256 ^ n) 256, Nat.mod_mul]
    simp

theorem leNat_leBytes_of_lt {n v : Nat} (h : v < 256 ^ n) : leNat (leBytes n v) = v := by
  rw [leNat_leBytes, Nat.mod_eq_of_lt h]

/-- Bytes of one length with one value are the same. -/
theorem leNat_inj {bs cs : List UInt8} (hlen : bs.length = cs.length) (h : leNat bs = leNat cs) :
    bs = cs := by
  induction bs generalizing cs with
  | nil => exact (List.length_eq_zero_iff.mp hlen.symm).symm
  | cons b bs ih =>
    obtain ⟨c, cs, rfl⟩ : ∃ c cs', cs = c :: cs' := List.exists_cons_of_length_eq_add_one hlen.symm
    have hb : b.toNat < 256 := b.toNat_lt
    have hc : c.toNat < 256 := c.toNat_lt
    simp only [leNat] at h
    rw [ih (by simpa using hlen) (by omega), UInt8.toNat_inj.mp (show b.toNat = c.toNat by omega)]

/-- Writing what is there changes nothing. -/
theorem writeBytes_readBytes (m : Store) (a n : Nat) : writeBytes m a (readBytes m a n) = m := by
  funext x
  by_cases hx : x < a ∨ a + n ≤ x
  · exact writeBytes_out _ (by rw [readBytes_length]; omega)
  · obtain ⟨i, rfl⟩ : ∃ i, x = a + i := ⟨x - a, by omega⟩
    rw [writeBytes_in m a (by rw [readBytes_length]; omega) 0, readBytes_getD m a (by omega)]

end AeroOS.Bytes
