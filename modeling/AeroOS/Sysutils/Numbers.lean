import AeroOS.Lib.Decimal
import AeroOS.Sysutils.Calls

/-!
# Numbers as text

`print_u64` and `print_i64` of `sysutils/src/syscalls.rs` and `parse_u32` of `kill`.

* `printU64_eq` and `printI64_eq`: the canonical text goes to the console.
* `parseU32_eq`: which texts are accepted, and as what.
* `decimal_inverse` puts them together.
-/

namespace AeroOS.Sysutils

open AeroOS.Syscalls Decimal

/-! ## Printing -/

/-- The loop of `print_u64`: the digits go into the buffer from its end on.  `none` is an
index that is not in the buffer. -/
def printLoop (v : UInt64) (buf : List UInt8) (i : Nat) : Option (List UInt8 × Nat) :=
  if h : v > 0 then
    if i = 0 ∨ buf.length < i then none
    else printLoop (v / 10) (buf.set (i - 1) (0x30 + (v % 10).toUInt8)) (i - 1)
  else some (buf, i)
termination_by v.toNat
decreasing_by
  rw [UInt64.toNat_div]
  exact Nat.div_lt_self (UInt64.lt_iff_toNat_lt.1 h) (by decide)

variable {τ : Type}

/-- `print_u64`. -/
def printU64 (v : UInt64) (s : Session τ) : Option (Session τ) :=
  if v = 0 then some (print (ascii "0") s)
  else (printLoop v (List.replicate 20 0) 20).map fun r => print (r.1.drop r.2) s

/-- `print_i64`. -/
def printI64 (v : Int64) (s : Session τ) : Option (Session τ) :=
  if v < 0 then printU64 (UInt64.ofInt (-v.toInt)) (print (ascii "-") s)
  else printU64 v.toUInt64 s

/-- The text of a number with a sign. -/
def signedDigits (v : Int) : List UInt8 :=
  if v < 0 then ascii "-" ++ digits v.natAbs else digits v.natAbs

theorem drop_set_pred {buf : List UInt8} {i : Nat} (hi : 0 < i) (hbuf : i ≤ buf.length)
    (b : UInt8) : (buf.set (i - 1) b).drop (i - 1) = b :: buf.drop i := by
  rw [List.drop_set, if_neg (Nat.lt_irrefl _), Nat.sub_self,
    List.drop_eq_getElem_cons (show i - 1 < buf.length by omega), List.set_cons_zero,
    Nat.sub_add_cancel hi]

/-- Each turn of the loop writes a digit in front of those that are there, the last one first. -/
theorem printLoop_eq {v : UInt64} (hv : 0 < v.toNat) {buf : List UInt8} {i : Nat}
    (hbuf : i ≤ buf.length) (hi : (digits v.toNat).length ≤ i) :
    ∃ r, printLoop v buf i = some r ∧ r.1.drop r.2 = digits v.toNat ++ buf.drop i := by
  induction hn : v.toNat using Nat.strongRecOn generalizing v buf i with
  | ind n ih =>
    have hdigit : 0x30 + (v % 10).toUInt8 = digit (n % 10) := by
      rw [← UInt8.toNat_inj, toNat_digit (Nat.mod_lt n (by decide)), UInt8.toNat_add,
        UInt64.toNat_toUInt8, UInt64.toNat_mod, hn]
      show (0x30 + n % 10 % 256) % 256 = _
      omega
    have hdiv : (v / 10).toNat = n / 10 := by
      rw [UInt64.toNat_div, hn]
      rfl
    rw [hn] at hv hi
    have hlen : 0 < (digits n).length := List.length_pos_iff.2 (digits_ne_nil n)
    have hdrop := drop_set_pred (Nat.lt_of_lt_of_le hlen hi) hbuf (digit (n % 10))
    rw [printLoop, dif_pos (UInt64.lt_iff_toNat_lt.2 (by rw [hn]; exact hv)),
      if_neg (by omega), hdigit]
    by_cases hlt : n < 10
    · have hzero : ¬ v / 10 > 0 := by
        rw [gt_iff_lt, UInt64.lt_iff_toNat_lt, hdiv, Nat.div_eq_of_lt hlt]
        exact Nat.lt_irrefl _
      refine ⟨(buf.set (i - 1) (digit (n % 10)), i - 1), ?_, ?_⟩
      · rw [printLoop, dif_neg hzero]
      · rw [hdrop, digits_of_lt hlt, Nat.mod_eq_of_lt hlt]
        rfl
    · have hstep := digits_step (Nat.le_of_not_lt hlt)
      rw [hstep, List.length_append, List.length_singleton] at hi
      have hfits : i - 1 ≤ (buf.set (i - 1) (digit (n % 10))).length := by
        rw [List.length_set]
        omega
      obtain ⟨r, hr, hrdrop⟩ := ih (n / 10) (by omega) (v := v / 10) (by rw [hdiv]; omega) hfits
        (by rw [hdiv]; omega) hdiv
      refine ⟨r, hr, ?_⟩
      rw [hrdrop, hdrop, hstep, List.append_assoc]
      rfl

/-- Digits are a text. -/
theorem printed_ascii {s : List UInt8} (h : ∀ b ∈ s, b < 0x80) : printed s = s := by
  have hvalid : validUtf8 s = true := by
    induction s with
    | nil => rfl
    | cons b s ih =>
      have hb : validUtf8 [b] = true := by
        rw [validUtf8_eq, List.foldl_cons, List.foldl_nil, utf8Step, if_pos (h b List.mem_cons_self)]
        rfl
      rw [← List.singleton_append, validUtf8_append hb]
      exact ih fun x hx => h x (List.mem_cons_of_mem b hx)
  rw [printed, if_pos hvalid]

theorem print_ascii {s : List UInt8} (h : ∀ b ∈ s, b < 0x80) (t : Session τ) :
    print s t = { t with serial := t.serial ++ s } := by
  rw [print_eq, printed_ascii h]

theorem print_digits (n : Nat) (s : Session τ) :
    print (digits n) s = { s with serial := s.serial ++ digits n } := by
  refine print_ascii ?_ s
  intro b hb
  exact UInt8.lt_of_le_of_lt (isDigit_digits n b hb).2 (by decide)

/-- `print_u64` prints the number. -/
theorem printU64_eq (v : UInt64) (s : Session τ) :
    printU64 v s = some { s with serial := s.serial ++ digits v.toNat } := by
  rw [← print_digits]
  by_cases h0 : v = 0
  · rw [printU64, if_pos h0, h0]
    rfl
  · have hpos : 0 < v.toNat := by
      rw [Nat.pos_iff_ne_zero]
      intro hv
      exact h0 (UInt64.toNat_inj.1 hv)
    have hlen : (digits v.toNat).length ≤ 20 :=
      length_digits_le (by decide) (Nat.lt_of_lt_of_le v.toNat_lt (by decide))
    have hfull : 20 ≤ (List.replicate 20 (0 : UInt8)).length :=
      Nat.le_of_eq List.length_replicate.symm
    obtain ⟨r, hr, hdrop⟩ := printLoop_eq hpos hfull hlen
    rw [printU64, if_neg h0, hr, Option.map_some, hdrop,
      List.drop_eq_nil_of_le (Nat.le_of_eq List.length_replicate), List.append_nil]

theorem toNat_ofInt_neg {v : Int64} (h : v < 0) :
    (UInt64.ofInt (-v.toInt)).toNat = v.toInt.natAbs := by
  have hneg := Int64.lt_iff_toInt_lt.1 h
  have hmin := v.le_toInt
  rw [show (0 : Int64).toInt = 0 from rfl] at hneg
  rw [UInt64.ofInt, UInt64.toNat_ofNat']
  omega

theorem toNat_toUInt64 {v : Int64} (h : ¬ v < 0) : v.toUInt64.toNat = v.toInt.natAbs := by
  have hpos := mt Int64.lt_iff_toInt_lt.2 h
  rw [show (0 : Int64).toInt = 0 from rfl] at hpos
  have hcond := BitVec.toInt_eq_toNat_cond v.toBitVec
  have hlt := v.toBitVec.isLt
  show v.toBitVec.toNat = v.toBitVec.toInt.natAbs
  have hpos' : ¬ v.toBitVec.toInt < 0 := hpos
  split at hcond
  · omega
  · omega

/-- `print_i64` prints the number. -/
theorem printI64_eq (v : Int64) (s : Session τ) :
    printI64 v s = some { s with serial := s.serial ++ signedDigits v.toInt } := by
  have hneg : v < 0 ↔ v.toInt < 0 := Int64.lt_iff_toInt_lt
  unfold printI64 signedDigits
  by_cases h : v < 0
  · have hminus : print (ascii "-") s = { s with serial := s.serial ++ ascii "-" } :=
      print_ascii (by decide) s
    rw [if_pos h, if_pos (hneg.1 h), printU64_eq, toNat_ofInt_neg h, hminus, List.append_assoc]
  · rw [if_neg h, if_neg (mt hneg.2 h), printU64_eq, toNat_toUInt64 h]

/-! ## Parsing -/

/-- `checked_mul`. -/
def checkedMul (a b : UInt32) : Option UInt32 :=
  if a.toNat * b.toNat < 2 ^ 32 then some (a * b) else none

/-- `checked_add`. -/
def checkedAdd (a b : UInt32) : Option UInt32 :=
  if a.toNat + b.toNat < 2 ^ 32 then some (a + b) else none

/-- The loop of `parse_u32`. -/
def parseLoop : List UInt8 → (result : UInt32) → (any : Bool) → Option UInt32
  | [], result, any => if any then some result else none
  | b :: s, result, _ =>
    if b < 0x30 ∨ b > 0x39 then none
    else
      (checkedMul result 10).bind fun r =>
        (checkedAdd r (b - 0x30).toUInt32).bind fun r => parseLoop s r true

/-- `parse_u32`. -/
def parseU32 (s : List UInt8) : Option UInt32 := parseLoop s 0 false

/-- The text is a number of 32 bits. -/
def Parses (s : List UInt8) : Prop := s ≠ [] ∧ (∀ b ∈ s, IsDigit b) ∧ value s < 2 ^ 32

instance (s : List UInt8) : Decidable (Parses s) := inferInstanceAs (Decidable (_ ∧ _ ∧ _))

/-- The checked step takes one more digit, if the number does not get too large. -/
theorem checked_step {b : UInt8} (hb : IsDigit b) (result : UInt32) :
    ((checkedMul result 10).bind fun r => checkedAdd r (b - 0x30).toUInt32) =
      if addDigit result.toNat b < 2 ^ 32 then some (UInt32.ofNat (addDigit result.toNat b))
      else none := by
  have hten : (10 : UInt32).toNat = 10 := rfl
  have hsub : (b - 0x30).toUInt32.toNat = b.toNat - 0x30 := by
    rw [UInt8.toNat_toUInt32, UInt8.toNat_sub_of_le _ _ hb.1]
    rfl
  unfold checkedMul addDigit
  rw [hten]
  by_cases hmul : result.toNat * 10 < 2 ^ 32
  · have hprod : (result * 10).toNat = result.toNat * 10 := by
      rw [UInt32.toNat_mul, hten, Nat.mod_eq_of_lt hmul]
    rw [if_pos hmul, Option.bind_some, checkedAdd, hprod, hsub]
    by_cases hadd : result.toNat * 10 + (b.toNat - 0x30) < 2 ^ 32
    · rw [if_pos hadd, if_pos hadd, Option.some.injEq, ← UInt32.toNat_inj, UInt32.toNat_add, hprod,
        hsub, UInt32.toNat_ofNat']
    · rw [if_neg hadd, if_neg hadd]
  · rw [if_neg hmul, if_neg (by omega)]
    rfl

/-- The loop reads the digits that are left behind the number it has. -/
theorem parseLoop_eq (s : List UInt8) (result : UInt32) (any : Bool) :
    parseLoop s result any =
      if (any = true ∨ s ≠ []) ∧ (∀ b ∈ s, IsDigit b) ∧ s.foldl addDigit result.toNat < 2 ^ 32 then
        some (UInt32.ofNat (s.foldl addDigit result.toNat))
      else none := by
  induction s generalizing result any with
  | nil =>
    rw [parseLoop, List.foldl_nil, UInt32.ofNat_toNat]
    cases any with
    | false => rfl
    | true => rw [if_pos rfl, if_pos ⟨Or.inl rfl, fun b hb => absurd hb List.not_mem_nil, result.toNat_lt⟩]
  | cons b s ih =>
    rw [parseLoop, List.foldl_cons]
    by_cases hb : IsDigit b
    · have hin : ¬ (b < 0x30 ∨ b > 0x39) := by
        rintro (h | h)
        · exact absurd hb.1 (UInt8.not_le.2 h)
        · exact absurd hb.2 (UInt8.not_le.2 h)
      rw [if_neg hin, ← Option.bind_assoc, checked_step hb]
      by_cases hlt : addDigit result.toNat b < 2 ^ 32
      · rw [if_pos hlt, Option.bind_some, ih, UInt32.toNat_ofNat_of_lt' hlt]
        simp [hb]
      · have hle := le_foldl_addDigit (addDigit result.toNat b) s
        rw [if_neg hlt, if_neg (by omega)]
        rfl
    · have hout : b < 0x30 ∨ b > 0x39 := by
        rw [IsDigit, not_and_or, UInt8.not_le, UInt8.not_le] at hb
        exact hb
      rw [if_pos hout, if_neg]
      rintro ⟨-, hall, -⟩
      exact hb (hall b List.mem_cons_self)

/-- `parse_u32` accepts the texts of digits below 2^32. -/
theorem parseU32_eq (s : List UInt8) :
    parseU32 s = if Parses s then some (UInt32.ofNat (value s)) else none := by
  rw [parseU32, parseLoop_eq]
  simp only [Bool.false_eq_true, false_or]
  rfl

theorem parses_digits {n : Nat} : Parses (digits n) ↔ n < 2 ^ 32 := by
  rw [Parses, value_digits]
  exact ⟨fun h => h.2.2, fun h => ⟨digits_ne_nil n, isDigit_digits n, h⟩⟩

theorem parseU32_digits (n : Nat) :
    parseU32 (digits n) = if n < 2 ^ 32 then some (UInt32.ofNat n) else none := by
  rw [parseU32_eq, value_digits]
  simp only [parses_digits]

/-- Printing and parsing are inverse. -/
theorem decimal_inverse (s : Session τ) :
    (∀ v : UInt64, printU64 v s = some { s with serial := s.serial ++ digits v.toNat } ∧
      Canonical (digits v.toNat) ∧ value (digits v.toNat) = v.toNat ∧
      (digits v.toNat).length ≤ 20) ∧
    (∀ v : Int64, printI64 v s = some { s with serial := s.serial ++ signedDigits v.toInt }) ∧
    (∀ text, parseU32 text = if Parses text then some (UInt32.ofNat (value text)) else none) ∧
    ∀ v : UInt64, parseU32 (digits v.toNat) =
      if v.toNat < 2 ^ 32 then some v.toUInt32 else none := by
  refine ⟨?_, fun v => printI64_eq v s, parseU32_eq, fun v => parseU32_digits v.toNat⟩
  intro v
  exact ⟨printU64_eq v s, canonical_digits v.toNat, value_digits v.toNat,
    length_digits_le (by decide) (Nat.lt_of_lt_of_le v.toNat_lt (by decide))⟩

end AeroOS.Sysutils
