import Mathlib.Data.Nat.Digits.Lemmas

/-!
# Decimal numbers in ASCII

* `digits n` is the canonical text of `n`, from `Nat.digits`; `digits_step` takes its last
  digit off.
* `value` reads a text from the front.
* `value_digits` and `digits_value`: the two are inverse on canonical texts.
-/

namespace AeroOS.Decimal

/-- The character of a digit. -/
def digit (d : Nat) : UInt8 := 0x30 + UInt8.ofNat d

/-- `0` to `9`. -/
def IsDigit (b : UInt8) : Prop := 0x30 ≤ b ∧ b ≤ 0x39

instance (b : UInt8) : Decidable (IsDigit b) := inferInstanceAs (Decidable (_ ∧ _))

/-- The text of a number, without leading zeros. -/
def digits (n : Nat) : List UInt8 :=
  if n = 0 then [digit 0] else (Nat.digits 10 n).reverse.map digit

/-- One more digit behind a number. -/
def addDigit (acc : Nat) (b : UInt8) : Nat := acc * 10 + (b.toNat - 0x30)

/-- The number that a text of digits stands for. -/
def value (s : List UInt8) : Nat := s.foldl addDigit 0

/-- A text of digits that starts with 0 only if it is the text of 0. -/
structure Canonical (s : List UInt8) : Prop where
  ne_nil : s ≠ []
  isDigit : ∀ b ∈ s, IsDigit b
  head : s.head? = some (digit 0) → s = [digit 0]

/-! ## Digits -/

theorem toNat_digit {d : Nat} (h : d < 10) : (digit d).toNat = 0x30 + d := by
  rw [digit, UInt8.toNat_add, UInt8.toNat_ofNat']
  show (0x30 + d % 256) % 256 = _
  omega

theorem isDigit_iff {b : UInt8} : IsDigit b ↔ 0x30 ≤ b.toNat ∧ b.toNat ≤ 0x39 := by
  rw [IsDigit, UInt8.le_iff_toNat_le, UInt8.le_iff_toNat_le]
  rfl

theorem isDigit_digit {d : Nat} (h : d < 10) : IsDigit (digit d) := by
  rw [isDigit_iff, toNat_digit h]
  omega

theorem digit_sub {b : UInt8} (h : IsDigit b) : digit (b.toNat - 0x30) = b := by
  rw [isDigit_iff] at h
  rw [← UInt8.toNat_inj, toNat_digit (by omega)]
  omega

theorem addDigit_digit (acc : Nat) {d : Nat} (h : d < 10) :
    addDigit acc (digit d) = acc * 10 + d := by
  rw [addDigit, toNat_digit h]
  omega

/-! ## Reading -/

theorem value_snoc (s : List UInt8) (b : UInt8) : value (s ++ [b]) = addDigit (value s) b := by
  rw [value, List.foldl_append]
  rfl

/-- More digits do not make a number smaller. -/
theorem le_foldl_addDigit (acc : Nat) (s : List UInt8) : acc ≤ s.foldl addDigit acc := by
  induction s generalizing acc with
  | nil => exact Nat.le_refl _
  | cons b s ih =>
    refine Nat.le_trans ?_ (ih (addDigit acc b))
    unfold addDigit
    omega

theorem value_le_append (s t : List UInt8) : value s ≤ value (s ++ t) := by
  rw [value, value, List.foldl_append]
  exact le_foldl_addDigit _ t

/-! ## Writing -/

theorem digits_of_lt {n : Nat} (h : n < 10) : digits n = [digit n] := by
  unfold digits
  split
  · rename_i h0
    rw [h0]
  · rename_i h0
    rw [Nat.digits_of_lt 10 n h0 h]
    rfl

/-- The last digit of a number of two or more. -/
theorem digits_step {n : Nat} (h : 10 ≤ n) : digits n = digits (n / 10) ++ [digit (n % 10)] := by
  rw [digits, if_neg (by omega), digits, if_neg (by omega),
    Nat.digits_def' (by decide) (by omega), List.reverse_cons, List.map_append]
  rfl

theorem value_digits (n : Nat) : value (digits n) = n := by
  induction n using Nat.strongRecOn with
  | ind n ih =>
    by_cases h : n < 10
    · rw [digits_of_lt h, value, List.foldl_cons, List.foldl_nil, addDigit_digit 0 h, Nat.zero_mul,
        Nat.zero_add]
    · rw [digits_step (by omega), value_snoc, ih (n / 10) (by omega),
        addDigit_digit _ (Nat.mod_lt n (by decide))]
      omega

theorem isDigit_digits (n : Nat) : ∀ b ∈ digits n, IsDigit b := by
  intro b hb
  unfold digits at hb
  split at hb
  · rw [List.mem_singleton.1 hb]
    exact isDigit_digit (by decide)
  · obtain ⟨d, hd, rfl⟩ := List.mem_map.1 hb
    exact isDigit_digit (Nat.digits_lt_base (by decide) (List.mem_reverse.1 hd))

theorem digits_ne_nil (n : Nat) : digits n ≠ [] := by
  by_cases h : n < 10
  · rw [digits_of_lt h]
    exact List.cons_ne_nil _ _
  · rw [digits_step (by omega)]
    exact List.concat_ne_nil _ _

theorem length_digits_le {n k : Nat} (hk : 0 < k) (h : n < 10 ^ k) : (digits n).length ≤ k := by
  unfold digits
  split
  · exact hk
  · rw [List.length_map, List.length_reverse]
    exact (Nat.digits_length_le_iff (by decide) n).2 h

/-- The first digit of a number above 0 is not 0. -/
theorem head?_digits {n : Nat} (h : n ≠ 0) : (digits n).head? ≠ some (digit 0) := by
  induction n using Nat.strongRecOn with
  | ind n ih =>
    by_cases hlt : n < 10
    · rw [digits_of_lt hlt]
      intro heq
      have hd := congrArg UInt8.toNat (Option.some.inj heq)
      rw [toNat_digit hlt, toNat_digit (by decide)] at hd
      omega
    · rw [digits_step (by omega), List.head?_append_of_ne_nil _ (digits_ne_nil _)]
      exact ih (n / 10) (by omega) (by omega)

theorem canonical_digits (n : Nat) : Canonical (digits n) where
  ne_nil := digits_ne_nil n
  isDigit := isDigit_digits n
  head h := by
    by_cases h0 : n = 0
    · rw [h0]
      rfl
    · exact absurd h (head?_digits h0)

/-- A canonical text is the text of its value. -/
theorem digits_value {s : List UInt8} (h : Canonical s) : digits (value s) = s := by
  induction s using List.reverseRecOn with
  | nil => exact absurd rfl h.ne_nil
  | append_singleton s b ih =>
    have hb := h.isDigit b (List.mem_append_right s List.mem_cons_self)
    have hlt : b.toNat - 0x30 < 10 := by
      rw [isDigit_iff] at hb
      omega
    rw [value_snoc, addDigit]
    by_cases hnil : s = []
    · subst hnil
      rw [show value [] = 0 from rfl, Nat.zero_mul, Nat.zero_add, digits_of_lt hlt, digit_sub hb]
      rfl
    · -- what is in front of the last digit is canonical, and not the text of 0
      have hhead : s.head? ≠ some (digit 0) := by
        intro h0
        have hall := h.head (by rw [List.head?_append_of_ne_nil _ hnil, h0])
        have hlen := congrArg List.length hall
        rw [List.length_append, List.length_singleton, List.length_singleton] at hlen
        exact hnil (List.length_eq_zero_iff.1 (by omega))
      have hs : Canonical s :=
        ⟨hnil, fun x hx => h.isDigit x (List.mem_append_left _ hx), fun h0 => absurd h0 hhead⟩
      have hpos : value s ≠ 0 := by
        intro h0
        have hs0 := ih hs
        rw [h0] at hs0
        rw [← hs0] at hhead
        exact hhead rfl
      rw [digits_step (by omega), show (value s * 10 + (b.toNat - 0x30)) / 10 = value s by omega,
        show (value s * 10 + (b.toNat - 0x30)) % 10 = b.toNat - 0x30 by omega, ih hs, digit_sub hb]

/-- The front of a canonical text is canonical. -/
theorem Canonical.take {s : List UInt8} (h : Canonical s) {k : Nat} (hk : 0 < k) :
    Canonical (s.take k) where
  ne_nil := by
    rw [Ne, List.take_eq_nil_iff]
    rintro (h0 | hnil)
    · omega
    · exact h.ne_nil hnil
  isDigit b hb := h.isDigit b (List.mem_of_mem_take hb)
  head h0 := by
    obtain ⟨j, rfl⟩ := Nat.exists_eq_succ_of_ne_zero (Nat.ne_of_gt hk)
    rw [List.head?_take, if_neg (Nat.succ_ne_zero j)] at h0
    rw [h.head h0, List.take_succ_cons, List.take_nil]

end AeroOS.Decimal
