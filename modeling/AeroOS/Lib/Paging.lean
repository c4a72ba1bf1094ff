import Mathlib.Data.Nat.Bitwise
import AeroOS.Lib.Bytes

/-!
# AMD64 page tables

A page table is a frame of 512 little-endian entries in a byte store.  An entry
holds the address of a frame (bits 12 to 51) and flags (the other bits).

* `addr_or`, `flags_or`: an entry is put together from a frame and flags, and
  taken apart again.
* `entry_*`: what reading an entry gives after a write to a table, to a frame
  that is not the table, or after a frame was zeroed.
* `reach` follows the present entries of a four-level table from its root.  A
  path is the list of the indices, the deepest one first.  `leaf` is the entry
  that maps a page.
* `Tree` says that the tables under some entries of the root form a tree that
  nothing else in the table shares, and that the frames of the table are not
  free.
-/

namespace AeroOS.Paging

open AeroOS.Bytes

/-! ## Entries -/

/-- The bits of an entry that hold the address of a frame. -/
def ADDR_MASK : Nat := 0x000ffffffffff000

/-- The bits of an entry that hold flags. -/
def FLAGS_MASK : Nat := 0xfff0000000000fff

def PRESENT : Nat := 1
def WRITABLE : Nat := 2
def USER_ACCESSIBLE : Nat := 4
def HUGE_PAGE : Nat := 0x80

/-- The address in an entry. -/
def addr (e : Nat) : Nat := e &&& ADDR_MASK

/-- The flags of an entry. -/
def flags (e : Nat) : Nat := e &&& FLAGS_MASK

def present (e : Nat) : Bool := e.testBit 0
def writable (e : Nat) : Bool := e.testBit 1
def user (e : Nat) : Bool := e.testBit 2
def huge (e : Nat) : Bool := e.testBit 7

/-- An address that an entry can hold. -/
def IsFrame (f : Nat) : Prop := addr f = f

/-- Flags that leave the address bits alone. -/
def IsFlags (fl : Nat) : Prop := flags fl = fl

instance (f : Nat) : Decidable (IsFrame f) := inferInstanceAs (Decidable (_ = _))
instance (f : Nat) : Decidable (IsFlags f) := inferInstanceAs (Decidable (_ = _))

theorem addr_eq (e : Nat) : addr e = e / 2 ^ 12 % 2 ^ 40 * 2 ^ 12 := by
  have hmask : ADDR_MASK = (2 ^ 40 - 1) * 2 ^ 12 := by decide
  apply Nat.eq_of_testBit_eq
  intro i
  rw [addr, hmask, Nat.testBit_and, Nat.testBit_mul_two_pow, Nat.testBit_mul_two_pow,
    Nat.testBit_two_pow_sub_one, Nat.testBit_mod_two_pow, Nat.testBit_div_two_pow]
  by_cases h : 12 ≤ i
  · simp [h, Bool.and_comm]
  · simp [h]

theorem isFrame_addr (e : Nat) : IsFrame (addr e) := by
  rw [IsFrame, addr, addr, Nat.land_assoc, Nat.and_self]

theorem IsFrame.mod {f : Nat} (h : IsFrame f) : f % 4096 = 0 := by
  rw [← h, addr_eq]
  omega

theorem IsFrame.lt {f : Nat} (h : IsFrame f) : f < 2 ^ 52 := by
  rw [← h, addr_eq]
  omega

theorem IsFlags.addr_eq_zero {fl : Nat} (h : IsFlags fl) : addr fl = 0 := by
  rw [← h, flags, addr, Nat.land_assoc, show FLAGS_MASK &&& ADDR_MASK = 0 by decide,
    Nat.and_zero]

theorem IsFrame.flags_eq_zero {f : Nat} (h : IsFrame f) : flags f = 0 := by
  rw [← h, flags, addr, Nat.land_assoc, show ADDR_MASK &&& FLAGS_MASK = 0 by decide,
    Nat.and_zero]

theorem isFlags_flags (e : Nat) : IsFlags (flags e) := by
  rw [IsFlags, flags, flags, Nat.land_assoc, Nat.and_self]

/-- The low flags of `fl`. -/
theorem isFlags_and {fl : Nat} (h : IsFlags fl) (b : Nat) : IsFlags (fl &&& b) := by
  rw [IsFlags, flags, Nat.land_assoc, Nat.land_comm b, ← Nat.land_assoc]
  exact congrArg (· &&& b) h

theorem addr_lor (e fl : Nat) (h : IsFlags fl) : addr (e ||| fl) = addr e := by
  rw [addr, Nat.and_or_distrib_right]
  show addr e ||| addr fl = _
  rw [h.addr_eq_zero, Nat.or_zero]

theorem addr_or {f fl : Nat} (hf : IsFrame f) (h : IsFlags fl) : addr (f ||| fl) = f := by
  rw [addr_lor f fl h, hf]

theorem flags_or {f fl : Nat} (hf : IsFrame f) (h : IsFlags fl) : flags (f ||| fl) = fl := by
  rw [flags, Nat.and_or_distrib_right]
  show flags f ||| flags fl = _
  rw [hf.flags_eq_zero, Nat.zero_or, h]

/-- A frame has no bit below bit 12. -/
theorem IsFrame.testBit {f : Nat} (h : IsFrame f) {i : Nat} (hi : i < 12) :
    f.testBit i = false := by
  rw [← h, addr, Nat.testBit_and, show ADDR_MASK = (2 ^ 40 - 1) * 2 ^ 12 by decide,
    Nat.testBit_mul_two_pow]
  simp [show ¬ 12 ≤ i by omega]

/-- The flags of an entry that are below bit 12 are bits of the entry. -/
theorem testBit_flags (e : Nat) {i : Nat} (hi : i < 12) : (flags e).testBit i = e.testBit i := by
  have hmask : FLAGS_MASK.testBit i = true := by
    revert i
    decide
  rw [flags, Nat.testBit_and, hmask, Bool.and_true]

@[simp] theorem present_flags (e : Nat) : present (flags e) = present e := testBit_flags e (by decide)
@[simp] theorem user_flags (e : Nat) : user (flags e) = user e := testBit_flags e (by decide)

theorem present_or {f : Nat} (h : IsFrame f) (fl : Nat) : present (f ||| fl) = present fl := by
  rw [present, Nat.testBit_or, h.testBit (by decide), Bool.false_or, present]

theorem user_or {f : Nat} (h : IsFrame f) (fl : Nat) : user (f ||| fl) = user fl := by
  rw [user, Nat.testBit_or, h.testBit (by decide), Bool.false_or, user]

theorem huge_or {f : Nat} (h : IsFrame f) (fl : Nat) : huge (f ||| fl) = huge fl := by
  rw [huge, Nat.testBit_or, h.testBit (by decide), Bool.false_or, huge]

theorem present_lor {e : Nat} (h : present e = true) (fl : Nat) : present (e ||| fl) = true := by
  rw [present, Nat.testBit_or, ← present, h, Bool.true_or]

/-- The flags that an entry for a table takes over from the flags of the page. -/
def parentFlags (fl : Nat) : Nat := fl &&& 7

theorem isFlags_parentFlags {fl : Nat} (h : IsFlags fl) : IsFlags (parentFlags fl) :=
  isFlags_and h 7

theorem present_parentFlags (fl : Nat) : present (parentFlags fl) = present fl := by
  rw [present, parentFlags, Nat.testBit_and, present, show Nat.testBit 7 0 = true by decide,
    Bool.and_true]

theorem huge_parentFlags (fl : Nat) : huge (parentFlags fl) = false := by
  rw [huge, parentFlags, Nat.testBit_and, show Nat.testBit 7 7 = false by decide, Bool.and_false]

theorem huge_lor_parentFlags (e fl : Nat) : huge (e ||| parentFlags fl) = huge e := by
  rw [huge, Nat.testBit_or, ← huge, ← huge, huge_parentFlags, Bool.or_false]

theorem IsFlags.lt {fl : Nat} (h : IsFlags fl) : fl < 2 ^ 64 := by
  rw [← h]
  exact Nat.lt_of_le_of_lt Nat.and_le_right (by decide)

theorem or_lt {f fl : Nat} (hf : IsFrame f) (h : IsFlags fl) : f ||| fl < 2 ^ 64 :=
  Nat.or_lt_two_pow (Nat.lt_trans hf.lt (by decide)) h.lt

/-! ## Tables in memory -/

/-- The byte is in the frame. -/
def InFrame (f x : Nat) : Prop := f ≤ x ∧ x < f + 4096

/-- `InFrame` as a test of numbers. -/
def inFrame (f x : Nat) : Bool := f.ble x && x.blt (f + 4096)

theorem inFrame_iff {f x : Nat} : inFrame f x = true ↔ InFrame f x := by
  rw [inFrame, Bool.and_eq_true, Nat.ble_eq, Nat.blt_eq, InFrame]

instance (f x : Nat) : Decidable (InFrame f x) := decidable_of_iff _ inFrame_iff

/-- The entry `i` of the table `t`. -/
def entry (m : Store) (t i : Nat) : Nat := leNat (readBytes m (t + 8 * i) 8)

/-- The store with the entry `i` of the table `t` set. -/
def setEntry (m : Store) (t i e : Nat) : Store := fun x =>
  bif (t + 8 * i).ble x && x.blt (t + 8 * i + 8) then (leBytes 8 e).getD (x - (t + 8 * i)) 0
  else m x

theorem setEntry_eq (m : Store) (t i e : Nat) :
    setEntry m t i e = writeBytes m (t + 8 * i) (leBytes 8 e) := by
  funext x
  unfold setEntry
  cases h : (t + 8 * i).ble x && x.blt (t + 8 * i + 8) with
  | true =>
    rw [Bool.and_eq_true, Nat.ble_eq, Nat.blt_eq] at h
    obtain ⟨k, rfl⟩ := Nat.exists_eq_add_of_le h.1
    rw [cond_true, Nat.add_sub_cancel_left, writeBytes_in _ _ (by simp; omega)]
  | false =>
    rw [Bool.and_eq_false_iff, ← Bool.not_eq_true, ← Bool.not_eq_true, Nat.ble_eq, Nat.blt_eq] at h
    rw [cond_false, writeBytes_out _ (by simp; omega)]

/-- The store with the frame zeroed. -/
def zeroFrame (m : Store) (f : Nat) : Store := fun x => bif inFrame f x then 0 else m x

/-- The store with the frame `src` copied to the frame `dst`. -/
def copyFrame (m : Store) (src dst : Nat) : Store :=
  fun x => bif inFrame dst x then m (src + (x - dst)) else m x

/-- Two frames with a byte in common are one frame. -/
theorem IsFrame.eq_of_inFrame {f g x : Nat} (hf : IsFrame f) (hg : IsFrame g)
    (h : InFrame f x) (h' : InFrame g x) : f = g := by
  have h1 := hf.mod
  have h2 := hg.mod
  unfold InFrame at h h'
  omega

theorem entry_lt (m : Store) (t i : Nat) : entry m t i < 2 ^ 64 := by
  have h := leNat_lt (readBytes m (t + 8 * i) 8)
  rwa [readBytes_length] at h

/-- A table is what its bytes are. -/
theorem entry_congr {m m' : Store} {t i : Nat} (hi : i < 512)
    (h : ∀ x, InFrame t x → m x = m' x) : entry m t i = entry m' t i :=
  congrArg leNat (readBytes_congr fun x h1 h2 => h x ⟨by omega, by omega⟩)

theorem setEntry_out (m : Store) {t i : Nat} (e : Nat) {x : Nat} (hi : i < 512)
    (h : ¬ InFrame t x) : setEntry m t i e x = m x := by
  rw [setEntry_eq]
  refine writeBytes_out m ?_
  unfold InFrame at h
  rw [leBytes_length]
  omega

@[simp] theorem entry_setEntry (m : Store) (t i : Nat) {e : Nat} (he : e < 2 ^ 64) :
    entry (setEntry m t i e) t i = e := by
  have h := readBytes_writeBytes m (t + 8 * i) (leBytes 8 e)
  rw [leBytes_length] at h
  rw [entry, setEntry_eq, h, leNat_leBytes_of_lt he]

theorem entry_setEntry_ne (m : Store) (t : Nat) {i j : Nat} (e : Nat) (h : i ≠ j) :
    entry (setEntry m t i e) t j = entry m t j := by
  rw [entry, setEntry_eq, readBytes_writeBytes_disjoint _ (by rw [leBytes_length]; omega), entry]

/-- A write to a table leaves the entries of the other tables alone. -/
theorem entry_setEntry_other (m : Store) {t g i j : Nat} (e : Nat) (ht : IsFrame t)
    (hg : IsFrame g) (h : g ≠ t) (hi : i < 512) (hj : j < 512) :
    entry (setEntry m t i e) g j = entry m g j :=
  entry_congr hj fun _ hx => setEntry_out m e hi fun hx' => h (hg.eq_of_inFrame ht hx hx')

theorem zeroFrame_out (m : Store) {f x : Nat} (h : ¬ InFrame f x) : zeroFrame m f x = m x := by
  rw [zeroFrame, Bool.eq_false_iff.2 (mt inFrame_iff.1 h), cond_false]

theorem zeroFrame_in (m : Store) {f x : Nat} (h : InFrame f x) : zeroFrame m f x = 0 := by
  rw [zeroFrame, inFrame_iff.2 h, cond_true]

theorem entry_zeroFrame (m : Store) {f g j : Nat} (hf : IsFrame f) (hg : IsFrame g) (h : g ≠ f)
    (hj : j < 512) : entry (zeroFrame m f) g j = entry m g j :=
  entry_congr hj fun _ hx => zeroFrame_out m fun hx' => h (hg.eq_of_inFrame hf hx hx')

theorem entry_of_zero {m : Store} {t i : Nat} (h : ∀ k, k < 8 → m (t + 8 * i + k) = 0) :
    entry m t i = 0 := by
  have hz : readBytes m (t + 8 * i) 8 = readBytes (fun _ => 0) 0 8 := by
    simp only [readBytes, List.map_inj_left, List.mem_range]
    exact h
  rw [entry, hz]
  rfl

/-- A frame of zeros is a table without entries. -/
theorem entry_eq_zero {m : Store} {f j : Nat} (hj : j < 512) (h : ∀ x, InFrame f x → m x = 0) :
    entry m f j = 0 := entry_of_zero fun _ _ => h _ ⟨by omega, by omega⟩

attribute [irreducible] entry

theorem copyFrame_out (m : Store) (src : Nat) {dst x : Nat} (h : ¬ InFrame dst x) :
    copyFrame m src dst x = m x := by
  rw [copyFrame, Bool.eq_false_iff.2 (mt inFrame_iff.1 h), cond_false]

theorem copyFrame_in (m : Store) (src : Nat) {dst x : Nat} (h : InFrame dst x) :
    copyFrame m src dst x = m (src + (x - dst)) := by
  rw [copyFrame, inFrame_iff.2 h, cond_true]

@[simp] theorem present_zero : present 0 = false := rfl

/-! ## Following a path -/

/-- The frame that a path leads to: a table, or the page at the fourth level.
A huge page ends no path of less than four indices. -/
def reach (m : Store) (t : Nat) : List Nat → Option Nat
  | [] => some t
  | i :: P =>
    match reach m t P with
    | none => none
    | some g =>
      if present (entry m g i) ∧ (huge (entry m g i) → P.length = 3) then
        some (addr (entry m g i))
      else none

/-- The entry that maps the page of a path of four indices. -/
def leaf (m : Store) (t : Nat) : List Nat → Option Nat
  | [] => none
  | i :: P =>
    match reach m t P with
    | none => none
    | some g => if present (entry m g i) then some (entry m g i) else none

theorem reach_bind (m : Store) (t i : Nat) (P : List Nat) :
    reach m t (i :: P) = (reach m t P).bind fun g =>
      if present (entry m g i) ∧ (huge (entry m g i) → P.length = 3) then
        some (addr (entry m g i))
      else none := by
  rw [reach]
  cases reach m t P <;> rfl

theorem reach_cons {m : Store} {t i f : Nat} {P : List Nat} :
    reach m t (i :: P) = some f ↔ ∃ g, reach m t P = some g ∧ present (entry m g i) = true ∧
      (huge (entry m g i) = true → P.length = 3) ∧ addr (entry m g i) = f := by
  rw [reach]
  cases reach m t P with
  | none => simp
  | some g => simp [and_assoc]

theorem leaf_cons {m : Store} {t i e : Nat} {P : List Nat} :
    leaf m t (i :: P) = some e ↔
      ∃ g, reach m t P = some g ∧ present (entry m g i) = true ∧ entry m g i = e := by
  rw [leaf]
  cases reach m t P with
  | none => simp
  | some g => simp

theorem leaf_of_reach {m : Store} {t i g : Nat} {P : List Nat} (h : reach m t P = some g) :
    leaf m t (i :: P) = if present (entry m g i) then some (entry m g i) else none := by
  rw [leaf, h]

theorem reach_isFrame {m : Store} {t f : Nat} {P : List Nat} (ht : IsFrame t)
    (h : reach m t P = some f) : IsFrame f := by
  cases P with
  | nil =>
    rw [← Option.some.inj h]
    exact ht
  | cons i P =>
    obtain ⟨g, -, -, -, rfl⟩ := reach_cons.1 h
    exact isFrame_addr _

/-- The page of a path is the frame in the entry that maps it. -/
theorem reach_of_leaf {m : Store} {t e : Nat} {P : List Nat} (hlen : P.length = 4)
    (h : leaf m t P = some e) : reach m t P = some (addr e) := by
  cases P with
  | nil => simp at hlen
  | cons i P =>
    obtain ⟨g, hg, hp, rfl⟩ := leaf_cons.1 h
    exact reach_cons.2 ⟨g, hg, hp, fun _ => by simpa using hlen, rfl⟩

/-! ## Tables that are owned -/

/-- Physical memory with the stack of its free frames. -/
structure Phys where
  mem : Store
  free : List Nat

/-- The indices are indices of entries, and the entry of the root is in `top`. -/
def Route (top : Nat → Prop) (P : List Nat) : Prop :=
  (∀ i ∈ P, i < 512) ∧ ∀ i, P.getLast? = some i → top i

/-- The path starts at an owned entry of the root. -/
def Own (own : Nat → Prop) (P : List Nat) : Prop := Route own P ∧ P.length ≤ 4

/-- The path leads to a table under an entry in `own` or in `kern`, or to a page
that is owned. -/
def Held (own kern : Nat → Prop) (P : List Nat) : Prop :=
  Route (fun i => own i ∨ kern i) P ∧ (P.length ≤ 3 ∨ Own own P)

variable {own kern top : Nat → Prop} {i t : Nat} {P Q : List Nat}

theorem Route.nil : Route top [] := ⟨by simp, by simp⟩

theorem Route.suffix (h : Route top P) (hQ : Q <:+ P) : Route top Q := by
  obtain ⟨R, rfl⟩ := hQ
  refine ⟨fun j hj => h.1 j (List.mem_append_right _ hj), fun j hj => h.2 j ?_⟩
  cases Q with
  | nil => simp at hj
  | cons k Q => rw [List.getLast?_append, hj, Option.some_or]

theorem Route.mono {top' : Nat → Prop} (h : Route top P) (hsub : ∀ i, top i → top' i) :
    Route top' P := ⟨h.1, fun i hi => hsub i (h.2 i hi)⟩

/-- A path starts at one entry of the root. -/
theorem Route.cases_or (h : Route (fun i => own i ∨ kern i) P) : Route own P ∨ Route kern P := by
  cases hlast : P.getLast? with
  | none => exact Or.inl ⟨h.1, fun i hi => by rw [hlast] at hi; cases hi⟩
  | some j =>
    have hj : ∀ i, P.getLast? = some i → i = j := fun i hi => by
      rw [hlast] at hi
      exact (Option.some.inj hi).symm
    exact (h.2 j hlast).imp (fun ho => ⟨h.1, fun i hi => hj i hi ▸ ho⟩)
      fun hk => ⟨h.1, fun i hi => hj i hi ▸ hk⟩

theorem Own.nil : Own own [] := ⟨Route.nil, by simp⟩

theorem Own.held (h : Own own P) : Held own kern P := ⟨h.1.mono fun _ => Or.inl, Or.inr h⟩

theorem Held.nil : Held own kern [] := Own.nil.held

theorem Own.tail (h : Own own (i :: P)) : Own own P :=
  ⟨h.1.suffix (List.suffix_cons i P), Nat.le_of_succ_le h.2⟩

theorem Own.head (h : Own own (i :: P)) : i < 512 := h.1.1 i List.mem_cons_self

theorem Held.length (h : Held own kern (i :: P)) : P.length ≤ 3 := by
  rcases h.2 with h | h
  · exact Nat.le_of_succ_le h
  · exact Nat.le_of_succ_le_succ h.2

theorem Held.tail (h : Held own kern (i :: P)) : Held own kern P :=
  ⟨h.1.suffix (List.suffix_cons i P), Or.inl h.length⟩

theorem Held.head (h : Held own kern (i :: P)) : i < 512 := h.1.1 i List.mem_cons_self

/-- When no other entry is held, what is held is owned. -/
theorem Held.owned (h : Held own (fun _ => False) P) : Own own P := by
  refine ⟨h.1.mono fun _ hi => hi.resolve_right id, ?_⟩
  rcases h.2 with h3 | ho
  · exact Nat.le_succ_of_le h3
  · exact ho.2

/-- The tables and pages under the owned entries of the root `t` form a tree.
No other path of the table leads into it, no frame of the table is free, and an
entry of a table is unused or present. -/
structure Tree (own kern : Nat → Prop) (p : Phys) (t : Nat) : Prop where
  root : IsFrame t
  freeFrame : ∀ f ∈ p.free, IsFrame f
  freeNodup : p.free.Nodup
  unfree : ∀ P g, Held own kern P → reach p.mem t P = some g → g ∉ p.free
  apart : ∀ P Q g, Own own P → Held own kern Q → reach p.mem t P = some g →
    reach p.mem t Q = some g → P = Q
  unused : ∀ i P g, Held own kern (i :: P) → P.length < 3 → reach p.mem t P = some g →
    entry p.mem g i = 0 ∨ present (entry p.mem g i) = true
  small : ∀ i P g, Own own (i :: P) → P.length < 3 → reach p.mem t P = some g →
    huge (entry p.mem g i) = false

/-- A frame that was taken and that the table does not lead to yet. -/
structure Fresh (own kern : Nat → Prop) (p : Phys) (t f : Nat) : Prop where
  frame : IsFrame f
  taken : f ∉ p.free
  out : ∀ P, Held own kern P → reach p.mem t P ≠ some f
  zero : ∀ x, InFrame f x → p.mem x = 0

variable {p p' : Phys} {f fl g : Nat}

namespace Tree

/-- Two memories with the same entries in the tables have the same paths. -/
theorem reach_congr {m m' : Store}
    (h : ∀ P g i, Held own kern (i :: P) → reach m t P = some g → entry m' g i = entry m g i)
    (hP : Held own kern P) : reach m' t P = reach m t P := by
  induction P with
  | nil => rfl
  | cons i P ih =>
    rw [reach, reach, ih hP.tail]
    cases hg : reach m t P with
    | none => rfl
    | some g => simp only [h P g i hP hg]

/-- The tree does not depend on what is not in its tables. -/
theorem congr (T : Tree own kern p t) (hfree : p'.free <:+ p.free)
    (h : ∀ P g i, Held own kern (i :: P) → reach p.mem t P = some g →
      entry p'.mem g i = entry p.mem g i) : Tree own kern p' t := by
  have hr : ∀ {P}, Held own kern P → reach p'.mem t P = reach p.mem t P := fun hP => reach_congr h hP
  exact
    { root := T.root
      freeFrame := fun f hf => T.freeFrame f (hfree.subset hf)
      freeNodup := T.freeNodup.sublist hfree.sublist
      unfree := fun P g hP hg hf => T.unfree P g hP (hr hP ▸ hg) (hfree.subset hf)
      apart := fun P Q g hP hQ hg hg' => T.apart P Q g hP hQ (hr hP.held ▸ hg) (hr hQ ▸ hg')
      unused := fun i P g hP hlen hg => by
        rw [hr hP.tail] at hg
        rw [h P g i hP hg]
        exact T.unused i P g hP hlen hg
      small := fun i P g hP hlen hg => by
        rw [hr hP.held.tail] at hg
        rw [h P g i hP.held hg]
        exact T.small i P g hP hlen hg }

/-- Taking a frame off the stack and zeroing it. -/
theorem pop (T : Tree own kern p t) {rest : List Nat} (hfree : p.free = f :: rest) :
    Tree own kern ⟨zeroFrame p.mem f, rest⟩ t ∧ Fresh own kern ⟨zeroFrame p.mem f, rest⟩ t f ∧
      ∀ P, Held own kern P → reach (zeroFrame p.mem f) t P = reach p.mem t P := by
  have hf : f ∈ p.free := hfree ▸ List.mem_cons_self
  have hsame : ∀ P g i, Held own kern (i :: P) → reach p.mem t P = some g →
      entry (zeroFrame p.mem f) g i = entry p.mem g i := fun P g i hP hg =>
    entry_zeroFrame _ (T.freeFrame f hf) (reach_isFrame T.root hg)
      (fun he => T.unfree P g hP.tail hg (he ▸ hf)) hP.head
  refine ⟨T.congr (hfree ▸ List.suffix_cons f rest) hsame, ?_, fun P => reach_congr hsame⟩
  exact
    { frame := T.freeFrame f hf
      taken := (List.nodup_cons.1 (hfree ▸ T.freeNodup)).1
      out := fun P hP hr => by
        rw [reach_congr hsame hP] at hr
        exact T.unfree P f hP hr hf
      zero := fun x hx => zeroFrame_in _ hx }

/-- Zeroing a free frame changes no page. -/
theorem pop_leaf (T : Tree own kern p t) {rest : List Nat} (hfree : p.free = f :: rest)
    (hP : Own own P) : leaf (zeroFrame p.mem f) t P = leaf p.mem t P := by
  have hf : f ∈ p.free := hfree ▸ List.mem_cons_self
  cases P with
  | nil => rfl
  | cons i P =>
    rw [leaf, leaf, (T.pop hfree).2.2 P hP.held.tail]
    cases hg : reach p.mem t P with
    | none => rfl
    | some g =>
      have he : entry (zeroFrame p.mem f) g i = entry p.mem g i :=
        entry_zeroFrame _ (T.freeFrame f hf) (reach_isFrame T.root hg)
          (fun he => T.unfree P g hP.held.tail hg (he ▸ hf)) hP.head
      simp only [he]

/-- A write to a page of the tree changes no table. -/
theorem page_entry (T : Tree own kern p t) {m' : Store} (hP : Own own P) (h4 : P.length = 4)
    (hg : reach p.mem t P = some g) (hm : ∀ x, ¬ InFrame g x → m' x = p.mem x) {i k : Nat}
    (hQ : Held own kern (i :: Q)) (hk : reach p.mem t Q = some k) :
    entry m' k i = entry p.mem k i := by
  refine entry_congr hQ.head fun x hx => hm x fun hx' => ?_
  have hkg := (reach_isFrame T.root hk).eq_of_inFrame (reach_isFrame T.root hg) hx hx'
  have hPQ := T.apart P Q g hP hQ.tail hg (hkg ▸ hk)
  have := hQ.length
  rw [← hPQ] at this
  omega

theorem page_write (T : Tree own kern p t) {m' : Store} (hP : Own own P) (h4 : P.length = 4)
    (hg : reach p.mem t P = some g) (hm : ∀ x, ¬ InFrame g x → m' x = p.mem x) :
    Tree own kern ⟨m', p.free⟩ t :=
  T.congr List.suffix_rfl fun _ _ _ hQ hk => T.page_entry hP h4 hg hm hQ hk

theorem page_reach (T : Tree own kern p t) {m' : Store} (hP : Own own P) (h4 : P.length = 4)
    (hg : reach p.mem t P = some g) (hm : ∀ x, ¬ InFrame g x → m' x = p.mem x)
    (hQ : Held own kern Q) : reach m' t Q = reach p.mem t Q :=
  reach_congr (fun _ _ _ hQ hk => T.page_entry hP h4 hg hm hQ hk) hQ

theorem page_leaf (T : Tree own kern p t) {m' : Store} (hP : Own own P) (h4 : P.length = 4)
    (hg : reach p.mem t P = some g) (hm : ∀ x, ¬ InFrame g x → m' x = p.mem x)
    (hQ : Own own Q) : leaf m' t Q = leaf p.mem t Q := by
  cases Q with
  | nil => rfl
  | cons i Q =>
    rw [leaf, leaf, T.page_reach hP h4 hg hm (hQ.held.tail)]
    cases hk : reach p.mem t Q with
    | none => rfl
    | some k => simp only [T.page_entry hP h4 hg hm hQ.held hk]

/-! ### Setting flags -/

section Raise

variable (T : Tree own kern p t) (hi : Held own kern (i :: Q)) (hlen : Q.length < 3)
  (hg : reach p.mem t Q = some g) (h0 : entry p.mem g i ≠ 0) (hfl : IsFlags fl)
include T hi hlen hg h0 hfl

/-- An entry of a table after its flags were set. -/
theorem raise_entry {k j : Nat} (hP : Held own kern (j :: P)) (hk : reach p.mem t P = some k) :
    entry (setEntry p.mem g i (entry p.mem g i ||| parentFlags fl)) k j = entry p.mem k j ∨
      Q.length < 3 ∧ k = g ∧ j = i ∧
        entry (setEntry p.mem g i (entry p.mem g i ||| parentFlags fl)) k j =
          entry p.mem k j ||| parentFlags fl := by
  have hkf := reach_isFrame T.root hk
  have hgf := reach_isFrame T.root hg
  by_cases hkg : k = g
  · subst hkg
    by_cases hj : j = i
    · subst hj
      refine Or.inr ⟨hlen, rfl, rfl, entry_setEntry _ _ _ ?_⟩
      exact Nat.or_lt_two_pow (entry_lt ..) (isFlags_parentFlags hfl).lt
    · exact Or.inl (entry_setEntry_ne _ _ _ (Ne.symm hj))
  · exact Or.inl (entry_setEntry_other _ _ hgf hkf hkg hi.head hP.head)

/-- Flags of an entry change no path. -/
theorem raise_reach (hP : Held own kern P) :
    reach (setEntry p.mem g i (entry p.mem g i ||| parentFlags fl)) t P = reach p.mem t P := by
  induction P with
  | nil => rfl
  | cons j P ih =>
    rw [reach, reach, ih hP.tail]
    cases hk : reach p.mem t P with
    | none => rfl
    | some k =>
      rcases raise_entry T hi hlen hg h0 hfl hP hk with he | ⟨-, rfl, rfl, he⟩
      · simp only [he]
      · have hpres := (T.unused _ _ _ hi hlen hg).resolve_left h0
        simp only [he, huge_lor_parentFlags, addr_lor _ _ (isFlags_parentFlags hfl), hpres,
          present_lor hpres]

/-- Setting flags of an entry for a table. -/
theorem raise :
    Tree own kern ⟨setEntry p.mem g i (entry p.mem g i ||| parentFlags fl), p.free⟩ t := by
  have hr : ∀ {P}, Held own kern P →
      reach (setEntry p.mem g i (entry p.mem g i ||| parentFlags fl)) t P = reach p.mem t P :=
    fun hP => raise_reach T hi hlen hg h0 hfl hP
  have hpres := (T.unused _ _ _ hi hlen hg).resolve_left h0
  exact
    { root := T.root
      freeFrame := T.freeFrame
      freeNodup := T.freeNodup
      unfree := fun P k hP hk => T.unfree P k hP (hr hP ▸ hk)
      apart := fun P P' k hP hP' hk hk' => T.apart P P' k hP hP' (hr hP.held ▸ hk) (hr hP' ▸ hk')
      unused := fun j P k hP hlen' hk => by
        rw [hr hP.tail] at hk
        rcases raise_entry T hi hlen hg h0 hfl hP hk with he | ⟨-, rfl, rfl, he⟩
        · rw [he]
          exact T.unused j P k hP hlen' hk
        · rw [he]
          exact Or.inr (present_lor hpres _)
      small := fun j P k hP hlen' hk => by
        rw [hr hP.held.tail] at hk
        have hs := T.small j P k hP hlen' hk
        rcases raise_entry T hi hlen hg h0 hfl hP.held hk with he | ⟨-, rfl, rfl, he⟩
        · rw [he, hs]
        · rw [he, huge_lor_parentFlags, hs] }

/-- Flags of tables change no page. -/
theorem raise_leaf (hP : Own own P) (h4 : P.length = 4) :
    leaf (setEntry p.mem g i (entry p.mem g i ||| parentFlags fl)) t P = leaf p.mem t P := by
  cases P with
  | nil => rfl
  | cons j P =>
    rw [leaf, leaf, raise_reach T hi hlen hg h0 hfl hP.held.tail]
    cases hk : reach p.mem t P with
    | none => rfl
    | some k =>
      rcases raise_entry T hi hlen hg h0 hfl hP.held hk with he | ⟨-, rfl, -, -⟩
      · simp only [he]
      · have hPQ := T.apart P Q k hP.tail hi.tail hk hg
        rw [List.length_cons, hPQ] at h4
        omega

end Raise

/-! ### Linking a frame -/

section Link

variable (T : Tree own kern p t) (hF : Fresh own kern p t f) (hQ : Held own kern Q) (hlen : Q.length ≤ 3)
  (hi : i < 512) (hg : reach p.mem t Q = some g) (h0 : entry p.mem g i = 0) (hfl : IsFlags fl)
  (hpres : present fl = true)
include T hF hQ hi hg h0 hfl

/-- The entries of the tables, old and new, after a frame was linked. -/
theorem link_entry {k j : Nat} (hk : (∃ P, Held own kern (j :: P) ∧ reach p.mem t P = some k) ∨
      k = f ∧ j < 512) :
    k = f ∧ entry (setEntry p.mem g i (f ||| fl)) k j = 0 ∨
      k ≠ f ∧ k = g ∧ j = i ∧ entry (setEntry p.mem g i (f ||| fl)) k j = f ||| fl ∨
      k ≠ f ∧ ¬ (k = g ∧ j = i) ∧
        entry (setEntry p.mem g i (f ||| fl)) k j = entry p.mem k j := by
  have hgf := reach_isFrame T.root hg
  have hfg : f ≠ g := fun he => hF.out Q hQ (he ▸ hg)
  rcases hk with ⟨P, hP, hk⟩ | ⟨rfl, hj⟩
  · have hkf : k ≠ f := fun he => hF.out P hP.tail (he ▸ hk)
    by_cases h : k = g ∧ j = i
    · obtain ⟨rfl, rfl⟩ := h
      exact Or.inr (Or.inl ⟨hkf, rfl, rfl, entry_setEntry _ _ _ (or_lt hF.frame hfl)⟩)
    · refine Or.inr (Or.inr ⟨hkf, h, ?_⟩)
      by_cases hkg : k = g
      · subst hkg
        exact entry_setEntry_ne _ _ _ fun he => h ⟨rfl, he.symm⟩
      · exact entry_setEntry_other _ _ hgf (reach_isFrame T.root hk) hkg hi hP.head
  · refine Or.inl ⟨rfl, ?_⟩
    rw [entry_setEntry_other _ _ hgf hF.frame hfg hi hj]
    exact entry_eq_zero hj hF.zero

/-- A path after the link is a path before it, or leads to the new frame. -/
theorem link_reach {k : Nat} (hP : Held own kern P)
    (hk : reach (setEntry p.mem g i (f ||| fl)) t P = some k) :
    reach p.mem t P = some k ∨ k = f ∧ ∃ P0, P = i :: P0 ∧ reach p.mem t P0 = some g := by
  induction P generalizing k with
  | nil => exact Or.inl hk
  | cons j P ih =>
    obtain ⟨k0, hk0, hp, hh, rfl⟩ := reach_cons.1 hk
    have hcases := ih hP.tail hk0
    have hold : (∃ P, Held own kern (j :: P) ∧ reach p.mem t P = some k0) ∨ k0 = f ∧ j < 512 :=
      hcases.imp (fun h => ⟨P, hP, h⟩) fun h => ⟨h.1, hP.head⟩
    rcases link_entry T hF hQ hi hg h0 hfl hold with ⟨-, he⟩ | ⟨hne, rfl, rfl, he⟩ | ⟨hne, -, he⟩
    · rw [he] at hp
      simp at hp
    · rw [he, addr_or hF.frame hfl]
      exact Or.inr ⟨rfl, P, rfl, hcases.resolve_right fun h => hne h.1⟩
    · rw [he] at hp hh ⊢
      exact Or.inl (reach_cons.2 ⟨k0, hcases.resolve_right fun h => hne h.1, hp, hh, rfl⟩)

/-- A link cuts no path. -/
theorem link_mono {k : Nat} (hP : Held own kern P) (hk : reach p.mem t P = some k) :
    reach (setEntry p.mem g i (f ||| fl)) t P = some k := by
  induction P generalizing k with
  | nil => exact hk
  | cons j P ih =>
    obtain ⟨k0, hk0, hp, hh, rfl⟩ := reach_cons.1 hk
    rcases link_entry T hF hQ hi hg h0 hfl (Or.inl ⟨P, hP, hk0⟩) with
      ⟨rfl, -⟩ | ⟨-, rfl, rfl, -⟩ | ⟨-, -, he⟩
    · exact absurd hk0 (hF.out P hP.tail)
    · rw [h0] at hp
      simp at hp
    · refine reach_cons.2 ⟨k0, ih hP.tail hk0, ?_⟩
      rw [he]
      exact ⟨hp, hh, rfl⟩

include hpres in
/-- The new path. -/
theorem link_new (hsmall : Q.length < 3 → huge fl = false) (hlen : Q.length ≤ 3) :
    reach (setEntry p.mem g i (f ||| fl)) t (i :: Q) = some f := by
  have he := entry_setEntry p.mem g i (or_lt hF.frame hfl)
  refine reach_cons.2 ⟨g, link_mono T hF hQ hi hg h0 hfl hQ hg, ?_, fun hh => ?_, ?_⟩
  · rw [he, present_or hF.frame, hpres]
  · rw [he, huge_or hF.frame] at hh
    by_contra hne
    rw [hsmall (by omega)] at hh
    exact Bool.noConfusion hh
  · rw [he, addr_or hF.frame hfl]

include hpres in
/-- Linking a frame that was taken. -/
theorem link (hsmall : Q.length < 3 → huge fl = false) :
    Tree own kern ⟨setEntry p.mem g i (f ||| fl), p.free⟩ t := by
  have hr : ∀ {P k}, Held own kern P → reach (setEntry p.mem g i (f ||| fl)) t P = some k →
      reach p.mem t P = some k ∨ k = f ∧ ∃ P0, P = i :: P0 ∧ reach p.mem t P0 = some g :=
    fun hP hk => link_reach T hF hQ hi hg h0 hfl hP hk
  have hentry : ∀ {P j k}, Held own kern (j :: P) →
      reach (setEntry p.mem g i (f ||| fl)) t P = some k → _ := fun {P j k} hP hk =>
    link_entry T hF hQ hi hg h0 hfl
      ((hr hP.tail hk).imp (fun h => ⟨P, hP, h⟩) fun h => ⟨h.1, hP.head⟩)
  exact
    { root := T.root
      freeFrame := T.freeFrame
      freeNodup := T.freeNodup
      unfree := fun P k hP hk => by
        rcases hr hP hk with h | ⟨rfl, -⟩
        · exact T.unfree P k hP h
        · exact hF.taken
      apart := fun P P' k hP hP' hk hk' => by
        rcases hr hP.held hk with h | ⟨rfl, P0, rfl, hP0⟩ <;>
          rcases hr hP' hk' with h' | ⟨hkf, P0', rfl, hP0'⟩
        · exact T.apart P P' k hP hP' h h'
        · exact absurd (hkf ▸ h) (hF.out P hP.held)
        · exact absurd h' (hF.out P' hP')
        · rw [T.apart P0 P0' g hP.tail hP'.tail hP0 hP0']
      unused := fun j P k hP hlen' hk => by
        rcases hentry hP hk with ⟨-, he⟩ | ⟨-, -, -, he⟩ | ⟨hne, -, he⟩
        · exact Or.inl he
        · rw [he, present_or hF.frame]
          exact Or.inr hpres
        · rw [he]
          exact T.unused j P k hP hlen' ((hr hP.tail hk).resolve_right fun h => hne h.1)
      small := fun j P k hP hlen' hk => by
        rcases hentry hP.held hk with ⟨-, he⟩ | ⟨hne, rfl, rfl, he⟩ | ⟨hne, -, he⟩
        · rw [he]
          rfl
        · have hk' := (hr hP.held.tail hk).resolve_right fun h => hne h.1
          rw [he, huge_or hF.frame]
          exact hsmall (T.apart P Q k hP.tail hQ hk' hg ▸ hlen')
        · rw [he]
          exact T.small j P k hP hlen' ((hr hP.held.tail hk).resolve_right fun h => hne h.1) }

/-- A link changes the page of its own path only. -/
theorem link_leaf (hP : Own own P) (h4 : P.length = 4) (hne : P ≠ i :: Q) :
    leaf (setEntry p.mem g i (f ||| fl)) t P = leaf p.mem t P := by
  cases P with
  | nil => rfl
  | cons j P =>
    have hmem : ∀ e, leaf (setEntry p.mem g i (f ||| fl)) t (j :: P) = some e ↔
        leaf p.mem t (j :: P) = some e := by
      intro e
      constructor
      · intro h
        obtain ⟨k, hk, hp, rfl⟩ := leaf_cons.1 h
        have hcases := link_reach T hF hQ hi hg h0 hfl hP.held.tail hk
        have hold : (∃ P, Held own kern (j :: P) ∧ reach p.mem t P = some k) ∨ k = f ∧ j < 512 :=
          hcases.imp (fun h => ⟨P, hP.held, h⟩) fun h => ⟨h.1, hP.head⟩
        rcases link_entry T hF hQ hi hg h0 hfl hold with ⟨-, he⟩ | ⟨hkf, rfl, rfl, -⟩ | ⟨hkf, -, he⟩
        · rw [he] at hp
          simp at hp
        · have hk' := hcases.resolve_right fun h => hkf h.1
          exact absurd (congrArg (j :: ·) (T.apart P Q k hP.tail hQ hk' hg)) hne
        · rw [he] at hp ⊢
          exact leaf_cons.2 ⟨k, hcases.resolve_right fun h => hkf h.1, hp, rfl⟩
      · intro h
        obtain ⟨k, hk, hp, rfl⟩ := leaf_cons.1 h
        have hk' := link_mono T hF hQ hi hg h0 hfl hP.held.tail hk
        rcases link_entry T hF hQ hi hg h0 hfl (Or.inl ⟨P, hP.held, hk⟩) with
          ⟨rfl, -⟩ | ⟨-, rfl, rfl, -⟩ | ⟨-, -, he⟩
        · exact absurd hk (hF.out P hP.held.tail)
        · exact absurd (congrArg (j :: ·) (T.apart P Q k hP.tail hQ hk hg)) hne
        · refine leaf_cons.2 ⟨k, hk', ?_⟩
          rw [he]
          exact ⟨hp, rfl⟩
    exact Option.ext hmem

end Link

end Tree

end AeroOS.Paging
