import AeroOS.Build.ReadBack
import Mathlib.Data.List.TakeWhile

/-!
# FAT32: short names there and back

`from_short_name` gives the name that a short name is listed under, and
`to_short_name` makes a short name of any name.

* `toShortName_split` and `toShortName_whole` are `to_short_name` by its last dot.
* `PlainName`: the short names of the 8.3 shape.  `relisted_eq_iff`: of the
  upper-case ASCII names exactly these are found again under their listed name.
* `Fits83`: the names of the 8.3 shape.  `fromShortName_toShortName`: they are
  listed in upper case, so two of them with one short name differ in case alone.
-/

namespace AeroOS.Fat32

open Build

variable {upper : List UInt8 → List UInt8} {name base ext short : List UInt8} {n : Nat}

/-! ## The last dot -/

theorem rfindDot_eq_none : rfindDot name = none ↔ 0x2E ∉ name := by
  rw [rfindDot, List.find?_eq_none, List.mem_iff_getElem]
  constructor
  · rintro h ⟨i, hi, heq⟩
    refine h i (List.mem_reverse.mpr (List.mem_range.mpr hi)) ?_
    rw [List.getD_eq_getElem _ _ hi, heq]
    rfl
  · intro h i hi hdot
    have hlt := List.mem_range.mp (List.mem_reverse.mp hi)
    rw [List.getD_eq_getElem _ _ hlt, beq_iff_eq] at hdot
    exact h ⟨i, hlt, hdot⟩

/-- The last dot is the one with no dot behind it. -/
theorem rfindDot_append (h : 0x2E ∉ ext) : rfindDot (base ++ 0x2E :: ext) = some base.length := by
  have hlen : (base ++ 0x2E :: ext).length = base.length + 1 + ext.length := by
    rw [List.length_append, List.length_cons]
    omega
  rw [rfindDot, hlen, List.range_add, List.range_succ, List.reverse_append, List.reverse_append,
    List.find?_append]
  have hnone : ((List.range ext.length).map (base.length + 1 + ·)).reverse.find?
      (fun i => (base ++ 0x2E :: ext).getD i 0 == 0x2E) = none := by
    rw [List.find?_eq_none]
    intro i hi hdot
    obtain ⟨j, hj, rfl⟩ := List.mem_map.mp (List.mem_reverse.mp hi)
    have hj := List.mem_range.mp hj
    have hget : (base ++ 0x2E :: ext).getD (base.length + 1 + j) 0 = ext[j] := by
      rw [List.getD_append_right _ _ _ _ (by omega), show base.length + 1 + j - base.length = j + 1 by
        omega, List.getD_cons_succ, List.getD_eq_getElem _ _ hj]
    rw [hget, beq_iff_eq] at hdot
    exact h (hdot ▸ List.getElem_mem hj)
  rw [hnone]
  simp

theorem toShortName_split (hbase : base ≠ []) (hext : 0x2E ∉ ext) :
    toShortName upper (base ++ 0x2E :: ext) = padName 8 (upper base) ++ padName 3 (upper ext) := by
  have hpos : 0 < base.length := List.length_pos_of_ne_nil hbase
  rw [toShortName, rfindDot_append hext]
  simp only [if_pos hpos, List.take_left']
  rw [List.drop_append, List.drop_eq_nil_of_le (by omega), List.nil_append,
    show base.length + 1 - base.length = 1 by omega, List.drop_one, List.tail_cons]

/-- A name without a dot behind its first byte. -/
theorem toShortName_whole (h : 0x2E ∉ name.tail) :
    toShortName upper name = padName 8 (upper name) ++ padName 3 [] := by
  rw [toShortName]
  cases name with
  | nil => rfl
  | cons b name =>
    by_cases hb : b = 0x2E
    · subst hb
      have : rfindDot (0x2E :: name) = some 0 := @rfindDot_append [] name h
      rw [this]
      rfl
    · have : rfindDot (b :: name) = none :=
        rfindDot_eq_none.mpr fun hmem => (List.mem_cons.mp hmem).elim (fun h => hb h.symm) h
      rw [this]

theorem exists_last_dot (h : 0x2E ∈ name) : ∃ base ext, name = base ++ 0x2E :: ext ∧ 0x2E ∉ ext := by
  obtain ⟨ext, base, heq, hno⟩ := List.eq_append_cons_of_mem (List.mem_reverse.mpr h)
  refine ⟨base.reverse, ext.reverse, ?_, by rwa [List.mem_reverse]⟩
  have hname := congrArg List.reverse heq
  rwa [List.reverse_reverse, List.reverse_append, List.reverse_cons, List.append_assoc,
    List.singleton_append] at hname

/-- Every name splits at its last dot, or has none behind its first byte. -/
theorem name_cases (name : List UInt8) : 0x2E ∉ name.tail ∨
    ∃ base ext, name = base ++ 0x2E :: ext ∧ base ≠ [] ∧ 0x2E ∉ ext := by
  by_cases h : (0x2E : UInt8) ∈ name.tail
  · right
    cases name with
    | nil => cases h
    | cons b name =>
      obtain ⟨base, ext, rfl, hno⟩ := exists_last_dot h
      exact ⟨b :: base, ext, rfl, List.cons_ne_nil _ _, hno⟩
  · exact Or.inl h

/-! ## Padding -/

theorem padName_of_le (h : base.length ≤ n) :
    padName n base = base ++ List.replicate (n - base.length) 0x20 := by
  rw [padName, List.take_of_length_le h]

theorem beforeSpace_not_mem (part : List UInt8) : 0x20 ∉ beforeSpace part := by
  intro h
  have hne := List.mem_takeWhile_imp h
  exact absurd hne (by decide)

theorem beforeSpace_padName (h : 0x20 ∉ base) (hlen : base.length ≤ n) :
    beforeSpace (padName n base) = base := by
  have hall : ∀ b ∈ base, (b != 0x20) = true := fun b hb =>
    bne_iff_ne.mpr fun heq => h (heq ▸ hb)
  rw [padName_of_le hlen, beforeSpace, List.takeWhile_append_of_pos hall]
  cases n - base.length with
  | zero => simp
  | succ k => simp [List.replicate_succ]

theorem beforeSpace_length_le (part : List UInt8) : (beforeSpace part).length ≤ part.length :=
  (List.takeWhile_sublist _).length_le

/-! ## ASCII names -/

theorem utf8EncodeChar_ascii {b : UInt8} (h : b < 0x80) :
    String.utf8EncodeChar (Char.ofNat b.toNat) = [b] := by
  have hlt : b.toNat < 128 := h
  have hval : (Char.ofNat b.toNat).val = UInt32.ofNat b.toNat := by
    have hvalid : b.toNat.isValidChar := Or.inl (by omega)
    refine UInt32.toNat_inj.mp ?_
    rw [UInt32.toNat_ofNat', Nat.mod_eq_of_lt (by omega), Char.ofNat, dif_pos hvalid]
    rfl
  rw [String.utf8EncodeChar_eq_singleton]
  · rw [hval]
    simp
  · rw [Char.utf8Size_eq_one_iff, hval, UInt32.le_iff_toNat_le]
    simp
    omega

/-- ASCII bytes are UTF-8. -/
theorem utf8OrEmpty_ascii {bs : List UInt8} (h : ∀ b ∈ bs, b < 0x80) : utf8OrEmpty bs = bs := by
  have hflat : bs.flatMap (fun b => String.utf8EncodeChar (Char.ofNat b.toNat)) = bs := by
    induction bs with
    | nil => rfl
    | cons b bs ih =>
      obtain ⟨hb, hbs⟩ := List.forall_mem_cons.mp h
      rw [List.flatMap_cons, ih hbs, utf8EncodeChar_ascii hb, List.singleton_append]
  rw [utf8OrEmpty, if_pos]
  rw [ByteArray.validateUTF8_eq_true_iff]
  refine ⟨bs.map fun b => Char.ofNat b.toNat, ByteArray.ext ?_⟩
  rw [List.utf8Encode, List.flatMap_map, hflat, List.data_toByteArray]

/-- The upper-case ASCII names. -/
def UpperName (short : List UInt8) : Prop := ∀ b ∈ short, b < 0x80 ∧ asciiUpper b = b

instance (short : List UInt8) : Decidable (UpperName short) :=
  List.decidableBAll (fun b => b < 0x80 ∧ asciiUpper b = b) short

theorem UpperName.of_subset {l : List UInt8} (h : UpperName short) (hsub : l ⊆ short) :
    UpperName l := fun b hb => h b (hsub hb)

theorem UpperName.upper_eq (hup : UpperAscii upper) {l : List UInt8} (h : UpperName l) :
    upper l = l := by
  rw [hup l fun b hb => (h b hb).1]
  exact (List.map_congr_left fun b hb => (h b hb).2).trans (List.map_id l)

/-! ## Listed names -/

/-- The short name that a short name comes back as, by the name it is listed
under. -/
def relisted (upper : List UInt8 → List UInt8) (short : List UInt8) : List UInt8 :=
  toShortName upper (fromShortName short)

/-- The two parts of a short name, without the padding. -/
def baseOf (short : List UInt8) : List UInt8 := beforeSpace (short.take 8)

def extOf (short : List UInt8) : List UInt8 := beforeSpace (short.drop 8)

/-- The short names of the 8.3 shape: a base without a dot behind its first byte,
or a base and an extension without a dot, and nothing behind their padding. -/
structure PlainName (short : List UInt8) : Prop where
  base : padName 8 (baseOf short) = short.take 8
  ext : padName 3 (extOf short) = short.drop 8
  dots : if extOf short = [] then 0x2E ∉ (baseOf short).tail
    else baseOf short ≠ [] ∧ 0x2E ∉ extOf short

instance (short : List UInt8) : Decidable (PlainName short) :=
  decidable_of_iff (padName 8 (baseOf short) = short.take 8 ∧
      padName 3 (extOf short) = short.drop 8 ∧
        if extOf short = [] then 0x2E ∉ (baseOf short).tail
        else baseOf short ≠ [] ∧ 0x2E ∉ extOf short)
    ⟨fun h => ⟨h.1, h.2.1, h.2.2⟩, fun h => ⟨h.base, h.ext, h.dots⟩⟩

theorem baseOf_subset (short : List UInt8) : baseOf short ⊆ short := fun _ hb =>
  List.mem_of_mem_take ((List.takeWhile_sublist _).subset hb)

theorem extOf_subset (short : List UInt8) : extOf short ⊆ short := fun _ hb =>
  List.mem_of_mem_drop ((List.takeWhile_sublist _).subset hb)

theorem fromShortName_ascii (h : ∀ b ∈ short, b < 0x80) :
    fromShortName short =
      if extOf short = [] then baseOf short else baseOf short ++ 0x2E :: extOf short := by
  have hbase : utf8OrEmpty (baseOf short) = baseOf short :=
    utf8OrEmpty_ascii fun b hb => h b (baseOf_subset short hb)
  have hext : utf8OrEmpty (extOf short) = extOf short :=
    utf8OrEmpty_ascii fun b hb => h b (extOf_subset short hb)
  have hdef : fromShortName short = if extOf short = [] then utf8OrEmpty (baseOf short)
      else utf8OrEmpty (baseOf short) ++ [0x2E] ++ utf8OrEmpty (extOf short) := rfl
  rw [hdef, hbase, hext, List.append_assoc, List.singleton_append]

/-- Two padded parts are a short name when they are its parts. -/
theorem padName_append_eq (hlen : short.length = 11) {b x : List UInt8} :
    padName 8 b ++ padName 3 x = short ↔ padName 8 b = short.take 8 ∧ padName 3 x = short.drop 8 := by
  have hlen' : (padName 8 b).length = (short.take 8).length := by
    rw [padName_length, List.length_take]
    omega
  constructor
  · intro h
    rw [← List.take_append_drop 8 short] at h
    exact List.append_inj h hlen'
  · rintro ⟨hb, hx⟩
    rw [hb, hx, List.take_append_drop]

/-- Padding less than a part does not give the part. -/
theorem padName_ne_of_lt {part b : List UInt8} (hno : 0x20 ∉ b) (hlen : part.length = n)
    (hlt : b.length < (beforeSpace part).length) : padName n b ≠ part := by
  intro h
  have hle := beforeSpace_length_le part
  have hb := beforeSpace_padName hno (show b.length ≤ n by omega)
  rw [h] at hb
  rw [hb] at hlt
  exact absurd hlt (Nat.lt_irrefl _)

/-- Of the upper-case ASCII names the plain ones come back as they were. -/
theorem relisted_eq_iff (hup : UpperAscii upper) (hname : UpperName short)
    (hlen : short.length = 11) : relisted upper short = short ↔ PlainName short := by
  have htake : (short.take 8).length = 8 := by
    rw [List.length_take]
    omega
  have hdrop : (short.drop 8).length = 3 := by
    rw [List.length_drop]
    omega
  have hlisted := fromShortName_ascii fun b hb => (hname b hb).1
  have hbase := hname.of_subset (baseOf_subset short)
  have hext := hname.of_subset (extOf_subset short)
  rw [relisted, hlisted]
  by_cases hx : extOf short = []
  · rw [if_pos hx]
    have hiff : PlainName short ↔ padName 8 (baseOf short) = short.take 8 ∧
        padName 3 (extOf short) = short.drop 8 ∧ 0x2E ∉ (baseOf short).tail :=
      ⟨fun h => ⟨h.base, h.ext, (if_pos hx).mp h.dots⟩, fun h => ⟨h.1, h.2.1, (if_pos hx).mpr h.2.2⟩⟩
    rcases name_cases (baseOf short) with hdot | ⟨b, x, hb, hne, hdot⟩
    · rw [toShortName_whole hdot, hbase.upper_eq hup, ← hx, padName_append_eq hlen, hiff]
      exact ⟨fun h => ⟨h.1, h.2, hdot⟩, fun h => ⟨h.1, h.2.1⟩⟩
    · -- a dot in the base, which comes back as the extension
      refine iff_of_false ?_ fun h => (hiff.mp h).2.2 ?_
      · rw [hb, toShortName_split hne hdot, padName_append_eq hlen]
        rintro ⟨h, -⟩
        have hsub : b ⊆ baseOf short := hb ▸ List.subset_append_left b _
        rw [(hbase.of_subset hsub).upper_eq hup] at h
        refine padName_ne_of_lt (fun hs => beforeSpace_not_mem _ (hsub hs)) htake ?_ h
        rw [← baseOf, hb, List.length_append, List.length_cons]
        omega
      · rw [hb]
        obtain ⟨c, b, rfl⟩ := List.exists_cons_of_ne_nil hne
        simp
  · rw [if_neg hx]
    have hiff : PlainName short ↔ padName 8 (baseOf short) = short.take 8 ∧
        padName 3 (extOf short) = short.drop 8 ∧ baseOf short ≠ [] ∧ 0x2E ∉ extOf short :=
      ⟨fun h => ⟨h.base, h.ext, (if_neg hx).mp h.dots⟩, fun h => ⟨h.1, h.2.1, (if_neg hx).mpr h.2.2⟩⟩
    have hpos : 0 < (extOf short).length := List.length_pos_of_ne_nil hx
    by_cases hdot : (0x2E : UInt8) ∈ extOf short
    · -- a dot in the extension, which comes back as its end only
      obtain ⟨b, x, hb, hlast⟩ := exists_last_dot hdot
      refine iff_of_false ?_ fun h => (hiff.mp h).2.2.2 hdot
      have hsub : x ⊆ extOf short := fun c hc =>
        hb ▸ List.mem_append_right _ (List.mem_cons_of_mem _ hc)
      have hsplit : baseOf short ++ 0x2E :: extOf short =
          (baseOf short ++ 0x2E :: b) ++ 0x2E :: x := by
        rw [hb, List.append_assoc, List.cons_append]
      rw [hsplit, toShortName_split (by simp) hlast, padName_append_eq hlen]
      rintro ⟨-, h⟩
      rw [(hext.of_subset hsub).upper_eq hup] at h
      refine padName_ne_of_lt (fun hs => beforeSpace_not_mem _ (hsub hs)) hdrop ?_ h
      rw [← extOf, hb, List.length_append, List.length_cons]
      omega
    · by_cases hne : baseOf short = []
      · -- no base, so that the dot is no separator
        refine iff_of_false ?_ fun h => (hiff.mp h).2.2.1 hne
        rw [hne, List.nil_append, toShortName_whole (by rwa [List.tail_cons]), padName_append_eq hlen]
        rintro ⟨-, h⟩
        exact padName_ne_of_lt List.not_mem_nil hdrop hpos h
      · rw [toShortName_split hne hdot, hbase.upper_eq hup, hext.upper_eq hup,
          padName_append_eq hlen, hiff]
        exact ⟨fun h => ⟨h.1, h.2, hne, hdot⟩, fun h => ⟨h.1, h.2.1⟩⟩

/-! ## 8.3 names -/

/-- A byte of an 8.3 name: ASCII, printable, and not the dot. -/
def NameByte (b : UInt8) : Prop := 0x20 < b ∧ b < 0x80 ∧ b ≠ 0x2E

instance (b : UInt8) : Decidable (NameByte b) :=
  inferInstanceAs (Decidable (0x20 < b ∧ b < 0x80 ∧ b ≠ 0x2E))

/-- The names of the 8.3 shape, with and without an extension. -/
inductive Fits83 : List UInt8 → Prop where
  | base {base : List UInt8} (hne : base ≠ []) (hlen : base.length ≤ 8)
      (hbase : ∀ b ∈ base, NameByte b) : Fits83 base
  | ext {base ext : List UInt8} (hne : base ≠ []) (hlen : base.length ≤ 8)
      (hbase : ∀ b ∈ base, NameByte b) (hnx : ext ≠ []) (hlx : ext.length ≤ 3)
      (hext : ∀ b ∈ ext, NameByte b) : Fits83 (base ++ 0x2E :: ext)

theorem nameByte_asciiUpper {b : UInt8} (h : NameByte b) : NameByte (asciiUpper b) := by
  obtain ⟨h1, h2, h3⟩ := h
  unfold asciiUpper
  split_ifs with hl
  · obtain ⟨ha, hz⟩ := hl
    have h1' := UInt8.le_iff_toNat_le.mp ha
    have h2' := UInt8.le_iff_toNat_le.mp hz
    have hsub : (b - 0x20).toNat = b.toNat - 0x20 := UInt8.toNat_sub_of_le _ _
      (UInt8.le_iff_toNat_le.mpr (by simp at h1' ⊢; omega))
    refine ⟨UInt8.lt_iff_toNat_lt.mpr ?_, UInt8.lt_iff_toNat_lt.mpr ?_, fun heq => ?_⟩
    · rw [hsub]
      simp at h1' ⊢
      omega
    · rw [hsub]
      simp at h2' ⊢
      omega
    · have := congrArg UInt8.toNat heq
      rw [hsub] at this
      simp at this h1'
      omega
  · exact ⟨h1, h2, h3⟩

theorem upper_nameBytes (hup : UpperAscii upper) {l : List UInt8} (h : ∀ b ∈ l, NameByte b) :
    upper l = l.map asciiUpper := hup l fun b hb => (h b hb).2.1

theorem dot_not_mem {l : List UInt8} (h : ∀ b ∈ l, NameByte b) : 0x2E ∉ l := fun hmem =>
  (h _ hmem).2.2 rfl

/-- An 8.3 name in upper case, by its parts. -/
theorem Fits83.parts (hup : UpperAscii upper) (h : Fits83 name) :
    ∃ base ext, base ≠ [] ∧ base.length ≤ 8 ∧ (∀ b ∈ base, NameByte b) ∧ ext.length ≤ 3 ∧
      (∀ b ∈ ext, NameByte b) ∧
      name.map asciiUpper = (if ext = [] then base else base ++ 0x2E :: ext) ∧
      toShortName upper name = padName 8 base ++ padName 3 ext := by
  have hupper : ∀ {l : List UInt8}, (∀ b ∈ l, NameByte b) → ∀ b ∈ l.map asciiUpper, NameByte b :=
    fun h b hb => by
      obtain ⟨x, hx, rfl⟩ := List.mem_map.mp hb
      exact nameByte_asciiUpper (h x hx)
  cases h with
  | base hne hlen hbase =>
    refine ⟨name.map asciiUpper, [], by simpa using hne, by simpa using hlen, hupper hbase,
      Nat.zero_le _, fun b hb => absurd hb List.not_mem_nil, rfl, ?_⟩
    rw [toShortName_whole fun hmem => dot_not_mem hbase (List.mem_of_mem_tail hmem),
      upper_nameBytes hup hbase]
  | @ext base ext hne hlen hbase hnx hlx hext =>
    refine ⟨base.map asciiUpper, ext.map asciiUpper, by simpa using hne, by simpa using hlen,
      hupper hbase, by simpa using hlx, hupper hext, ?_, ?_⟩
    · rw [if_neg (by simpa using hnx), List.map_append, List.map_cons]
      rfl
    · rw [toShortName_split hne (dot_not_mem hext), upper_nameBytes hup hbase,
        upper_nameBytes hup hext]

/-- The short name of an 8.3 name begins with one of its bytes. -/
theorem Fits83.first (hup : UpperAscii upper) (h : Fits83 name) :
    NameByte ((toShortName upper name).getD 0 0) := by
  obtain ⟨base, ext, hne, hlen, hbase, -, -, -, heq⟩ := h.parts hup
  rw [heq, padName_of_le hlen]
  cases base with
  | nil => exact absurd rfl hne
  | cons b base => exact hbase b List.mem_cons_self

theorem baseOf_append {b : List UInt8} (hb : (padName 8 b).length = 8) (x : List UInt8) :
    baseOf (padName 8 b ++ padName 3 x) = beforeSpace (padName 8 b) ∧
      extOf (padName 8 b ++ padName 3 x) = beforeSpace (padName 3 x) := by
  rw [baseOf, extOf, List.take_left' hb, List.drop_left' hb]
  exact ⟨rfl, rfl⟩

/-- An 8.3 name is listed in upper case. -/
theorem fromShortName_toShortName (hup : UpperAscii upper) (h : Fits83 name) :
    fromShortName (toShortName upper name) = name.map asciiUpper := by
  obtain ⟨base, ext, hne, hlen, hbase, hlx, hext, hmap, heq⟩ := h.parts hup
  have hspace : ∀ {l : List UInt8}, (∀ b ∈ l, NameByte b) → 0x20 ∉ l := fun h hmem =>
    absurd (h _ hmem).1 (by decide)
  obtain ⟨hb, hx⟩ := baseOf_append (padName_length 8 base) ext
  rw [beforeSpace_padName (hspace hbase) hlen] at hb
  rw [beforeSpace_padName (hspace hext) hlx] at hx
  have hascii : ∀ b ∈ padName 8 base ++ padName 3 ext, b < 0x80 := by
    have hpad : ∀ {n : Nat} {l : List UInt8}, (∀ b ∈ l, NameByte b) → ∀ b ∈ padName n l, b < 0x80 :=
      fun h b hb => by
        rcases List.mem_append.mp hb with hb | hb
        · exact (h b (List.mem_of_mem_take hb)).2.1
        · rw [(List.mem_replicate.mp hb).2]
          decide
    exact List.forall_mem_append.mpr ⟨hpad hbase, hpad hext⟩
  rw [heq, fromShortName_ascii hascii, hb, hx, hmap]

/-- Two 8.3 names with one short name differ in case alone. -/
theorem Fits83.eq_of_short (hup : UpperAscii upper) {name' : List UInt8} (h : Fits83 name)
    (h' : Fits83 name') (heq : toShortName upper name = toShortName upper name') :
    name.map asciiUpper = name'.map asciiUpper := by
  rw [← fromShortName_toShortName hup h, heq, fromShortName_toShortName hup h']

end AeroOS.Fat32
