import Mathlib.Data.List.Induction
import Mathlib.Data.List.Pairwise
import Mathlib.Data.List.Perm.Basic

/-!
# Insertion sort in place

An array is sorted by one pass for each index from 1: the pass takes the member at the
index as key, moves the members before it that have to be behind the key up by one, and
stores the key in the gap.

* `pass_split`: a pass puts the key behind the last member before it that can stay.
* `sort_perm`: the result is a rearrangement.
* `sort_pairwise`: the result is in order, where the order of two members may also depend
  on which of them came first; so a sort by keys keeps the order of equal keys.
-/

namespace AeroOS.InsertionSort

variable {α : Type*} (behind : α → α → Bool)

/-- The `while` loop of a pass: from `j` down, the members that have to be behind the key
move up by one.  The result is the index of the gap, and the array. -/
def shift (key : α) : Nat → List α → Nat × List α
  | 0, a => (0, a)
  | j + 1, a =>
    match a[j]? with
    | none => (j + 1, a)
    | some b => if behind b key then shift key j (a.set (j + 1) b) else (j + 1, a)

/-- The pass for index `i`. -/
def pass (a : List α) (i : Nat) : List α :=
  match a[i]? with
  | none => a
  | some key => (shift behind key i a).2.set (shift behind key i a).1 key

/-- `for i in 1..n`. -/
def sort (a : List α) : List α := (List.range' 1 (a.length - 1)).foldl (pass behind) a

variable {behind} {key : α} {l rest : List α}

/-- The loop on a sorted part `l` with a gap behind it. -/
theorem shift_append (gap : α) :
    ∃ l₁ l₂, l = l₁ ++ l₂ ∧ (∀ b ∈ l₂, behind b key = true) ∧
      (∀ b ∈ l₁.getLast?, behind b key = false) ∧
      (shift behind key l.length (l ++ gap :: rest)).2.set
        (shift behind key l.length (l ++ gap :: rest)).1 key = l₁ ++ key :: (l₂ ++ rest) := by
  induction l using List.reverseRecOn generalizing gap rest with
  | nil =>
    refine ⟨[], [], rfl, ?_, ?_, rfl⟩
    · intro b hb
      cases hb
    · intro b hb
      cases hb
  | append_singleton l b ih =>
    have hget : (l ++ [b] ++ gap :: rest)[l.length]? = some b := by
      rw [List.append_assoc, List.getElem?_append_right (Nat.le_refl _), Nat.sub_self]
      rfl
    have hset : (l ++ [b] ++ gap :: rest).set (l.length + 1) b = l ++ b :: (b :: rest) := by
      rw [List.set_append_right _ _ (by simp)]
      simp
    rw [List.length_append, List.length_singleton, shift, hget]
    by_cases hb : behind b key = true
    · obtain ⟨l₁, l₂, rfl, h₂, h₁, heq⟩ := @ih (b :: rest) b
      refine ⟨l₁, l₂ ++ [b], (List.append_assoc _ _ _), ?_, h₁, ?_⟩
      · intro c hc
        rcases List.mem_append.1 hc with hc | hc
        · exact h₂ c hc
        · rw [List.mem_singleton.1 hc]
          exact hb
      · simp only [hb, if_true, hset, heq]
        simp
    · refine ⟨l ++ [b], [], (List.append_nil _).symm, ?_, ?_, ?_⟩
      · intro c hc
        cases hc
      · intro c hc
        rw [List.getLast?_append, List.getLast?_singleton] at hc
        cases hc
        exact Bool.eq_false_iff.2 hb
      · simp only [hb]
        simp

/-- What a pass does behind the part that is sorted. -/
theorem pass_split (behind : α → α → Bool) (l : List α) (key : α) (rest : List α) :
    ∃ l₁ l₂, l = l₁ ++ l₂ ∧ (∀ b ∈ l₂, behind b key = true) ∧
      (∀ b ∈ l₁.getLast?, behind b key = false) ∧
      pass behind (l ++ key :: rest) l.length = l₁ ++ key :: (l₂ ++ rest) := by
  have hget : (l ++ key :: rest)[l.length]? = some key := by
    rw [List.getElem?_append_right (Nat.le_refl _), Nat.sub_self]
    rfl
  rw [pass, hget]
  exact shift_append key

theorem pass_perm (a : List α) (i : Nat) : (pass behind a i).Perm a := by
  cases hkey : a[i]? with
  | none => rw [pass, hkey]
  | some key =>
    obtain ⟨hi, rfl⟩ := List.getElem?_eq_some_iff.1 hkey
    have ha : a = a.take i ++ a[i] :: a.drop (i + 1) := by
      rw [← List.drop_eq_getElem_cons hi, List.take_append_drop]
    obtain ⟨l₁, l₂, hl, -, -, heq⟩ :=
      pass_split behind (a.take i) a[i] (a.drop (i + 1))
    rw [← ha, List.length_take, Nat.min_eq_left (Nat.le_of_lt hi)] at heq
    rw [hl, List.append_assoc] at ha
    rw [heq]
    refine List.Perm.trans ?_ (List.Perm.of_eq ha.symm)
    apply List.Perm.append_left
    exact List.perm_middle.symm

/-- The result is a rearrangement. -/
theorem sort_perm (a : List α) : (sort behind a).Perm a := by
  unfold sort
  generalize List.range' 1 (a.length - 1) = is
  induction is generalizing a with
  | nil => exact List.Perm.refl a
  | cons i is ih => exact (ih _).trans (pass_perm a i)

/-! ## Order -/

variable {R : α → α → Prop} [IsTrans α R] {a : List α}

/-- The test of the loop tells, of two members, which comes first in the order `R`; it may
use that the first of them stood before the other. -/
def Decides (behind : α → α → Bool) (R : α → α → Prop) (a : List α) : Prop :=
  a.Pairwise fun b key => if behind b key then R key b else R b key

/-- A key that is put into a part in order. -/
theorem pairwise_insert (hl : l.Pairwise R)
    (hkey : ∀ b ∈ l, if behind b key then R key b else R b key) {l₁ l₂ : List α}
    (heq : l = l₁ ++ l₂) (h₂ : ∀ b ∈ l₂, behind b key = true)
    (h₁ : ∀ b ∈ l₁.getLast?, behind b key = false) : (l₁ ++ key :: l₂).Pairwise R := by
  subst heq
  obtain ⟨hl₁, hl₂, hcross⟩ := List.pairwise_append.1 hl
  have hbehind : ∀ b ∈ l₂, R key b := by
    intro b hb
    have hrel := hkey b (List.mem_append_right _ hb)
    rwa [if_pos (h₂ b hb)] at hrel
  have hbefore : ∀ b ∈ l₁, R b key := by
    -- the last of them stays before the key, and the others are before the last
    induction l₁ using List.reverseRecOn with
    | nil =>
      intro b hb
      cases hb
    | append_singleton l₁ c _ =>
      have hc : R c key := by
        have hrel := hkey c (by simp)
        rwa [if_neg (by simp [h₁ c (by simp)])] at hrel
      intro b hb
      rcases List.mem_append.1 hb with hb | hb
      · exact IsTrans.trans _ _ _ ((List.pairwise_append.1 hl₁).2.2 b hb c (by simp)) hc
      · rwa [List.mem_singleton.1 hb]
  refine List.pairwise_append.2 ⟨hl₁, List.pairwise_cons.2 ⟨hbehind, hl₂⟩, ?_⟩
  intro b hb c hc
  rcases List.mem_cons.1 hc with rfl | hc
  · exact hbefore b hb
  · exact hcross b hb c hc

/-- The array after the passes before index `k`. -/
def Progress (R : α → α → Prop) (a : List α) (k : Nat) (b : List α) : Prop :=
  ∃ l, l.Perm (a.take k) ∧ l.Pairwise R ∧ b = l ++ a.drop k

omit [IsTrans α R] in
theorem progress_one : Progress R a 1 a := by
  refine ⟨a.take 1, List.Perm.refl _, ?_, (List.take_append_drop 1 a).symm⟩
  cases a with
  | nil => exact List.Pairwise.nil
  | cons b a => exact List.pairwise_singleton R b

theorem Progress.pass (h : Decides behind R a) {k : Nat} (hk : k < a.length) {b : List α}
    (hb : Progress R a k b) : Progress R a (k + 1) (pass behind b k) := by
  obtain ⟨l, hperm, hl, rfl⟩ := hb
  have hlen : l.length = k := by
    rw [hperm.length_eq, List.length_take, Nat.min_eq_left (Nat.le_of_lt hk)]
  have hkey : ∀ b ∈ l, if behind b a[k] then R a[k] b else R b a[k] := by
    intro b hb
    have hsplit : a = a.take k ++ a.drop k := (List.take_append_drop k a).symm
    rw [Decides, hsplit, List.drop_eq_getElem_cons hk] at h
    exact (List.pairwise_append.1 h).2.2 b (hperm.mem_iff.1 hb) _ List.mem_cons_self
  obtain ⟨l₁, l₂, heq, h₂, h₁, hpass⟩ :=
    pass_split behind l a[k] (a.drop (k + 1))
  rw [hlen, ← List.drop_eq_getElem_cons hk] at hpass
  refine ⟨l₁ ++ a[k] :: l₂, ?_, pairwise_insert hl hkey heq h₂ h₁, ?_⟩
  · rw [List.take_succ_eq_append_getElem hk]
    refine List.perm_middle.trans ?_
    rw [← heq]
    exact (List.perm_append_singleton _ _).symm.trans (hperm.append_right _)
  · rw [hpass, List.append_assoc, List.cons_append]

/-- The result is in order. -/
theorem sort_pairwise (h : Decides behind R a) : (sort behind a).Pairwise R := by
  have hrun : ∀ m, 1 + m ≤ max 1 a.length →
      Progress R a (1 + m) ((List.range' 1 m).foldl (pass behind) a) := by
    intro m
    induction m with
    | zero =>
      intro _
      exact progress_one
    | succ m ih =>
      intro hm
      rw [List.range'_1_concat, List.foldl_append]
      exact (ih (by omega)).pass h (by omega)
  obtain ⟨l, -, hl, heq⟩ := hrun (a.length - 1) (by omega)
  rw [List.drop_eq_nil_of_le (by omega), List.append_nil] at heq
  rw [sort, heq]
  exact hl

omit [IsTrans α R] in
/-- The last of a list in order comes after the others. -/
theorem eq_or_rel_getLast {c : α} (h : a.Pairwise R) (hc : a.getLast? = some c) :
    ∀ d ∈ a, d = c ∨ R d c := by
  obtain ⟨bs, rfl⟩ := List.getLast?_eq_some_iff.1 hc
  intro d hd
  rcases List.mem_append.1 hd with hd | hd
  · exact Or.inr ((List.pairwise_append.1 h).2.2 d hd c (by simp))
  · exact Or.inl (List.mem_singleton.1 hd)

end AeroOS.InsertionSort
