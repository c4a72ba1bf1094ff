import Mathlib.Data.List.Chain
import Mathlib.Data.List.Nodup
import Mathlib.Tactic.SplitIfs

/-!
# Chains in a successor table

A successor table gives at most one successor to every cell.  `walk` follows
it from a cell, as far as the cells are valid and the fuel lasts.  This is
the shape of a cluster chain in a file allocation table and of a free list.

* `walk_congr`: a walk depends only on the successors of the cells it visits.
* `walk_isChain` and `walk_eq`: a walk lists consecutive cells, and a list of
  consecutive cells that ends where the table ends is a walk.
* `walk_link`: hanging a new cell behind the last one appends it.
  `mem_walk_link` is the part of this that needs no assumption on the walk.
* `walk_cut`: ending the table at a cell of the walk keeps the prefix.
* `exists_append_of_mem_walk`: from each of its cells on, a walk is the walk from
  that cell.  `walk_prefix`: with successors taken away it ends earlier.
* `next_getLast?_walk`: without a cycle a walk ends where there is no valid successor.
-/

namespace AeroOS.Chain

variable {α : Type} (valid : α → Bool)

/-- The cells visited from `c`: stop at an invalid cell, behind a cell with
no successor, and when the fuel runs out. -/
def walk (next : α → Option α) : Nat → α → List α
  | 0, _ => []
  | n + 1, c =>
    if valid c then
      c :: match next c with
        | none => []
        | some d => walk next n d
    else []

variable {valid} {next next' : α → Option α}

theorem walk_succ_of_valid {n : Nat} {c : α} (h : valid c = true) :
    walk valid next (n + 1) c =
      c :: match next c with
        | none => []
        | some d => walk valid next n d := by
  rw [walk, if_pos h]

theorem walk_of_not_valid {n : Nat} {c : α} (h : valid c = false) :
    walk valid next n c = [] := by
  cases n with
  | zero => rfl
  | succ n => rw [walk, if_neg (by simp [h])]

theorem valid_of_mem_walk {n : Nat} {c x : α} (h : x ∈ walk valid next n c) :
    valid x = true := by
  induction n generalizing c with
  | zero => simp [walk] at h
  | succ n ih =>
    rw [walk] at h
    split at h
    · rename_i hc
      rcases List.mem_cons.mp h with rfl | h
      · exact hc
      · split at h
        · simp at h
        · exact ih h
    · simp at h

theorem mem_walk_self {n : Nat} {c : α} (h : valid c = true) (hn : 0 < n) :
    c ∈ walk valid next n c := by
  obtain ⟨n, rfl⟩ : ∃ k, n = k + 1 := ⟨n - 1, by omega⟩
  simp [walk_succ_of_valid h]

theorem head?_walk {n : Nat} {c : α} (h : valid c = true) (hn : 0 < n) :
    (walk valid next n c).head? = some c := by
  obtain ⟨n, rfl⟩ : ∃ k, n = k + 1 := ⟨n - 1, by omega⟩
  simp [walk_succ_of_valid h]

/-- A walk that is not empty starts at its first cell. -/
theorem head?_of_walk_ne_nil {n : Nat} {c : α} (h : walk valid next n c ≠ []) :
    (walk valid next n c).head? = some c := by
  cases n with
  | zero => simp [walk] at h
  | succ n =>
    cases hv : valid c with
    | true => exact head?_walk hv (by omega)
    | false => exact absurd (walk_of_not_valid hv) h

/-- A walk depends only on the successors of the cells it visits. -/
theorem walk_congr {n : Nat} {c : α} (h : ∀ x ∈ walk valid next n c, next' x = next x) :
    walk valid next' n c = walk valid next n c := by
  induction n generalizing c with
  | zero => rfl
  | succ n ih =>
    rw [walk, walk]
    split
    · rename_i hc
      rw [walk_succ_of_valid hc] at h
      rw [h c (by simp)]
      split
      · rfl
      · rename_i d hd
        rw [hd] at h
        rw [ih fun x hx => h x (List.mem_cons_of_mem c hx)]
    · rfl

/-- Consecutive cells of a walk are successors. -/
theorem walk_isChain (n : Nat) (c : α) :
    List.IsChain (fun a b => next a = some b) (walk valid next n c) := by
  induction n generalizing c with
  | zero => exact List.IsChain.nil
  | succ n ih =>
    rw [walk]
    split
    · split
      · exact List.IsChain.singleton _
      · rename_i d hd
        rw [List.isChain_cons]
        refine ⟨fun y hy => ?_, ih d⟩
        have hne : walk valid next n d ≠ [] := by
          intro h
          simp [h] at hy
        rw [head?_of_walk_ne_nil hne] at hy
        simp only [Option.mem_def, Option.some.injEq] at hy
        rw [hd, hy]
    · exact List.IsChain.nil

/-- A cell of a walk that has no successor is its last one. -/
theorem getLast?_walk_of_none {n : Nat} {c x : α} (h : x ∈ walk valid next n c)
    (hx : next x = none) : (walk valid next n c).getLast? = some x := by
  induction n generalizing c with
  | zero => simp [walk] at h
  | succ n ih =>
    cases hc : valid c with
    | false => simp [walk_of_not_valid hc] at h
    | true =>
      rw [walk_succ_of_valid hc] at h ⊢
      rcases List.mem_cons.mp h with rfl | h
      · rw [hx]
        rfl
      · cases hd : next c with
        | none =>
          rw [hd] at h
          simp at h
        | some d =>
          rw [hd] at h
          simp only at h ⊢
          rw [List.getLast?_cons_of_ne_nil (List.ne_nil_of_mem h)]
          exact ih h

/-- A list of consecutive valid cells that ends where the table ends is a
walk, as soon as there is fuel for it. -/
theorem walk_eq {l : List α} {c : α} {n : Nat}
    (hchain : List.IsChain (fun a b => next a = some b) (c :: l))
    (hlast : ∀ x ∈ (c :: l).getLast?, next x = none)
    (hvalid : ∀ x ∈ c :: l, valid x = true) (hn : (c :: l).length ≤ n) :
    walk valid next n c = c :: l := by
  induction l generalizing c n with
  | nil =>
    obtain ⟨n, rfl⟩ : ∃ k, n = k + 1 := ⟨n - 1, by simp at hn; omega⟩
    rw [walk_succ_of_valid (hvalid c (by simp)), hlast c (by simp)]
  | cons d l ih =>
    obtain ⟨n, rfl⟩ : ∃ k, n = k + 1 := ⟨n - 1, by simp at hn; omega⟩
    rw [List.isChain_cons_cons] at hchain
    rw [walk_succ_of_valid (hvalid c (by simp)), hchain.1]
    have := ih (n := n) hchain.2 (by simpa using hlast)
      (fun x hx => hvalid x (List.mem_cons_of_mem c hx)) (by simpa using hn)
    simp [this]

/-! ## Parts of a walk -/

/-- More fuel does not change a walk that had some left. -/
theorem walk_stable {n m : Nat} {c : α} (h : (walk valid next n c).length < n) (hnm : n ≤ m) :
    walk valid next m c = walk valid next n c := by
  induction n generalizing m c with
  | zero => simp at h
  | succ n ih =>
    obtain ⟨m, rfl⟩ : ∃ k, m = k + 1 := ⟨m - 1, by omega⟩
    rw [walk] at h ⊢
    rw [walk]
    split at h
    · rename_i hc
      rw [if_pos hc, if_pos hc]
      cases hd : next c with
      | none => rfl
      | some d =>
        rw [hd] at h
        simp only [List.length_cons, Nat.add_lt_add_iff_right] at h
        exact congrArg (c :: ·) (ih h (by omega))
    · rename_i hc
      rw [if_neg hc, if_neg hc]

/-- From each of its cells on, a walk is the walk from there. -/
theorem exists_append_of_mem_walk {n : Nat} {c x : α} (h : x ∈ walk valid next n c)
    (hfuel : (walk valid next n c).length < n) :
    ∃ pre, walk valid next n c = pre ++ walk valid next n x := by
  induction n generalizing c with
  | zero => simp [walk] at h
  | succ n ih =>
    by_cases hxc : x = c
    · exact ⟨[], by rw [hxc, List.nil_append]⟩
    cases hc : valid c with
    | false => simp [walk_of_not_valid hc] at h
    | true =>
      rw [walk_succ_of_valid hc] at h hfuel ⊢
      cases hd : next c with
      | none =>
        rw [hd] at h
        exact absurd (by simpa using h) hxc
      | some d =>
        rw [hd] at h hfuel
        simp only [List.length_cons, Nat.add_lt_add_iff_right] at hfuel
        obtain ⟨pre, hpre⟩ := ih ((List.mem_cons.mp h).resolve_left hxc) hfuel
        have hlt : (walk valid next n x).length < n := by
          rw [hpre, List.length_append] at hfuel
          omega
        refine ⟨c :: pre, ?_⟩
        rw [walk_stable hlt (Nat.le_succ n), List.cons_append, ← hpre]

/-- Behind the last cell of a walk without a cycle there is no valid one. -/
theorem next_getLast?_walk {n : Nat} {c x y : α} (hnodup : (walk valid next n c).Nodup)
    (hfuel : (walk valid next n c).length < n) (hgl : (walk valid next n c).getLast? = some x)
    (hnext : next x = some y) : valid y = false := by
  by_contra hy
  rw [Bool.not_eq_false] at hy
  have hmem := List.mem_of_getLast? hgl
  obtain ⟨pre, hpre⟩ := exists_append_of_mem_walk hmem hfuel
  obtain ⟨m, rfl⟩ : ∃ m, n = m + 2 := ⟨n - 2, by
    have := List.length_pos_of_mem hmem
    omega⟩
  rw [walk_succ_of_valid (valid_of_mem_walk hmem), hnext] at hpre
  simp only at hpre
  rw [walk_succ_of_valid hy] at hpre
  rw [hpre] at hgl hnodup
  rw [List.getLast?_append_of_ne_nil _ (List.cons_ne_nil _ _), List.getLast?_cons_cons] at hgl
  have htail := (List.nodup_append.mp hnodup).2.1
  exact (List.nodup_cons.mp htail).1 (List.mem_of_getLast? hgl)

/-- With successors taken away a walk ends earlier. -/
theorem walk_prefix (h : ∀ x, next' x = next x ∨ next' x = none) (n : Nat) (c : α) :
    walk valid next' n c <+: walk valid next n c := by
  induction n generalizing c with
  | zero => exact List.prefix_refl _
  | succ n ih =>
    rw [walk, walk]
    split
    · rcases h c with heq | heq
      · rw [heq]
        cases next c with
        | none => exact List.prefix_refl _
        | some d => exact List.cons_prefix_cons.2 ⟨rfl, ih d⟩
      · rw [heq]
        exact List.cons_prefix_cons.2 ⟨rfl, List.nil_prefix⟩
    · exact List.prefix_refl _

/-! ## Hanging a cell behind another -/

/-- With `new` hung behind `last`, a walk visits no other new cell. -/
theorem mem_walk_link {last new : α} (hsame : ∀ x, x ≠ last → x ≠ new → next' x = next x)
    (hlast : next' last = some new) (hnew : next' new = none) {n : Nat} {c x : α}
    (h : x ∈ walk valid next' n c) : x ∈ walk valid next n c ∨ x = new := by
  induction n generalizing c with
  | zero => simp [walk] at h
  | succ n ih =>
    rw [walk] at h
    split at h
    swap
    · simp at h
    rename_i hc
    rw [walk_succ_of_valid hc]
    by_cases hcn : c = new
    · rw [hcn, hnew] at h
      exact Or.inr (by simpa using h)
    by_cases hcl : c = last
    · rw [hcl, hlast] at h
      rcases List.mem_cons.mp h with hx | h
      · exact Or.inl (by simp [hx, hcl])
      · refine Or.inr ?_
        replace h : x ∈ walk valid next' n new := h
        cases n with
        | zero => simp [walk] at h
        | succ n =>
          rw [walk, hnew] at h
          split at h
          · exact List.mem_singleton.mp h
          · simp at h
    rw [hsame c hcl hcn] at h
    rcases List.mem_cons.mp h with hx | h
    · exact Or.inl (by simp [hx])
    · split at h
      · simp at h
      · rename_i d hd
        rcases ih h with h | h
        · exact Or.inl (List.mem_cons_of_mem c h)
        · exact Or.inr h

/-- Hanging a new cell behind the last cell of a walk appends it. -/
theorem walk_link {last new : α} (hlast : next' last = some new) (hnew : next' new = none)
    (hv : valid new = true) {n : Nat} {c : α}
    (hsame : ∀ x ∈ walk valid next n c, x ≠ last → next' x = next x)
    (hgl : (walk valid next n c).getLast? = some last)
    (hnodup : (walk valid next n c).Nodup)
    (hfuel : (walk valid next n c).length < n) :
    walk valid next' n c = walk valid next n c ++ [new] := by
  induction n generalizing c with
  | zero => simp [walk] at hgl
  | succ n ih =>
    cases hc : valid c with
    | false => simp [walk_of_not_valid hc] at hgl
    | true =>
      -- `w` is what follows `c`; the last cell is `c` itself when `w` is empty
      obtain ⟨w, hw⟩ : ∃ w, walk valid next (n + 1) c = c :: w := ⟨_, walk_succ_of_valid hc⟩
      have hn : 0 < n := by
        rw [hw] at hfuel
        simp at hfuel
        omega
      have hwdef : walk valid next (n + 1) c =
          c :: match next c with
            | none => []
            | some d => walk valid next n d := walk_succ_of_valid hc
      rw [hw] at hwdef hsame hgl hnodup hfuel ⊢
      by_cases hwnil : w = []
      · subst hwnil
        have hcl : c = last := by simpa using hgl
        rw [walk_succ_of_valid hc, hcl, hlast]
        obtain ⟨k, rfl⟩ : ∃ k, n = k + 1 := ⟨n - 1, by omega⟩
        show last :: walk valid next' (k + 1) new = [last, new]
        rw [walk_succ_of_valid hv, hnew]
      · have hlw : w.getLast? = some last := by
          rwa [List.getLast?_cons_of_ne_nil hwnil] at hgl
        have hcl : c ≠ last := by
          intro h
          exact (List.nodup_cons.mp hnodup).1 (h ▸ List.mem_of_getLast? hlw)
        rw [walk_succ_of_valid hc, hsame c (by simp) hcl]
        cases hd : next c with
        | none =>
          rw [hd] at hwdef
          exact absurd (List.cons.inj hwdef).2 hwnil
        | some d =>
          rw [hd] at hwdef
          have hwd : w = walk valid next n d := (List.cons.inj hwdef).2
          have := ih (c := d) (hwd ▸ fun x hx => hsame x (List.mem_cons_of_mem c hx))
            (hwd ▸ hlw) (hwd ▸ (List.nodup_cons.mp hnodup).2)
            (by rw [← hwd]; simpa using hfuel)
          rw [hwd]
          simp [this]

/-! ## Ending the table early -/

/-- With the table ended behind the `k`-th cell of a walk, the walk keeps its
first `k` cells. -/
theorem walk_cut {n k : Nat} {c last : α} (hk : 0 < k)
    (hnodup : (walk valid next n c).Nodup)
    (hgl : ((walk valid next n c).take k).getLast? = some last)
    (hlast : next' last = none)
    (hsame : ∀ x ∈ (walk valid next n c).take k, x ≠ last → next' x = next x) :
    walk valid next' n c = (walk valid next n c).take k := by
  induction n generalizing c k with
  | zero => simp [walk]
  | succ n ih =>
    cases hc : valid c with
    | false => simp [walk_of_not_valid hc]
    | true =>
      obtain ⟨k, rfl⟩ : ∃ j, k = j + 1 := ⟨k - 1, by omega⟩
      obtain ⟨w, hw⟩ : ∃ w, walk valid next (n + 1) c = c :: w := ⟨_, walk_succ_of_valid hc⟩
      have hwdef : walk valid next (n + 1) c =
          c :: match next c with
            | none => []
            | some d => walk valid next n d := walk_succ_of_valid hc
      rw [hw] at hwdef hsame hgl hnodup ⊢
      rw [List.take_succ_cons] at hsame hgl ⊢
      rw [walk_succ_of_valid hc]
      by_cases hwnil : w.take k = []
      · rw [hwnil] at hgl ⊢
        have hcl : c = last := by simpa using hgl
        rw [hcl, hlast]
      · have hlw : (w.take k).getLast? = some last := by
          rwa [List.getLast?_cons_of_ne_nil hwnil] at hgl
        have hcl : c ≠ last := by
          intro h
          exact (List.nodup_cons.mp hnodup).1
            (List.mem_of_mem_take (h ▸ List.mem_of_getLast? hlw))
        rw [hsame c (by simp) hcl]
        cases hd : next c with
        | none =>
          rw [hd] at hwdef
          have : w = [] := (List.cons.inj hwdef).2
          simp [this] at hwnil
        | some d =>
          rw [hd] at hwdef
          have hwd : w = walk valid next n d := (List.cons.inj hwdef).2
          have hkpos : 0 < k := by
            rcases Nat.eq_zero_or_pos k with rfl | h
            · simp at hwnil
            · exact h
          have := ih (c := d) hkpos (hwd ▸ (List.nodup_cons.mp hnodup).2) (hwd ▸ hlw)
            (hwd ▸ fun x hx => hsame x (List.mem_cons_of_mem c hx))
          rw [hwd]
          simp [this]

end AeroOS.Chain
