import Mathlib.Data.List.Chain
import Mathlib.Data.List.Perm.Basic
import Mathlib.Logic.Relation

/-!
# A search in depth

A recursive search expands a node into the nodes below it and goes through them
in order until one does not pass.  It has no memory of where it has been, so it
may never end.

* `search` is the search with a bound on its depth, and `Calls` the relation
  between a node and those that its call goes on to.
* `search_eq_deep`: the bound is hit exactly along a path of calls of that length.
* `search_ends_iff`: over finitely many nodes the search ends if and only if no
  node is called again below itself, and then its depth is at most their number.
-/

namespace AeroOS.Search

variable {δ : Type*} (expand : δ → Option (List δ))

/-- How a search ends: at a node, after all nodes, or at the bound. -/
inductive Outcome where
  | stop
  | pass
  | deep
  deriving DecidableEq

/-- The nodes of a list in order, until one does not pass. -/
def inOrder (f : δ → Outcome) : List δ → Outcome
  | [] => .pass
  | d :: ds =>
    match f d with
    | .pass => inOrder f ds
    | .stop => .stop
    | .deep => .deep

/-- The search from a node.  A node that has no expansion ends it. -/
def search : Nat → δ → Outcome
  | 0, _ => .deep
  | n + 1, d =>
    match expand d with
    | none => .stop
    | some l => inOrder (search n) l

/-- The search goes through everything below the node. -/
inductive Clear : δ → Prop where
  | node {d : δ} {l : List δ} (h : expand d = some l) (hl : ∀ x ∈ l, Clear x) : Clear d

/-- The call for `d` goes on to `e`, as everything before `e` is clear. -/
def Calls (d e : δ) : Prop :=
  ∃ l₁ l₂, expand d = some (l₁ ++ e :: l₂) ∧ ∀ x ∈ l₁, Clear expand x

/-- Below `d` a node is called again below itself. -/
def ComesBack (d : δ) : Prop :=
  ∃ e, Relation.ReflTransGen (Calls expand) d e ∧ Relation.TransGen (Calls expand) e e

variable {expand} {f : δ → Outcome} {l : List δ} {d e : δ} {n : Nat}

theorem inOrder_eq_pass : inOrder f l = .pass ↔ ∀ x ∈ l, f x = .pass := by
  induction l with
  | nil => simp [inOrder]
  | cons d ds ih =>
    rw [inOrder, List.forall_mem_cons]
    cases hd : f d <;> simp [ih]

theorem inOrder_eq_deep :
    inOrder f l = .deep ↔ ∃ l₁ e l₂, l = l₁ ++ e :: l₂ ∧ (∀ x ∈ l₁, f x = .pass) ∧ f e = .deep := by
  induction l with
  | nil => simp [inOrder]
  | cons d ds ih =>
    rw [inOrder]
    constructor
    · intro h
      cases hd : f d with
      | stop => simp [hd] at h
      | deep => exact ⟨[], d, ds, rfl, by simp, hd⟩
      | pass =>
        simp only [hd] at h
        obtain ⟨l₁, e, l₂, rfl, hpass, he⟩ := ih.mp h
        exact ⟨d :: l₁, e, l₂, rfl, List.forall_mem_cons.mpr ⟨hd, hpass⟩, he⟩
    · rintro ⟨l₁, e, l₂, heq, hpass, he⟩
      cases l₁ with
      | nil =>
        obtain ⟨rfl, rfl⟩ := List.cons.inj heq
        simp [he]
      | cons x l₁ =>
        obtain ⟨rfl, rfl⟩ := List.cons.inj heq
        obtain ⟨hx, hpass⟩ := List.forall_mem_cons.mp hpass
        simp only [hx]
        exact ih.mpr ⟨l₁, e, l₂, rfl, hpass, he⟩

theorem clear_of_pass (h : search expand n d = .pass) : Clear expand d := by
  induction n generalizing d with
  | zero => cases h
  | succ n ih =>
    rw [search] at h
    cases hd : expand d with
    | none => simp [hd] at h
    | some l =>
      simp only [hd] at h
      exact .node hd fun x hx => ih (inOrder_eq_pass.mp h x hx)

theorem inOrder_pass_or_deep (h : ∀ x ∈ l, f x = .pass ∨ f x = .deep) :
    inOrder f l = .pass ∨ inOrder f l = .deep := by
  induction l with
  | nil => exact Or.inl rfl
  | cons x l ih =>
    obtain ⟨hx, hl⟩ := List.forall_mem_cons.mp h
    rw [inOrder]
    rcases hx with hx | hx
    · simp only [hx]
      exact ih hl
    · simp [hx]

/-- Through what is clear the search passes, unless it hits the bound. -/
theorem Clear.pass_or_deep (h : Clear expand d) (n : Nat) :
    search expand n d = .pass ∨ search expand n d = .deep := by
  induction h generalizing n with
  | node hd _ ih =>
    cases n with
    | zero => exact Or.inr rfl
    | succ n =>
      simp only [search, hd]
      exact inOrder_pass_or_deep fun x hx => ih x hx n

theorem search_succ_eq_deep :
    search expand (n + 1) d = .deep ↔ ∃ e, Calls expand d e ∧ search expand n e = .deep := by
  rw [search]
  constructor
  · intro h
    cases hd : expand d with
    | none => simp [hd] at h
    | some l =>
      simp only [hd] at h
      obtain ⟨l₁, e, l₂, rfl, hpass, he⟩ := inOrder_eq_deep.mp h
      exact ⟨e, ⟨l₁, l₂, hd, fun x hx => clear_of_pass (hpass x hx)⟩, he⟩
  · rintro ⟨e, ⟨l₁, l₂, hd, hclear⟩, he⟩
    simp only [hd]
    clear hd
    induction l₁ with
    | nil => simp [inOrder, he]
    | cons x l₁ ih =>
      obtain ⟨hx, hclear⟩ := List.forall_mem_cons.mp hclear
      rw [List.cons_append, inOrder]
      rcases hx.pass_or_deep n with hx | hx
      · simp only [hx]
        exact ih hclear
      · simp [hx]

/-- The bound is hit along a path of as many calls. -/
theorem search_eq_deep :
    search expand n d = .deep ↔ ∃ l : List δ, l.length = n ∧ (d :: l).IsChain (Calls expand) := by
  induction n generalizing d with
  | zero => exact iff_of_true rfl ⟨[], rfl, List.isChain_singleton d⟩
  | succ n ih =>
    rw [search_succ_eq_deep]
    constructor
    · rintro ⟨e, hcall, he⟩
      obtain ⟨l, hlen, hchain⟩ := ih.mp he
      exact ⟨e :: l, by rw [List.length_cons, hlen], List.isChain_cons_cons.mpr ⟨hcall, hchain⟩⟩
    · rintro ⟨l, hlen, hchain⟩
      cases l with
      | nil => cases hlen
      | cons e l =>
        obtain ⟨hcall, hrest⟩ := List.isChain_cons_cons.mp hchain
        exact ⟨e, hcall, ih.mpr ⟨l, Nat.succ.inj hlen, hrest⟩⟩

/-! ## When the search ends -/

/-- What comes back goes on to something that comes back. -/
theorem ComesBack.next (h : ComesBack expand d) : ∃ e, Calls expand d e ∧ ComesBack expand e := by
  obtain ⟨e, hde, hee⟩ := h
  rcases Relation.ReflTransGen.cases_head hde with rfl | ⟨x, hdx, hxe⟩
  · obtain ⟨x, hdx, hxd⟩ := Relation.TransGen.head'_iff.mp hee
    exact ⟨x, hdx, d, hxd, hee⟩
  · exact ⟨x, hdx, e, hxe, hee⟩

/-- A search that comes back never ends. -/
theorem ComesBack.deep (h : ComesBack expand d) (n : Nat) : search expand n d = .deep := by
  induction n generalizing d with
  | zero => rfl
  | succ n ih =>
    obtain ⟨e, hcall, he⟩ := h.next
    exact search_succ_eq_deep.mpr ⟨e, hcall, ih he⟩

/-- The nodes of a path that does not come back are different. -/
theorem nodup_of_isChain (h : ¬ ComesBack expand d) (hl : (d :: l).IsChain (Calls expand)) :
    (d :: l).Nodup := by
  have hpair : (d :: l).Pairwise (Relation.TransGen (Calls expand)) :=
    List.isChain_iff_pairwise.mp (hl.imp fun _ _ => Relation.TransGen.single)
  have hreach : ∀ x ∈ d :: l, Relation.ReflTransGen (Calls expand) d x :=
    List.forall_mem_cons.mpr ⟨Relation.ReflTransGen.refl, fun x hx =>
      (List.rel_of_pairwise_cons hpair hx).to_reflTransGen⟩
  refine hpair.imp_of_mem fun {x y} hx _ hxy heq => h ⟨x, hreach x hx, ?_⟩
  rwa [← heq] at hxy

/-- Over finitely many nodes the search ends within their number if and only if
it does not come back. -/
theorem search_ends_iff {nodes : List δ} (hnodes : ∀ x e, Calls expand x e → x ∈ nodes) :
    search expand (nodes.length + 1) d ≠ .deep ↔ ¬ ComesBack expand d := by
  constructor
  · exact fun h hback => h (hback.deep _)
  · intro h hdeep
    obtain ⟨l, hlen, hchain⟩ := search_eq_deep.mp hdeep
    have hnd := nodup_of_isChain h hchain
    -- all but the last node of the path make a call
    have hsub : (d :: l).dropLast ⊆ nodes := by
      intro x hx
      obtain ⟨i, hi, rfl⟩ := List.mem_iff_getElem.mp hx
      rw [List.length_dropLast] at hi
      rw [List.getElem_dropLast]
      exact hnodes _ _ (List.isChain_iff_getElem.mp hchain i (by omega))
    have hle := (List.subperm_of_subset (hnd.sublist (List.dropLast_sublist _)) hsub).length_le
    rw [List.length_dropLast, List.length_cons, hlen] at hle
    omega

end AeroOS.Search
