import Mathlib.Algebra.GroupWithZero.Nat
import Mathlib.Data.List.Chain
import Mathlib.Data.List.Perm.Basic
import Mathlib.Logic.Relation

/-!
# Trees by their edges

A relation whose nodes have at most one predecessor, and a root without one.

* `Rooted.nodup_of_isChain`: a path from the root visits no node twice.
* `Rooted.acyclic` and `Rooted.exists_path`: no path comes back, so none is long.
* `Rooted.not_reach_child` and `reach_without` are about a node that loses its
  edges: what hung on them is lost, and nothing else.
-/

namespace AeroOS.Tree

variable {α : Type*} {R : α → α → Prop} {root c : α}

/-- A node can be reached from the root. -/
def Reach (R : α → α → Prop) (root : α) : α → Prop := Relation.ReflTransGen R root

/-- The edges that do not start at `c`. -/
def Without (R : α → α → Prop) (c a b : α) : Prop := R a b ∧ a ≠ c

/-- Every node has at most one predecessor, the root has none. -/
structure Rooted (R : α → α → Prop) (root : α) : Prop where
  unique : ∀ {a b c}, R a c → R b c → a = b
  top : ∀ a, ¬ R a root

namespace Rooted

variable (h : Rooted R root)

include h

/-- Going back in step from two places with one node ends at the root. -/
theorem getElem_ne_of_lt {l : List α} (hl : (root :: l).IsChain R) {i j : Nat} (hij : i < j)
    (hj : j < (root :: l).length) : (root :: l)[i] ≠ (root :: l)[j] := by
  induction i generalizing j with
  | zero =>
    intro heq
    obtain ⟨k, rfl⟩ : ∃ k, j = k + 1 := ⟨j - 1, by omega⟩
    have hk := List.isChain_iff_getElem.1 hl k hj
    rw [← heq] at hk
    exact h.top _ hk
  | succ i ih =>
    intro heq
    obtain ⟨k, rfl⟩ : ∃ k, j = k + 1 := ⟨j - 1, by omega⟩
    have hi := List.isChain_iff_getElem.1 hl i (by omega)
    have hk := List.isChain_iff_getElem.1 hl k hj
    rw [← heq] at hk
    exact ih (by omega) (by omega) (h.unique hi hk)

/-- A path from the root visits no node twice. -/
theorem nodup_of_isChain {l : List α} (hl : (root :: l).IsChain R) : (root :: l).Nodup :=
  List.pairwise_iff_getElem.2 fun _ _ _ hj hij => h.getElem_ne_of_lt hl hij hj

/-- No path leads from a node that can be reached back to it. -/
theorem acyclic {x : α} (hx : Reach R root x) : ¬ Relation.TransGen R x x := by
  induction hx with
  | refl =>
    intro hback
    obtain ⟨a, -, hlast⟩ := Relation.TransGen.tail'_iff.mp hback
    exact h.top a hlast
  | @tail a b _ hab ih =>
    intro hback
    obtain ⟨c, hbc, hlast⟩ := Relation.TransGen.tail'_iff.mp hback
    obtain rfl := h.unique hab hlast
    exact ih (Relation.TransGen.head' hab hbc)

/-- No node that can be reached has an edge to itself. -/
theorem irrefl {x : α} (hx : Reach R root x) : ¬ R x x := fun hxx =>
  h.acyclic hx (Relation.TransGen.single hxx)

/-- A path to a node is no longer than the nodes with edges are many. -/
theorem exists_path {x : α} (hx : Reach R root x) {nodes : List α}
    (hnodes : ∀ a b, R a b → a ∈ nodes) :
    ∃ l : List α, (root :: l).IsChain R ∧ (root :: l).getLast (List.cons_ne_nil root l) = x ∧
      l.length ≤ nodes.length := by
  obtain ⟨l, hchain, hlast⟩ := List.exists_isChain_cons_of_relationReflTransGen hx
  refine ⟨l, hchain, hlast, ?_⟩
  have hsub : (root :: l).dropLast ⊆ nodes := fun a ha => by
    obtain ⟨i, hi, rfl⟩ := List.mem_iff_getElem.mp ha
    rw [List.length_dropLast] at hi
    rw [List.getElem_dropLast]
    exact hnodes _ _ (List.isChain_iff_getElem.mp hchain i (by omega))
  have hnd : (root :: l).dropLast.Nodup :=
    (h.nodup_of_isChain hchain).sublist (List.dropLast_sublist _)
  have hle := (List.subperm_of_subset hnd hsub).length_le
  rwa [List.length_dropLast, List.length_cons, Nat.add_sub_cancel] at hle

/-- What had its edge from `c` is lost without the edges of `c`. -/
theorem not_reach_child {k : α} (hk : R c k) : ¬ Reach (Without R c) root k := by
  intro hreach
  rcases Relation.ReflTransGen.cases_tail hreach with heq | ⟨a, -, hlast, hne⟩
  · exact h.top c (heq ▸ hk)
  · exact hne (h.unique hlast hk)

end Rooted

/-- Without the edges of `c` all other nodes are still reached when those are that had an
edge from `c`.  `S` holds of the nodes with edges. -/
theorem reach_without {S : α → Prop} (hsource : ∀ {a b}, R a b → S a)
    (hother : ∀ b, S b → R c b → b ≠ c → Reach (Without R c) root b) {x : α}
    (hx : Reach R root x) (hS : S x) (hne : x ≠ c) : Reach (Without R c) root x := by
  induction hx with
  | refl => exact Relation.ReflTransGen.refl
  | @tail a b _ hab ih =>
    by_cases hac : a = c
    · exact hother b hS (hac ▸ hab) hne
    · exact Relation.ReflTransGen.tail (ih (hsource hab) hac) ⟨hab, hac⟩

end AeroOS.Tree
