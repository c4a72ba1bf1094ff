import AeroOS.Fat32.Volume
import Mathlib.Data.List.Perm.Subperm

/-!
# FAT32: chains in the cached table

* `chainOf_congr`: a chain depends on the table entries of its own clusters.
* `allocCluster_spec`: what `alloc_cluster` gives is free, and is marked.
* `fatCache_freeClusters`: what the free loop does to the table.
* `chainOf_of_links`, `chainOf_link` and `chainOf_cut`: the chains when clusters are
  linked, when one is appended and when the end is cut off.
* `chainOf_cleared`: a chain that is freed from its middle on.
-/

namespace AeroOS.Fat32

open Chain

/-! ## Updates of the table -/

section setFat

variable (s : Fat32) (c v : Nat)

@[simp] theorem setFat_geo : (s.setFat c v).geo = s.geo := rfl
@[simp] theorem setFat_inodes : (s.setFat c v).inodes = s.inodes := rfl
@[simp] theorem setFat_disk : (s.setFat c v).disk = s.disk := rfl
@[simp] theorem setFat_self : (s.setFat c v).fatCache c = v := if_pos rfl

theorem setFat_of_ne {x : Nat} (h : x ≠ c) : (s.setFat c v).fatCache x = s.fatCache x :=
  if_neg h

end setFat

/-- The cached table holds 32-bit words. -/
def Words (s : Fat32) : Prop := ∀ x, s.fatCache x < 2 ^ 32

theorem Words.setFat {s : Fat32} (hw : Words s) (c : Nat) {v : Nat} (hv : v < 2 ^ 32) :
    Words (s.setFat c v) := by
  intro x
  by_cases hx : x = c
  · rw [hx, setFat_self]
    exact hv
  · rw [setFat_of_ne s c v hx]
    exact hw x

theorem Geometry.validCluster_lt {g : Geometry} {c : Nat} (h : g.validCluster c = true) :
    c < 2 ^ 32 := by
  have hlt := (Geometry.validCluster_iff.mp h).2
  have := g.fatLen_lt
  simp only [chainGuard] at this
  omega

@[simp] theorem freeClusters_geo (s : Fat32) (l : List Nat) :
    (s.freeClusters l).geo = s.geo := by
  induction l generalizing s with
  | nil => rfl
  | cons c l ih => exact ih _

@[simp] theorem freeClusters_inodes (s : Fat32) (l : List Nat) :
    (s.freeClusters l).inodes = s.inodes := by
  induction l generalizing s with
  | nil => rfl
  | cons c l ih => exact ih _

@[simp] theorem freeClusters_disk (s : Fat32) (l : List Nat) :
    (s.freeClusters l).disk = s.disk := by
  induction l generalizing s with
  | nil => rfl
  | cons c l ih => exact ih _

/-- The free loop clears the entries of its clusters. -/
theorem fatCache_freeClusters (s : Fat32) (l : List Nat) (x : Nat) :
    (s.freeClusters l).fatCache x = if x ∈ l then fatFree else s.fatCache x := by
  induction l generalizing s with
  | nil => rfl
  | cons c l ih =>
    refine (ih (s.setFat c fatFree)).trans ?_
    by_cases hx : x ∈ l
    · rw [if_pos hx, if_pos (List.mem_cons_of_mem c hx)]
    · rw [if_neg hx]
      by_cases hc : x = c
      · rw [hc, setFat_self, if_pos (by simp)]
      · rw [setFat_of_ne s c _ hc, if_neg (by simp [hc, hx])]

/-- `alloc_cluster` finds a free cluster and marks it. -/
theorem allocCluster_spec {s s' : Fat32} {c : Nat} (h : s.allocCluster = some (c, s')) :
    s.geo.validCluster c = true ∧ s.fatCache c = 0 ∧ s' = s.setFat c fatEoc := by
  rw [allocCluster, Option.map_eq_some_iff] at h
  obtain ⟨i, hfind, heq⟩ := h
  obtain ⟨rfl, rfl⟩ := Prod.mk.inj heq
  have hmem := List.mem_of_find?_eq_some hfind
  have hfree := List.find?_some hfind
  rw [List.mem_range'_1] at hmem
  exact ⟨Geometry.validCluster_iff.mpr (by omega), by simpa [fatFree] using hfree, rfl⟩

/-! ## Chains -/

variable {g : Geometry} {fat fat' : Nat → Nat}

theorem clusterChain_def (s : Fat32) (first : Nat) :
    s.clusterChain first = chainOf s.geo s.fatCache first := rfl

theorem chainOf_congr {first : Nat} (h : ∀ x ∈ chainOf g fat first, fat' x = fat x) :
    chainOf g fat' first = chainOf g fat first :=
  walk_congr fun x hx => by rw [nextCluster, nextCluster, h x hx]

theorem valid_of_mem_chainOf {first x : Nat} (h : x ∈ chainOf g fat first) :
    g.validCluster x = true :=
  valid_of_mem_walk h

theorem chainOf_eq_nil {first : Nat} (h : g.validCluster first = false) :
    chainOf g fat first = [] :=
  walk_of_not_valid h

@[simp] theorem chainOf_zero : chainOf g fat 0 = [] :=
  chainOf_eq_nil (by simp [Geometry.validCluster])

theorem mem_chainOf_self {first : Nat} (h : g.validCluster first = true) :
    first ∈ chainOf g fat first :=
  mem_walk_self h (by decide)

theorem chainOf_ne_nil_iff {first : Nat} :
    chainOf g fat first ≠ [] ↔ g.validCluster first = true := by
  constructor
  · intro h
    cases hv : g.validCluster first with
    | true => rfl
    | false => exact absurd (chainOf_eq_nil hv) h
  · intro h hnil
    have : first ∈ chainOf g fat first := mem_chainOf_self h
    simp [hnil] at this

theorem head?_chainOf {first : Nat} (h : g.validCluster first = true) :
    (chainOf g fat first).head? = some first :=
  head?_walk h (by decide)

/-- A chain with no cluster twice is shorter than the bound of the loop. -/
theorem chainOf_length_lt {first : Nat} (h : (chainOf g fat first).Nodup) :
    (chainOf g fat first).length < chainGuard := by
  have hsub : chainOf g fat first ⊆ List.range g.fatLen := fun x hx =>
    List.mem_range.mpr (Geometry.validCluster_iff.mp (valid_of_mem_chainOf hx)).2
  have hle := (List.Nodup.subperm h hsub).length_le
  rw [List.length_range] at hle
  exact hle.trans_lt g.fatLen_lt

theorem nextCluster_fatEoc {c : Nat} (h : fat c = fatEoc) : nextCluster fat c = none :=
  if_pos (Or.inl (by omega))

theorem nextCluster_valid {c d : Nat} (hd : g.validCluster d = true) (h : fat c = d) :
    nextCluster fat c = some d := by
  obtain ⟨h2, hlt⟩ := Geometry.validCluster_iff.mp hd
  have := g.fatLen_lt
  rw [nextCluster, h, if_neg]
  simp only [fatEoc, chainGuard] at *
  omega

/-- A cluster marked as the end is a chain of one. -/
theorem chainOf_singleton {c : Nat} (hc : g.validCluster c = true) (h : fat c = fatEoc) :
    chainOf g fat c = [c] := by
  refine (walk_succ_of_valid (n := chainGuard - 1) hc).trans ?_
  rw [nextCluster_fatEoc h]

/-- The chain along a list of clusters that the table links up. -/
theorem chainOf_of_links {c : Nat} {l : List Nat}
    (hlink : List.IsChain (fun a b => fat a = b) (c :: l))
    (hvalid : ∀ x ∈ c :: l, g.validCluster x = true)
    (hlast : ∀ x ∈ (c :: l).getLast?, fat x = fatEoc) (hlen : (c :: l).length ≤ chainGuard) :
    chainOf g fat c = c :: l := by
  refine walk_eq ?_ (fun x hx => nextCluster_fatEoc (hlast x hx)) hvalid hlen
  exact hlink.imp_of_mem_imp fun a b _ hb h => nextCluster_valid (hvalid b hb) h

/-- Hanging a new cluster behind `last` brings no other cluster into a chain. -/
theorem mem_chainOf_link {first last new x : Nat}
    (hsame : ∀ y, y ≠ last → y ≠ new → fat' y = fat y) (hlast : fat' last = new)
    (hnew : fat' new = fatEoc) (hv : g.validCluster new = true)
    (h : x ∈ chainOf g fat' first) : x ∈ chainOf g fat first ∨ x = new := by
  refine mem_walk_link ?_ (nextCluster_valid hv hlast) (nextCluster_fatEoc hnew) h
  intro y h1 h2
  rw [nextCluster, nextCluster, hsame y h1 h2]

/-- Hanging a new cluster behind the last cluster of a chain appends it. -/
theorem chainOf_link {first last new : Nat}
    (hsame : ∀ y ∈ chainOf g fat first, y ≠ last → fat' y = fat y)
    (hlast : fat' last = new) (hnew : fat' new = fatEoc) (hv : g.validCluster new = true)
    (hgl : (chainOf g fat first).getLast? = some last)
    (hnodup : (chainOf g fat first).Nodup) :
    chainOf g fat' first = chainOf g fat first ++ [new] := by
  refine walk_link (nextCluster_valid hv hlast) (nextCluster_fatEoc hnew) hv ?_ hgl hnodup
    (chainOf_length_lt hnodup)
  intro y hy hne
  rw [nextCluster, nextCluster, hsame y hy hne]

/-- Ending a chain behind its first `k` clusters. -/
theorem chainOf_cut {first last k : Nat} (hk : 0 < k) (hnodup : (chainOf g fat first).Nodup)
    (hgl : ((chainOf g fat first).take k).getLast? = some last) (hlast : fat' last = fatEoc)
    (hsame : ∀ y ∈ (chainOf g fat first).take k, y ≠ last → fat' y = fat y) :
    chainOf g fat' first = (chainOf g fat first).take k := by
  refine walk_cut hk hnodup hgl (nextCluster_fatEoc hlast) ?_
  intro y hy hne
  rw [nextCluster, nextCluster, hsame y hy hne]

/-- From each of its clusters on, a chain is the chain from there. -/
theorem exists_append_of_mem_chainOf {first x : Nat} (hnd : (chainOf g fat first).Nodup)
    (hx : x ∈ chainOf g fat first) : ∃ pre, chainOf g fat first = pre ++ chainOf g fat x :=
  exists_append_of_mem_walk hx (chainOf_length_lt hnd)

/-- What follows a cluster in a table from which entries were cleared. -/
theorem nextCluster_cleared {l : List Nat} (h : ∀ y, fat' y = if y ∈ l then 0 else fat y)
    (y : Nat) : nextCluster fat' y = if y ∈ l then none else nextCluster fat y := by
  rw [nextCluster, nextCluster, h y]
  split
  · rw [if_pos (Or.inr rfl)]
  · rfl

/-- Clearing table entries ends chains earlier. -/
theorem chainOf_shorter {l : List Nat} (h : ∀ y, fat' y = if y ∈ l then 0 else fat y)
    (first : Nat) : chainOf g fat' first <+: chainOf g fat first := by
  refine walk_prefix (fun y => ?_) _ _
  rw [nextCluster_cleared h]
  split
  · exact Or.inr rfl
  · exact Or.inl rfl

/-- Clearing a chain from one of its clusters on leaves this cluster as the last one. -/
theorem chainOf_cleared {first x : Nat} {pre : List Nat} (hnd : (chainOf g fat first).Nodup)
    (hpre : chainOf g fat first = pre ++ chainOf g fat x) (hv : g.validCluster x = true)
    (h : ∀ y, fat' y = if y ∈ chainOf g fat x then 0 else fat y) :
    chainOf g fat' first = pre ++ [x] := by
  obtain ⟨tail, htail⟩ : ∃ tail, chainOf g fat x = x :: tail := by
    have hhead : (chainOf g fat x).head? = some x := head?_chainOf hv
    cases hl : chainOf g fat x with
    | nil => simp [hl] at hhead
    | cons y tail =>
      rw [hl, List.head?_cons, Option.some.injEq] at hhead
      exact ⟨tail, by rw [hhead]⟩
  have htake : (chainOf g fat first).take (pre.length + 1) = pre ++ [x] := by
    rw [hpre, htail, List.take_length_add_append]
    rfl
  rw [← htake]
  refine walk_cut (Nat.succ_pos _) hnd (?_ : List.getLast? _ = some x) ?_ fun y hy hne => ?_
  · exact (congrArg List.getLast? htake).trans (by simp)
  · rw [nextCluster_cleared h, if_pos (htail ▸ List.mem_cons_self)]
  · have hy' : y ∈ pre ++ [x] := htake ▸ hy
    have hyp : y ∈ pre := by simpa [hne] using hy'
    rw [nextCluster_cleared h, if_neg]
    rw [hpre] at hnd
    exact fun hmem => List.disjoint_of_nodup_append hnd hyp hmem

end AeroOS.Fat32
