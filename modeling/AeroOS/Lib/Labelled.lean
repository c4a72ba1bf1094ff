import Mathlib.Data.List.Induction

/-!
# Walks along labels

A relation with labelled edges, and the walks that spell a list of labels.

* `follows_append` and `follows_concat` cut a walk.
* `RootedTree.follows_inj`: when no node has two edges into it, and the root none,
  a node is reached along one list of labels only.
* `AddsLeaf.follows_iff`: with an edge to a new node more, one more list of labels
  leads somewhere.
* `Prunes.follows_iff`: without an edge and the edges of its end, what went through
  it leads nowhere.
-/

namespace AeroOS.Labelled

variable {α ι : Type*} {R R' : α → ι → α → Prop} {root : α}

/-- The labels lead from `a` to `b`. -/
def Follows (R : α → ι → α → Prop) : α → List ι → α → Prop
  | a, [], b => a = b
  | a, l :: ls, b => ∃ m, R a l m ∧ Follows R m ls b

theorem follows_append {a b : α} {ls ls' : List ι} :
    Follows R a (ls ++ ls') b ↔ ∃ m, Follows R a ls m ∧ Follows R m ls' b := by
  induction ls generalizing a with
  | nil => simp only [List.nil_append, Follows, exists_eq_left']
  | cons l ls ih =>
    simp only [List.cons_append, Follows, ih]
    constructor
    · rintro ⟨c, hc, m, hm, hb⟩
      exact ⟨m, ⟨c, hc, hm⟩, hb⟩
    · rintro ⟨m, ⟨c, hc, hm⟩, hb⟩
      exact ⟨c, hc, m, hm, hb⟩

theorem follows_concat {a b : α} {ls : List ι} {l : ι} :
    Follows R a (ls ++ [l]) b ↔ ∃ m, Follows R a ls m ∧ R m l b := by
  simp only [follows_append, Follows, exists_eq_right]

/-- Where a node has one edge with a label, a walk has one end. -/
theorem follows_unique (hdet : ∀ {a l b c}, R a l b → R a l c → b = c) {a b c : α} {ls : List ι}
    (hb : Follows R a ls b) (hc : Follows R a ls c) : b = c := by
  induction ls generalizing a with
  | nil => exact hb.symm.trans hc
  | cons l ls ih =>
    obtain ⟨m, hm, hb⟩ := hb
    obtain ⟨m', hm', hc⟩ := hc
    obtain rfl := hdet hm hm'
    exact ih hb hc

theorem Follows.mono (hsub : ∀ {a l b}, R a l b → R' a l b) {a b : α} {ls : List ι}
    (h : Follows R a ls b) : Follows R' a ls b := by
  induction ls generalizing a with
  | nil => exact h
  | cons l ls ih =>
    obtain ⟨m, hm, h⟩ := h
    exact ⟨m, hsub hm, ih h⟩

/-- Every node has at most one edge into it, the root has none. -/
structure RootedTree (R : α → ι → α → Prop) (root : α) : Prop where
  unique : ∀ {a l b m c}, R a l c → R b m c → a = b ∧ l = m
  top : ∀ a l, ¬ R a l root

/-- A node is reached along one list of labels. -/
theorem RootedTree.follows_inj (h : RootedTree R root) {x : α} {ls ms : List ι}
    (hls : Follows R root ls x) (hms : Follows R root ms x) : ls = ms := by
  have htop : ∀ {ls l}, ¬ Follows R root (ls ++ [l]) root := fun hl => by
    obtain ⟨m, -, hm⟩ := follows_concat.1 hl
    exact h.top m _ hm
  induction ls using List.reverseRecOn generalizing x ms with
  | nil =>
    obtain rfl : root = x := hls
    rcases List.eq_nil_or_concat ms with rfl | ⟨ms, m, rfl⟩
    · rfl
    · rw [List.concat_eq_append] at hms
      exact absurd hms htop
  | append_singleton ls l ih =>
    rcases List.eq_nil_or_concat ms with rfl | ⟨ms, m, rfl⟩
    · obtain rfl : root = x := hms
      exact absurd hls htop
    · rw [List.concat_eq_append] at hms ⊢
      obtain ⟨a, ha, hal⟩ := follows_concat.1 hls
      obtain ⟨b, hb, hbm⟩ := follows_concat.1 hms
      obtain ⟨rfl, rfl⟩ := h.unique hal hbm
      rw [ih ha hb]

/-- `R'` has one edge more, which goes to a new node. -/
structure AddsLeaf (R R' : α → ι → α → Prop) (d : α) (name : ι) (new : α) : Prop where
  iff : ∀ {a l b}, R' a l b ↔ R a l b ∨ a = d ∧ l = name ∧ b = new
  no_edge : ∀ l b, ¬ R' new l b

/-- One more list of labels leads somewhere. -/
theorem AddsLeaf.follows_iff {d new : α} {name : ι} (h : AddsLeaf R R' d name new) {x : α}
    {ls : List ι} : Follows R' root ls x ↔
      Follows R root ls x ∨ ∃ ms, ls = ms ++ [name] ∧ Follows R root ms d ∧ x = new := by
  constructor
  · intro hx
    induction ls using List.reverseRecOn generalizing x with
    | nil => exact Or.inl hx
    | append_singleton ls l ih =>
      obtain ⟨m, hm, hlast⟩ := follows_concat.1 hx
      rcases ih hm with hm | ⟨-, -, -, rfl⟩
      · rcases h.iff.1 hlast with hlast | ⟨rfl, rfl, rfl⟩
        · exact Or.inl (follows_concat.2 ⟨m, hm, hlast⟩)
        · exact Or.inr ⟨ls, rfl, hm, rfl⟩
      · exact absurd hlast (h.no_edge _ _)
  · rintro (hx | ⟨ms, rfl, hms, rfl⟩)
    · exact hx.mono fun hr => h.iff.2 (Or.inl hr)
    · exact follows_concat.2 ⟨d, hms.mono fun hr => h.iff.2 (Or.inl hr),
        h.iff.2 (Or.inr ⟨rfl, rfl, rfl⟩)⟩

/-- `R'` lacks the edge from `d` to `gone`, and the edges from `gone`. -/
structure Prunes (R R' : α → ι → α → Prop) (d : α) (name : ι) (gone : α) : Prop where
  was : R d name gone
  iff : ∀ {a l b}, R' a l b ↔ R a l b ∧ ¬ (a = d ∧ l = name) ∧ a ≠ gone

/-- The lists of labels that went through the edge lead nowhere. -/
theorem Prunes.follows_iff {d gone : α} {name : ι} (h : Prunes R R' d name gone)
    (htree : RootedTree R root) (hdet : ∀ {a l b c}, R a l b → R a l c → b = c) {ms : List ι}
    (hms : Follows R root ms d) (x : α) (ls : List ι) :
    Follows R' root ls x ↔ Follows R root ls x ∧ ¬ ms ++ [name] <+: ls := by
  have hgone : Follows R root (ms ++ [name]) gone := follows_concat.2 ⟨d, hms, h.was⟩
  constructor
  · intro hx
    induction ls using List.reverseRecOn generalizing x with
    | nil => exact ⟨hx, fun hp => by simpa using hp.length_le⟩
    | append_singleton ls l ih =>
      obtain ⟨m, hm, hlast⟩ := follows_concat.1 hx
      obtain ⟨hm, hno⟩ := ih m hm
      obtain ⟨hlast, hne, -⟩ := h.iff.1 hlast
      refine ⟨follows_concat.2 ⟨m, hm, hlast⟩, fun hp => ?_⟩
      rcases List.prefix_concat_iff.1 hp with heq | hp
      · obtain ⟨rfl, hl⟩ := List.append_inj' heq rfl
        exact hne ⟨follows_unique @hdet hm hms, (List.singleton_inj.1 hl).symm⟩
      · exact hno hp
  · rintro ⟨hx, hno⟩
    induction ls using List.reverseRecOn generalizing x with
    | nil => exact hx
    | append_singleton ls l ih =>
      obtain ⟨m, hm, hlast⟩ := follows_concat.1 hx
      have hno' : ¬ ms ++ [name] <+: ls := fun hp => hno (hp.trans (List.prefix_append ls [l]))
      refine follows_concat.2 ⟨m, ih m hm hno', h.iff.2 ⟨hlast, ?_, ?_⟩⟩
      · rintro ⟨rfl, rfl⟩
        exact hno (htree.follows_inj hm hms ▸ List.prefix_rfl)
      · rintro rfl
        exact hno' (htree.follows_inj hm hgone ▸ List.prefix_rfl)

end AeroOS.Labelled
