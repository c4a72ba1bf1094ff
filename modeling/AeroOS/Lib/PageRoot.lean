import AeroOS.Lib.PageWalk

/-!
# The root of a table

What a walk does to the entries of the root: it touches the entry of its own
path, and a walk for a page of the user leaves this entry present and for the
user.

* `Walk.root_below`: below the root a walk leaves the root alone.
* `Walk.root`: the entries of the root after a walk.
* `Tree.sub`: a tree under some of the entries.
* `Tree.refree`: a tree with another stack of free frames.
-/

namespace AeroOS.Paging

open AeroOS.Bytes

variable {own own' kern : Nat → Prop} {t frame fl g i : Nat} {path is P Q : List Nat}
  {p p' : Phys} {r : Bool}

/-- The entry is present and for the user. -/
def UserEntry (e : Nat) : Prop := present e = true ∧ user e = true

instance (e : Nat) : Decidable (UserEntry e) := inferInstanceAs (Decidable (_ ∧ _))

theorem user_parentFlags (fl : Nat) : user (parentFlags fl) = user fl := by
  rw [user, parentFlags, Nat.testBit_and, user, show Nat.testBit 7 2 = true by decide,
    Bool.and_true]

/-- An entry that gets the flags of a page of the user. -/
theorem userEntry_lor (e : Nat) (hfl : UserEntry fl) : UserEntry (e ||| parentFlags fl) := by
  refine ⟨?_, ?_⟩
  · rw [present, Nat.testBit_or, ← present, ← present, present_parentFlags, hfl.1, Bool.or_true]
  · rw [user, Nat.testBit_or, ← user, ← user, user_parentFlags, hfl.2, Bool.or_true]

/-- A table below the root is not the root. -/
theorem Tree.ne_root (T : Tree own kern p t) (hQ : Held own kern Q) (hne : Q ≠ [])
    (hg : reach p.mem t Q = some g) : g ≠ t := fun he =>
  hne (T.apart [] Q t Own.nil hQ rfl (he ▸ hg)).symm

/-- A table on the way is held, and a step further too. -/
theorem Held.step {j : Nat} (hroute : Route (fun i => own i ∨ kern i) path)
    (hpath : path = (i :: j :: is).reverse ++ Q) (hlen : (i :: j :: is).length + Q.length = 4) :
    Held own kern (i :: Q) := by
  simp only [List.length_cons] at hlen
  exact ⟨hroute.suffix ⟨is.reverse ++ [j], by simp [hpath]⟩,
    Or.inl (by simp only [List.length_cons]; omega)⟩

/-- A walk from a table below the root leaves the root alone. -/
theorem Walk.root_below (hw : Walk frame fl p g is r p') (T : Tree own kern p t)
    (hfl : IsFlags fl) (hpres : present fl = true) (hroute : Route (fun i => own i ∨ kern i) path)
    (hQ : Held own kern Q) (hg : reach p.mem t Q = some g) (hlen : is.length + Q.length = 4)
    (hpath : path = is.reverse ++ Q) (hne : Q ≠ []) {j : Nat} (hj : j < 512) :
    entry p'.mem t j = entry p.mem t j := by
  induction hw generalizing Q with
  | taken | outOfFrames => rfl
  | @map p g i h =>
    have hi : i < 512 := hroute.1 i (by simp [hpath])
    exact entry_setEntry_other _ (frame ||| fl) (reach_isFrame T.root hg) T.root
      (Ne.symm (T.ne_root hQ hne hg)) hi hj
  | @huge p g i j' is h hh =>
    have hi := Held.step hroute hpath hlen
    exact entry_setEntry_other _ _ (reach_isFrame T.root hg) T.root
      (Ne.symm (T.ne_root hQ hne hg)) hi.head hj
  | @create p p' g i j' is r f rest h hfree next ih =>
    have hi := Held.step hroute hpath hlen
    have hgt := Ne.symm (T.ne_root hQ hne hg)
    have hft : t ≠ f := fun he =>
      T.unfree [] t Held.nil rfl (hfree ▸ he ▸ List.mem_cons_self)
    have hf : IsFrame f := T.freeFrame f (hfree ▸ List.mem_cons_self)
    simp only [List.length_cons] at hlen
    obtain ⟨hq, hr⟩ := Grown.create T hi (by omega) ⟨_, hpath.symm⟩ hg hfl h hpres hfree
    rw [ih hq.tree hi hr (by simp only [List.length_cons]; omega) (by simp [hpath])
      (List.cons_ne_nil i Q)]
    rw [entry_zeroFrame _ hf T.root hft hj,
      entry_setEntry_other _ _ (reach_isFrame T.root hg) T.root hgt hi.head hj,
      entry_zeroFrame _ hf T.root hft hj]
  | @descend p p' g i j' is r h hh next ih =>
    have hi := Held.step hroute hpath hlen
    have hgt := Ne.symm (T.ne_root hQ hne hg)
    simp only [List.length_cons] at hlen
    have hp := (T.unused i Q g hi (by omega) hg).resolve_left h
    have hr : reach p.mem t (i :: Q) = some (addr (entry p.mem g i)) :=
      reach_cons.2 ⟨g, hg, hp, by simp [hh], rfl⟩
    have hq := Grown.raise T hi (by omega) ⟨_, hpath.symm⟩ hg hfl h
    rw [ih hq.tree hi (hq.mono _ _ hi hr) (by simp only [List.length_cons]; omega)
      (by simp [hpath]) (List.cons_ne_nil i Q)]
    exact entry_setEntry_other _ _ (reach_isFrame T.root hg) T.root hgt hi.head hj

section Root

variable (T : Tree own kern p t) (hfl : IsFlags fl) (hpres : present fl = true)
  (hroute : Route (fun i => own i ∨ kern i) (i :: is).reverse) (hlen : (i :: is).length = 4)
include T hfl hpres hroute hlen

/-- The entries of the root after a walk: the entry of the path was set first,
and the others are as they were. -/
theorem Walk.root (hw : Walk frame fl p t (i :: is) r p') :
    (∀ j, j < 512 → j ≠ i → entry p'.mem t j = entry p.mem t j) ∧
      (entry p'.mem t i = entry p.mem t i ∧ r = false ∨
        ∃ e, entry p'.mem t i = e ||| parentFlags fl) := by
  have hi : i < 512 := hroute.1 i (by simp)
  obtain ⟨j, is, rfl⟩ := List.exists_cons_of_ne_nil (l := is) (by rintro rfl; simp at hlen)
  have hheld : Held own kern [i] :=
    Held.step hroute (List.append_nil (i :: j :: is).reverse).symm (by simpa using hlen)
  have hpath : (i :: j :: is).reverse = (j :: is).reverse ++ [i] := by simp
  have hsuf : [] <:+ (i :: j :: is).reverse := List.nil_suffix
  have hset : ∀ (m : Store) (e : Nat) {k}, k ≠ i → entry (setEntry m t i e) t k = entry m t k :=
    fun m e k hk => entry_setEntry_ne m t e (Ne.symm hk)
  cases hw with
  | outOfFrames => exact ⟨fun _ _ _ => rfl, Or.inl ⟨rfl, rfl⟩⟩
  | huge h hh =>
    refine ⟨fun k _ hk => hset _ _ hk, Or.inr ⟨entry p.mem t i, ?_⟩⟩
    exact entry_setEntry _ _ _ (Nat.or_lt_two_pow (entry_lt ..) (isFlags_parentFlags hfl).lt)
  | @create _ _ _ _ _ _ _ f rest h hfree next =>
    have hft : t ≠ f := fun he =>
      T.unfree [] t Held.nil rfl (hfree ▸ he ▸ List.mem_cons_self)
    have hf : IsFrame f := T.freeFrame f (hfree ▸ List.mem_cons_self)
    obtain ⟨hq, hr⟩ := Grown.create T hheld (by simp) hsuf rfl hfl h hpres hfree
    have hout : ∀ {k}, k < 512 → entry p'.mem t k = entry
        (zeroFrame (setEntry (zeroFrame p.mem f) t i (f ||| parentFlags fl)) f) t k := fun hk =>
      next.root_below hq.tree hfl hpres hroute hheld hr (by simpa using hlen) hpath
        (List.cons_ne_nil i []) hk
    refine ⟨fun k hk hki => ?_, Or.inr ⟨f, ?_⟩⟩
    · rw [hout hk, entry_zeroFrame _ hf T.root hft hk, hset _ _ hki,
        entry_zeroFrame _ hf T.root hft hk]
    · rw [hout hi, entry_zeroFrame _ hf T.root hft hi]
      exact entry_setEntry _ _ _ (or_lt hf (isFlags_parentFlags hfl))
  | @descend _ _ _ _ _ _ _ h hh next =>
    have hp := (T.unused i [] t hheld (by simp) rfl).resolve_left h
    have hr : reach p.mem t [i] = some (addr (entry p.mem t i)) :=
      reach_cons.2 ⟨t, rfl, hp, by simp [hh], rfl⟩
    have hq := Grown.raise T hheld (by simp) hsuf rfl hfl h
    have hout : ∀ {k}, k < 512 → entry p'.mem t k = entry
        (setEntry p.mem t i (entry p.mem t i ||| parentFlags fl)) t k := fun hk =>
      next.root_below hq.tree hfl hpres hroute hheld (hq.mono _ _ hheld hr)
        (by simpa using hlen) hpath (List.cons_ne_nil i []) hk
    refine ⟨fun k hk hki => (hout hk).trans (hset _ _ hki), Or.inr ⟨entry p.mem t i, ?_⟩⟩
    rw [hout hi]
    exact entry_setEntry _ _ _ (Nat.or_lt_two_pow (entry_lt ..) (isFlags_parentFlags hfl).lt)

end Root

/-- A tree under some of the entries. -/
theorem Tree.sub (T : Tree own kern p t) (h : ∀ i, i < 512 → own' i → own i) :
    Tree own' (fun _ => False) p t := by
  have hown : ∀ {P}, Own own' P → Own own P := fun hP =>
    ⟨⟨hP.1.1, fun i hi => h i (hP.1.1 i (List.mem_of_getLast? hi)) (hP.1.2 i hi)⟩, hP.2⟩
  have hheld : ∀ {P}, Held own' (fun _ => False) P → Held own kern P := fun hP =>
    (hown hP.owned).held
  exact
    { root := T.root
      freeFrame := T.freeFrame
      freeNodup := T.freeNodup
      unfree := fun P g hP => T.unfree P g (hheld hP)
      apart := fun P Q g hP hQ => T.apart P Q g (hown hP) (hheld hQ)
      unused := fun i P g hP => T.unused i P g (hheld hP)
      small := fun i P g hP => T.small i P g (hown hP) }

/-- Two memories with the same entries in the tables have the same pages. -/
theorem Tree.leaf_congr {m m' : Store}
    (h : ∀ P g i, Held own kern (i :: P) → reach m t P = some g → entry m' g i = entry m g i)
    (hP : Held own kern P) : leaf m' t P = leaf m t P := by
  cases P with
  | nil => rfl
  | cons i P =>
    rw [leaf, leaf, Tree.reach_congr h hP.tail]
    cases hg : reach m t P with
    | none => rfl
    | some g => simp only [h P g i hP hg]

/-- A tree does not depend on which other frames are free. -/
theorem Tree.refree (T : Tree own kern p t) {l : List Nat} (hframe : ∀ f ∈ l, IsFrame f)
    (hnodup : l.Nodup) (hout : ∀ P g, Held own kern P → reach p.mem t P = some g → g ∉ l) :
    Tree own kern ⟨p.mem, l⟩ t where
  root := T.root
  freeFrame := hframe
  freeNodup := hnodup
  unfree := hout
  apart := T.apart
  unused := T.unused
  small := T.small

end AeroOS.Paging
