import AeroOS.Lib.Paging

/-!
# Mapping a page

The four-level walk that maps a page, as the processor's manual gives it: it
follows the indices from the root, takes a frame for a table that is missing,
and sets the entry of the last table.

* `Walk` is the walk as a relation, with the ways in which it fails.
* `Grown` is what the walk does above the last table: tables are added, no path
  is cut and no page of the tree is touched.  `Walk.grown` cuts a walk into this
  part and the write of the last entry.
* `Walk.extended`: what a walk does to the tree, whether it succeeds or not.
* `Walk.leaf_ok`: a walk that succeeds adds one page to the tree.
-/

namespace AeroOS.Paging

open AeroOS.Bytes

/-- The walk from a table along indices, the first one first.  `true` is a walk
that set the last entry to `frame` and the flags `fl`. -/
inductive Walk (frame fl : Nat) : Phys → Nat → List Nat → Bool → Phys → Prop
  | taken {p g i} (h : entry p.mem g i ≠ 0) : Walk frame fl p g [i] false p
  | map {p g i} (h : entry p.mem g i = 0) :
    Walk frame fl p g [i] true ⟨setEntry p.mem g i (frame ||| fl), p.free⟩
  | outOfFrames {p g i j is} (h : entry p.mem g i = 0) (hfree : p.free = []) :
    Walk frame fl p g (i :: j :: is) false p
  | create {p p' g i j is r f rest} (h : entry p.mem g i = 0) (hfree : p.free = f :: rest)
    (next : Walk frame fl
      ⟨zeroFrame (setEntry (zeroFrame p.mem f) g i (f ||| parentFlags fl)) f, rest⟩
      f (j :: is) r p') : Walk frame fl p g (i :: j :: is) r p'
  | descend {p p' g i j is r} (h : entry p.mem g i ≠ 0) (hh : huge (entry p.mem g i) = false)
    (next : Walk frame fl ⟨setEntry p.mem g i (entry p.mem g i ||| parentFlags fl), p.free⟩
      (addr (entry p.mem g i)) (j :: is) r p') : Walk frame fl p g (i :: j :: is) r p'
  | huge {p g i j is} (h : entry p.mem g i ≠ 0) (hh : huge (entry p.mem g i) = true) :
    Walk frame fl p g (i :: j :: is) false
      ⟨setEntry p.mem g i (entry p.mem g i ||| parentFlags fl), p.free⟩

/-- The walk as a function. -/
def walk (frame fl : Nat) (p : Phys) (g : Nat) : List Nat → Bool × Phys
  | [] => (false, p)
  | [i] =>
    if entry p.mem g i = 0 then (true, ⟨setEntry p.mem g i (frame ||| fl), p.free⟩)
    else (false, p)
  | i :: j :: is =>
    if entry p.mem g i = 0 then
      match p.free with
      | [] => (false, p)
      | f :: rest =>
        walk frame fl ⟨zeroFrame (setEntry (zeroFrame p.mem f) g i (f ||| parentFlags fl)) f, rest⟩
          f (j :: is)
    else if Paging.huge (entry p.mem g i) then
      (false, ⟨setEntry p.mem g i (entry p.mem g i ||| parentFlags fl), p.free⟩)
    else
      walk frame fl ⟨setEntry p.mem g i (entry p.mem g i ||| parentFlags fl), p.free⟩
        (addr (entry p.mem g i)) (j :: is)

theorem walk_walk (frame fl : Nat) (p : Phys) (g : Nat) {is : List Nat} (his : is ≠ []) :
    Walk frame fl p g is (walk frame fl p g is).1 (walk frame fl p g is).2 := by
  induction is generalizing p g with
  | nil => exact absurd rfl his
  | cons i is ih =>
    cases is with
    | nil =>
      rw [walk]
      by_cases h : entry p.mem g i = 0
      · rw [if_pos h]
        exact .map h
      · rw [if_neg h]
        exact .taken h
    | cons j is =>
      rw [walk]
      by_cases h : entry p.mem g i = 0
      · rw [if_pos h]
        cases hfree : p.free with
        | nil => exact .outOfFrames h hfree
        | cons f rest => exact .create h hfree (ih _ _ (List.cons_ne_nil j is))
      · rw [if_neg h]
        cases hh : huge (entry p.mem g i) with
        | true => exact .huge h hh
        | false => exact .descend h hh (ih _ _ (List.cons_ne_nil j is))

/-- A walk takes frames off the stack, and puts none back. -/
theorem Walk.free {frame fl g : Nat} {is : List Nat} {r : Bool} {p p' : Phys}
    (h : Walk frame fl p g is r p') : p'.free <:+ p.free := by
  induction h with
  | taken | map | outOfFrames | huge => exact List.suffix_rfl
  | create h hfree next ih => exact ih.trans (hfree ▸ List.suffix_cons _ _)
  | descend h hh next ih => exact ih

variable {own kern : Nat → Prop} {t frame fl : Nat} {path : List Nat} {p p' p'' : Phys}

/-- What happens above the last table on the way along `path`. -/
structure Grown (own kern : Nat → Prop) (t : Nat) (path : List Nat) (p p' : Phys) : Prop where
  tree : Tree own kern p' t
  free : p'.free <:+ p.free
  mono : ∀ P g, Held own kern P → reach p.mem t P = some g → reach p'.mem t P = some g
  new : ∀ P g, Held own kern P → reach p'.mem t P = some g →
    reach p.mem t P = some g ∨ g ∈ p.free ∧ g ∉ p'.free
  leaf : ∀ P, Own own P → P.length = 4 → leaf p'.mem t P = leaf p.mem t P
  mem : ∀ x, p'.mem x = p.mem x ∨ (∃ f ∈ p.free, f ∉ p'.free ∧ InFrame f x) ∨
    ∃ Q g, Held own kern Q ∧ Q.length ≤ 3 ∧ Q <:+ path ∧ reach p.mem t Q = some g ∧ InFrame g x

namespace Grown

theorem refl (T : Tree own kern p t) : Grown own kern t path p p where
  tree := T
  free := List.suffix_rfl
  mono := fun _ _ _ h => h
  new := fun _ _ _ h => Or.inl h
  leaf := fun _ _ _ => rfl
  mem := fun _ => Or.inl rfl

theorem trans (h : Grown own kern t path p p') (h' : Grown own kern t path p' p'') :
    Grown own kern t path p p'' where
  tree := h'.tree
  free := h'.free.trans h.free
  mono := fun P g hP hg => h'.mono P g hP (h.mono P g hP hg)
  new := fun P g hP hg => by
    rcases h'.new P g hP hg with hg | ⟨h1, h2⟩
    · exact (h.new P g hP hg).imp_right fun hf => ⟨hf.1, fun hmem => hf.2 (h'.free.subset hmem)⟩
    · exact Or.inr ⟨h.free.subset h1, h2⟩
  leaf := fun P hP h4 => (h'.leaf P hP h4).trans (h.leaf P hP h4)
  mem := fun x => by
    rcases h'.mem x with he | ⟨f, hf, hf', hx⟩ | ⟨Q, g, hQ, hlen, hsuf, hg, hx⟩
    · rw [he]
      exact (h.mem x).imp_right fun hc => hc.imp_left fun ⟨f, hf, hf', hx⟩ =>
        ⟨f, hf, fun hmem => hf' (h'.free.subset hmem), hx⟩
    · exact Or.inr (Or.inl ⟨f, h.free.subset hf, hf', hx⟩)
    · rcases h.new Q g hQ hg with hg | ⟨h1, h2⟩
      · exact Or.inr (Or.inr ⟨Q, g, hQ, hlen, hsuf, hg, hx⟩)
      · exact Or.inr (Or.inl ⟨g, h1, fun hmem => h2 (h'.free.subset hmem), hx⟩)

/-- A frame that was taken before stays out of the tables. -/
theorem fresh (T : Tree own kern p t) (h : Grown own kern t path p p') (hf : Fresh own kern p t frame) :
    Fresh own kern p' t frame where
  frame := hf.frame
  taken := fun hmem => hf.taken (h.free.subset hmem)
  out := fun P hP hr => by
    rcases h.new P frame hP hr with hr | ⟨hmem, -⟩
    · exact hf.out P hP hr
    · exact hf.taken hmem
  zero := fun x hx => by
    rcases h.mem x with he | ⟨f, hmem, -, hx'⟩ | ⟨Q, g, hQ, -, -, hg, hx'⟩
    · rw [he, hf.zero x hx]
    · exact absurd (hf.frame.eq_of_inFrame (T.freeFrame f hmem) hx hx' ▸ hmem) hf.taken
    · exact absurd (hf.frame.eq_of_inFrame (reach_isFrame T.root hg) hx hx' ▸ hg) (hf.out Q hQ)

end Grown

/-- A frame of zeros stays as it is when an entry of another table is set. -/
theorem zeroFrame_setEntry {m : Store} {f g i e : Nat} (hz : ∀ x, InFrame f x → m x = 0)
    (hf : IsFrame f) (hg : IsFrame g) (hne : f ≠ g) (hi : i < 512) :
    zeroFrame (setEntry m g i e) f = setEntry m g i e := by
  funext x
  by_cases hx : InFrame f x
  · rw [zeroFrame_in _ hx, setEntry_out _ _ hi fun hx' => hne (hf.eq_of_inFrame hg hx hx'), hz x hx]
  · rw [zeroFrame_out _ hx]

/-- A write to an entry of a table is a write to the frame of the table. -/
theorem setEntry_cases (m : Store) {g i : Nat} (e : Nat) (hi : i < 512) (x : Nat) :
    setEntry m g i e x = m x ∨ InFrame g x := by
  by_cases hx : InFrame g x
  · exact Or.inr hx
  · exact Or.inl (setEntry_out m e hi hx)

section Steps

variable (T : Tree own kern p t) {Q : List Nat} {i g : Nat} (hi : Held own kern (i :: Q))
  (hlen : Q.length < 3) (hsuf : Q <:+ path) (hg : reach p.mem t Q = some g) (hfl : IsFlags fl)
include T hi hlen hsuf hg hfl

/-- Flags of an entry for a table are set. -/
theorem Grown.raise (h0 : entry p.mem g i ≠ 0) :
    Grown own kern t path p ⟨setEntry p.mem g i (entry p.mem g i ||| parentFlags fl), p.free⟩ where
  tree := T.raise hi hlen hg h0 hfl
  free := List.suffix_rfl
  mono := fun _ _ hP hk => (T.raise_reach hi hlen hg h0 hfl hP).trans hk
  new := fun _ _ hP hk => Or.inl ((T.raise_reach hi hlen hg h0 hfl hP).symm.trans hk)
  leaf := fun _ hP h4 => T.raise_leaf hi hlen hg h0 hfl hP h4
  mem := fun x => (setEntry_cases p.mem _ hi.head x).imp_right fun hx =>
    Or.inr ⟨Q, g, hi.tail, Nat.le_of_lt hlen, hsuf, hg, hx⟩

/-- A table is added. -/
theorem Grown.create {f : Nat} {rest : List Nat} (h0 : entry p.mem g i = 0)
    (hpres : present fl = true) (hfree : p.free = f :: rest) :
    let q : Phys := ⟨zeroFrame (setEntry (zeroFrame p.mem f) g i (f ||| parentFlags fl)) f, rest⟩
    Grown own kern t path p q ∧ reach q.mem t (i :: Q) = some f := by
  obtain ⟨Tp, hF, hr⟩ := T.pop hfree
  have hfg : f ≠ g := fun he => T.unfree Q g hi.tail hg (hfree ▸ he ▸ List.mem_cons_self)
  have hz := zeroFrame_setEntry (i := i) (e := f ||| parentFlags fl) hF.zero hF.frame
    (reach_isFrame T.root hg) hfg hi.head
  have hg' : reach (zeroFrame p.mem f) t Q = some g := (hr Q hi.tail).trans hg
  have h0' : entry (zeroFrame p.mem f) g i = 0 := by
    rw [entry_zeroFrame _ hF.frame (reach_isFrame T.root hg) (Ne.symm hfg) hi.head, h0]
  have hpf := isFlags_parentFlags hfl
  have hpp : present (parentFlags fl) = true := (present_parentFlags fl).trans hpres
  have hsmall : Q.length < 3 → huge (parentFlags fl) = false := fun _ => huge_parentFlags fl
  have hne : ∀ P, P.length = 4 → P ≠ i :: Q := by
    rintro _ h4 rfl
    rw [List.length_cons] at h4
    omega
  simp only [hz]
  refine ⟨?_, Tp.link_new hF hi.tail hi.head hg' h0' hpf hpp hsmall (Nat.le_of_lt hlen)⟩
  exact
    { tree := Tp.link hF hi.tail hi.head hg' h0' hpf hpp hsmall
      free := hfree ▸ List.suffix_cons f rest
      mono := fun P k hP hk =>
        Tp.link_mono hF hi.tail hi.head hg' h0' hpf hP ((hr P hP).trans hk)
      new := fun P k hP hk => by
        rcases Tp.link_reach hF hi.tail hi.head hg' h0' hpf hP hk with h | ⟨rfl, -⟩
        · exact Or.inl ((hr P hP).symm.trans h)
        · exact Or.inr ⟨hfree ▸ List.mem_cons_self, hF.taken⟩
      leaf := fun P hP h4 => by
        rw [Tp.link_leaf hF hi.tail hi.head hg' h0' hpf hP h4 (hne P h4)]
        exact T.pop_leaf hfree hP
      mem := fun x => by
        rcases setEntry_cases (zeroFrame p.mem f) (f ||| parentFlags fl) hi.head x with he | hx
        · by_cases hx : InFrame f x
          · exact Or.inr (Or.inl ⟨f, hfree ▸ List.mem_cons_self, hF.taken, hx⟩)
          · exact Or.inl (he.trans (zeroFrame_out _ hx))
        · exact Or.inr (Or.inr ⟨Q, g, hi.tail, Nat.le_of_lt hlen, hsuf, hg, hx⟩) }

end Steps

/-- A walk from a table that is on the way grows the tree, and if it succeeds it
sets one unused entry of a last table. -/
theorem Walk.grown {g : Nat} {is Q : List Nat} {r : Bool} (hw : Walk frame fl p g is r p')
    (T : Tree own kern p t) (hfl : IsFlags fl) (hpres : present fl = true) (hroute : Route (fun i => own i ∨ kern i) path)
    (hQ : Held own kern Q) (hg : reach p.mem t Q = some g) (hlen : is.length + Q.length = 4)
    (hpath : path = is.reverse ++ Q) :
    ∃ q, Grown own kern t path p q ∧ (r = false ∧ p' = q ∨ r = true ∧ ∃ i P k, path = i :: P ∧
      reach q.mem t P = some k ∧ entry q.mem k i = 0 ∧
        p' = ⟨setEntry q.mem k i (frame ||| fl), q.free⟩) := by
  induction hw generalizing Q with
  | taken h => exact ⟨_, .refl T, Or.inl ⟨rfl, rfl⟩⟩
  | map h => exact ⟨_, .refl T, Or.inr ⟨rfl, _, Q, _, by simpa using hpath, hg, h, rfl⟩⟩
  | outOfFrames h hfree => exact ⟨_, .refl T, Or.inl ⟨rfl, rfl⟩⟩
  | @create p p' g i j is r f rest h hfree next ih =>
    simp only [List.length_cons] at hlen
    have hi : Held own kern (i :: Q) :=
      ⟨hroute.suffix ⟨is.reverse ++ [j], by simp [hpath]⟩, Or.inl (by simp only [List.length_cons]; omega)⟩
    have hsuf : Q <:+ path := ⟨_, hpath.symm⟩
    obtain ⟨hq, hr⟩ := Grown.create T hi (by omega) hsuf hg hfl h hpres hfree
    obtain ⟨q, hgrown, hres⟩ := ih hq.tree hi hr
      (by simp only [List.length_cons]; omega) (by simp [hpath])
    exact ⟨q, hq.trans hgrown, hres⟩
  | @descend p p' g i j is r h hh next ih =>
    simp only [List.length_cons] at hlen
    have hi : Held own kern (i :: Q) :=
      ⟨hroute.suffix ⟨is.reverse ++ [j], by simp [hpath]⟩, Or.inl (by simp only [List.length_cons]; omega)⟩
    have hsuf : Q <:+ path := ⟨_, hpath.symm⟩
    have hp := (T.unused i Q g hi (by omega) hg).resolve_left h
    have hr : reach p.mem t (i :: Q) = some (addr (entry p.mem g i)) :=
      reach_cons.2 ⟨g, hg, hp, by simp [hh], rfl⟩
    have hq := Grown.raise T hi (by omega) hsuf hg hfl h
    obtain ⟨q, hgrown, hres⟩ := ih hq.tree hi
      (hq.mono _ _ hi hr) (by simp only [List.length_cons]; omega) (by simp [hpath])
    exact ⟨q, hq.trans hgrown, hres⟩
  | @huge p g i j is h hh =>
    simp only [List.length_cons] at hlen
    have hi : Held own kern (i :: Q) :=
      ⟨hroute.suffix ⟨is.reverse ++ [j], by simp [hpath]⟩, Or.inl (by simp only [List.length_cons]; omega)⟩
    exact ⟨_, .raise T hi (by omega) ⟨_, hpath.symm⟩ hg hfl h, Or.inl ⟨rfl, rfl⟩⟩

/-- A walk along a path of four indices, whether it succeeds or not. -/
structure Extended (own kern : Nat → Prop) (t : Nat) (path : List Nat) (frame : Nat)
    (p p' : Phys) : Prop where
  tree : Tree own kern p' t
  free : p'.free <:+ p.free
  mono : ∀ P g, Held own kern P → reach p.mem t P = some g → reach p'.mem t P = some g
  new : ∀ P g, Held own kern P → reach p'.mem t P = some g →
    reach p.mem t P = some g ∨ (g ∈ p.free ∧ g ∉ p'.free ∧ g ≠ frame) ∨
      g = frame ∧ (Own own P → P = path)
  leaf : ∀ P, Own own P → P.length = 4 → P ≠ path → leaf p'.mem t P = leaf p.mem t P
  mem : ∀ x, p'.mem x = p.mem x ∨ (∃ f ∈ p.free, f ∉ p'.free ∧ InFrame f x) ∨
    ∃ Q g, Held own kern Q ∧ Q.length ≤ 3 ∧ Q <:+ path ∧ reach p.mem t Q = some g ∧ InFrame g x

theorem Extended.refl (T : Tree own kern p t) : Extended own kern t path frame p p where
  tree := T
  free := List.suffix_rfl
  mono := fun _ _ _ h => h
  new := fun _ _ _ h => Or.inl h
  leaf := fun _ _ _ _ => rfl
  mem := fun _ => Or.inl rfl

/-- What the tree grows by is not the frame that is mapped. -/
theorem Grown.extended (h : Grown own kern t path p p') (hframe : frame ∉ p.free) :
    Extended own kern t path frame p p' where
  tree := h.tree
  free := h.free
  mono := h.mono
  new := fun P g hP hg => (h.new P g hP hg).imp_right fun hf =>
    Or.inl ⟨hf.1, hf.2, fun he => hframe (he ▸ hf.1)⟩
  leaf := fun P hP h4 _ => h.leaf P hP h4
  mem := h.mem

section Root

variable {is : List Nat} {r : Bool} (T : Tree own kern p t) (hF : Fresh own kern p t frame)
  (hfl : IsFlags fl) (hpres : present fl = true) (hroute : Route (fun i => own i ∨ kern i) is.reverse)
  (hlen : is.length = 4)
include T hF hfl hpres hroute hlen

theorem Walk.extended (hw : Walk frame fl p t is r p') :
    Extended own kern t is.reverse frame p p' := by
  obtain ⟨q, hq, hres⟩ := hw.grown T hfl hpres hroute Held.nil rfl hlen
    (List.append_nil _).symm
  rcases hres with ⟨-, rfl⟩ | ⟨-, i, P, k, hpath, hk, h0, rfl⟩
  · exact hq.extended hF.taken
  have hFq := hq.fresh T hF
  have hP3 : P.length = 3 := by
    have h := congrArg List.length hpath
    rw [List.length_reverse, hlen, List.length_cons] at h
    omega
  have hP : Held own kern P := ⟨hroute.suffix ⟨[i], hpath.symm⟩, Or.inl hP3.le⟩
  have hi : i < 512 := hroute.1 i (hpath ▸ List.mem_cons_self)
  exact
    { tree := hq.tree.link hFq hP hi hk h0 hfl hpres fun h => absurd hP3 (Nat.ne_of_lt h)
      free := hq.free
      mono := fun P' g hP' hg =>
        hq.tree.link_mono hFq hP hi hk h0 hfl hP' (hq.mono P' g hP' hg)
      new := fun P' g hP' hg => by
        rcases hq.tree.link_reach hFq hP hi hk h0 hfl hP' hg with h | ⟨rfl, P0, rfl, hP0⟩
        · exact (hq.new P' g hP' h).imp_right fun hf =>
            Or.inl ⟨hf.1, hf.2, fun he => hF.taken (he ▸ hf.1)⟩
        · exact Or.inr (Or.inr ⟨rfl, fun ho => by
            rw [hpath, hq.tree.apart P0 P k ho.tail hP hP0 hk]⟩)
      leaf := fun P' hP' h4 hne =>
        (hq.tree.link_leaf hFq hP hi hk h0 hfl hP' h4 (hpath ▸ hne)).trans (hq.leaf P' hP' h4)
      mem := fun x => by
        rcases setEntry_cases q.mem (frame ||| fl) hi x with he | hx
        · rw [show (Phys.mk (setEntry q.mem k i (frame ||| fl)) q.free).mem x = q.mem x from he]
          exact hq.mem x
        · rcases hq.new P k hP hk with h | ⟨h1, h2⟩
          · exact Or.inr (Or.inr ⟨P, k, hP, hP3.le, ⟨[i], hpath.symm⟩, h, hx⟩)
          · exact Or.inr (Or.inl ⟨k, h1, h2, hx⟩) }

/-- A walk that succeeds maps a page that was not mapped. -/
theorem Walk.leaf_ok (hw : Walk frame fl p t is true p') (hown : Own own is.reverse) :
    leaf p.mem t is.reverse = none ∧ leaf p'.mem t is.reverse = some (frame ||| fl) := by
  obtain ⟨q, hq, hres⟩ := hw.grown T hfl hpres hroute Held.nil rfl hlen
    (List.append_nil _).symm
  obtain ⟨h, -⟩ | ⟨-, i, P, k, hpath, hk, h0, rfl⟩ := hres
  · cases h
  have hFq := hq.fresh T hF
  rw [← hq.leaf _ hown (List.length_reverse.trans hlen), hpath]
  rw [hpath] at hown
  have hk' := hq.tree.link_mono hFq hown.held.tail hown.head hk h0 hfl hown.held.tail hk
  rw [leaf_of_reach hk, leaf_of_reach hk', h0, entry_setEntry _ _ _ (or_lt hF.frame hfl),
    present_or hF.frame, hpres]
  exact ⟨rfl, rfl⟩

end Root

namespace Extended

/-- A walk for a frame that was taken just before it. -/
theorem of_pop (T : Tree own kern p t) {rest : List Nat} (hfree : p.free = frame :: rest)
    (h : Extended own kern t path frame ⟨zeroFrame p.mem frame, rest⟩ p') :
    Extended own kern t path frame p p' ∧ frame ∈ p.free ∧ frame ∉ p'.free := by
  obtain ⟨-, hF, hr⟩ := T.pop hfree
  have hmem : frame ∈ p.free := hfree ▸ List.mem_cons_self
  have hout : frame ∉ p'.free := fun hf => hF.taken (h.free.subset hf)
  have hsub : ∀ {f}, f ∈ rest → f ∈ p.free := fun hf => hfree ▸ List.mem_cons_of_mem _ hf
  refine ⟨?_, hmem, hout⟩
  exact
    { tree := h.tree
      free := h.free.trans (hfree ▸ List.suffix_cons frame rest)
      mono := fun P g hP hg => h.mono P g hP ((hr P hP).trans hg)
      new := fun P g hP hg => by
        rcases h.new P g hP hg with hg | ⟨hf, hf', hne⟩ | hg
        · exact Or.inl ((hr P hP).symm.trans hg)
        · exact Or.inr (Or.inl ⟨hsub hf, hf', hne⟩)
        · exact Or.inr (Or.inr hg)
      leaf := fun P hP h4 hne => (h.leaf P hP h4 hne).trans (T.pop_leaf hfree hP)
      mem := fun x => by
        rcases h.mem x with he | ⟨f, hf, hf', hx⟩ | ⟨Q, g, hQ, hlen, hsuf, hg, hx⟩
        · by_cases hx : InFrame frame x
          · exact Or.inr (Or.inl ⟨frame, hmem, hout, hx⟩)
          · exact Or.inl (he.trans (zeroFrame_out _ hx))
        · exact Or.inr (Or.inl ⟨f, hsub hf, hf', hx⟩)
        · exact Or.inr (Or.inr ⟨Q, g, hQ, hlen, hsuf, (hr Q hQ).symm.trans hg, hx⟩) }

/-- The pages of the tree keep their bytes. -/
theorem page (T : Tree own kern p t) (h : Extended own kern t path frame p p') {P : List Nat} {g x : Nat}
    (hP : Own own P) (h4 : P.length = 4) (hg : reach p.mem t P = some g) (hx : InFrame g x) :
    p'.mem x = p.mem x := by
  have hgf := reach_isFrame T.root hg
  rcases h.mem x with he | ⟨f, hf, -, hx'⟩ | ⟨Q, k, hQ, hlen, -, hk, hx'⟩
  · exact he
  · exact absurd (hgf.eq_of_inFrame (T.freeFrame f hf) hx hx' ▸ hf) (T.unfree P g hP.held hg)
  · rw [← hgf.eq_of_inFrame (reach_isFrame T.root hk) hx hx'] at hk
    rw [T.apart P Q g hP hQ hg hk] at h4
    omega

/-- The frame that is mapped keeps its bytes. -/
theorem frame_zero (T : Tree own kern p t) (h : Extended own kern t path frame p p')
    (hF : Fresh own kern p t frame) {x : Nat} (hx : InFrame frame x) : p'.mem x = 0 := by
  rcases h.mem x with he | ⟨f, hf, -, hx'⟩ | ⟨Q, k, hQ, -, -, hk, hx'⟩
  · rw [he, hF.zero x hx]
  · exact absurd (hF.frame.eq_of_inFrame (T.freeFrame f hf) hx hx' ▸ hf) hF.taken
  · exact absurd (hF.frame.eq_of_inFrame (reach_isFrame T.root hk) hx hx' ▸ hk) (hF.out Q hQ)

end Extended

/-- Every byte that changed is in a frame that was taken off the stack. -/
structure Within (p p' : Phys) : Prop where
  free : p'.free <:+ p.free
  mem : ∀ x, p'.mem x = p.mem x ∨ ∃ f ∈ p.free, f ∉ p'.free ∧ InFrame f x

namespace Within

theorem refl (p : Phys) : Within p p := ⟨List.suffix_rfl, fun _ => Or.inl rfl⟩

/-- A byte of a frame that was not free has not changed. -/
theorem eq_of_not_free (h : Within p p') (hframe : ∀ f ∈ p.free, IsFrame f) {g x : Nat}
    (hg : IsFrame g) (hout : g ∉ p.free) (hx : InFrame g x) : p'.mem x = p.mem x := by
  rcases h.mem x with he | ⟨f, hf, -, hx'⟩
  · exact he
  · exact absurd (hg.eq_of_inFrame (hframe f hf) hx hx' ▸ hf) hout

theorem entry (h : Within p p') (hframe : ∀ f ∈ p.free, IsFrame f) {g i : Nat}
    (hg : IsFrame g) (hout : g ∉ p.free) (hi : i < 512) :
    Paging.entry p'.mem g i = Paging.entry p.mem g i :=
  entry_congr hi fun _ hx => h.eq_of_not_free hframe hg hout hx

/-- A walk through tables that were taken. -/
theorem extended (h : Within p p') (h' : Extended own kern t path frame p' p'')
    (hpath : ∀ P g, Held own kern P → P <:+ path → reach p'.mem t P = some g →
      g ∈ p.free ∧ g ∉ p'.free) : Within p p'' where
  free := h'.free.trans h.free
  mem := fun x => by
    have hout : ∀ {f}, f ∉ p'.free → f ∉ p''.free := fun hf hmem => hf (h'.free.subset hmem)
    rcases h'.mem x with he | ⟨f, hf, hf', hx⟩ | ⟨Q, g, hQ, -, hsuf, hg, hx⟩
    · rw [he]
      exact (h.mem x).imp_right fun ⟨f, hf, hf', hx⟩ => ⟨f, hf, hout hf', hx⟩
    · exact Or.inr ⟨f, h.free.subset hf, hf', hx⟩
    · obtain ⟨hf, hf'⟩ := hpath Q g hQ hsuf hg
      exact Or.inr ⟨g, hf, hout hf', hx⟩

/-- A write to a frame that was taken. -/
theorem write (h : Within p p') {m : Store} {f : Nat} (hf : f ∈ p.free) (hf' : f ∉ p'.free)
    (hm : ∀ x, ¬ InFrame f x → m x = p'.mem x) : Within p ⟨m, p'.free⟩ where
  free := h.free
  mem := fun x => by
    by_cases hx : InFrame f x
    · exact Or.inr ⟨f, hf, hf', hx⟩
    · rw [show (Phys.mk m p'.free).mem x = p'.mem x from hm x hx]
      exact h.mem x

end Within

end AeroOS.Paging
