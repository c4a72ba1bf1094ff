import AeroOS.Memory.Elf

/-!
# What the loader does

The steps of `load_elf_into_new_space` on the page tables of the new space.
Pages are mapped under entries of the PML4 that are not copies of kernel
entries; the stack may be under an entry that is.

* `frameFor_spec`, `mapElfPage_spec`: one page of a segment.
* `Loaded`: which pages are mapped, and with which flags, when the segments
  `done` are behind the loop.
-/

namespace AeroOS.Memory

open AeroOS.Bytes AeroOS.Hoare AeroOS.Paging

variable {own kern : Nat → Prop} {t cr3 : Nat} {p0 p p' : Phys} {mapTo : MapTo}

theorem exec_mapErr {α : Type} (err : String) (x : Kernel α) (s : Phys) :
    exec (mapErr err x) s = ((exec x s).1.mapError fun _ => err, (exec x s).2) := rfl

/-- `map_err` changes the text of an error only. -/
theorem mapErr_spec {α : Type} {P : Phys → Prop} {x : Kernel α} {Q : α → Phys → Prop}
    {E : Phys → Prop} (h : Triple P x Q E) (err : String) : Triple P (mapErr err x) Q E := by
  intro s hs
  have hx := h s hs
  rw [exec_mapErr]
  cases hr : (exec x s).1 with
  | ok a => exact ⟨fun b hb => by cases hb; exact hx.1 a hr, fun _ he => (nomatch he)⟩
  | error e => exact ⟨fun _ hb => (nomatch hb), fun _ _ => hx.2 e hr⟩

theorem isFlags_segmentFlags (seg : ElfSegment) : IsFlags (segmentFlags seg) := by
  unfold segmentFlags
  split <;> decide

theorem present_segmentFlags (seg : ElfSegment) : present (segmentFlags seg) = true := by
  unfold segmentFlags
  split <;> rfl

/-- The segment has `PF_W`. -/
def ElfSegment.Writable (seg : ElfSegment) : Prop := seg.flags &&& 2 ≠ 0

instance (seg : ElfSegment) : Decidable seg.Writable := inferInstanceAs (Decidable (_ ≠ _))

theorem writable_segmentFlags (seg : ElfSegment) :
    writable (segmentFlags seg) = true ↔ seg.Writable := by
  unfold segmentFlags ElfSegment.Writable
  split
  · rename_i h
    exact ⟨fun _ => h, fun _ => rfl⟩
  · rename_i h
    exact ⟨fun hw => (nomatch hw), fun hw => absurd hw h⟩

/-- A new space while it is loaded: what it owns was free before. -/
structure Loading (own kern : Nat → Prop) (t : Nat) (p0 p : Phys) : Prop where
  tree : Tree own kern p t
  free : p.free <:+ p0.free
  taken : ∀ P g, Own own P → reach p.mem t P = some g → g ∈ p0.free

namespace Loading

/-- A walk for a frame that was free. -/
theorem extended (h : Loading own kern t p0 p) {path : List Nat} {f : Nat}
    (hext : Extended own kern t path f p p') (hf : f ∈ p.free) : Loading own kern t p0 p' where
  tree := hext.tree
  free := hext.free.trans h.free
  taken := fun P g hP hg => by
    rcases hext.new P g hP.held hg with hg' | ⟨hg', -⟩ | ⟨rfl, -⟩
    · exact h.taken P g hP hg'
    · exact h.free.subset hg'
    · exact h.free.subset hf

/-- A write to a page. -/
theorem page_write (h : Loading own kern t p0 p) {m : Store} {P : List Nat} {g : Nat}
    (hP : Own own P) (h4 : P.length = 4) (hg : reach p.mem t P = some g)
    (hm : ∀ x, ¬ InFrame g x → m x = p.mem x) : Loading own kern t p0 ⟨m, p.free⟩ where
  tree := h.tree.page_write hP h4 hg hm
  free := h.free
  taken := fun Q k hQ hk => by
    have hk' : reach m t Q = some k := hk
    rw [h.tree.page_reach hP h4 hg hm hQ.held] at hk'
    exact h.taken Q k hQ hk'

/-- A walk along an owned path stays in the frames that were taken. -/
theorem within (h : Loading own kern t p0 p) (hw : Within p0 p) {path : List Nat} {f : Nat}
    (hpath : Own own path) (hext : Extended own kern t path f p p') : Within p0 p' :=
  hw.extended hext fun P g hP hsuf hg =>
    ⟨h.taken P g ⟨hpath.1.suffix hsuf, hsuf.length_le.trans hpath.2⟩ hg,
      h.tree.unfree P g hP hg⟩

end Loading

/-- Zeroing zeros. -/
theorem zeroFrame_of_zero {m : Store} {f : Nat} (h : ∀ x, InFrame f x → m x = 0) :
    zeroFrame m f = m := by
  funext x
  by_cases hx : InFrame f x
  · rw [zeroFrame_in _ hx, h x hx]
  · rw [zeroFrame_out _ hx]

/-- A page has a frame: the one that it had, or a new one with zeros. -/
structure Framed (own kern : Nat → Prop) (t page fl : Nat) (p p' : Phys) (f e : Nat) : Prop where
  extended : Extended own kern t (path page) f p p'
  leaf : leaf p'.mem t (path page) = some e
  frame : addr e = f
  cases : Paging.leaf p.mem t (path page) = some e ∧ p' = p ∨
    Paging.leaf p.mem t (path page) = none ∧ flags e = fl ∧ f ∈ p.free ∧
      ∀ x, InFrame f x → p'.mem x = 0

theorem frameFor_spec (hmap : FollowsWalk mapTo) (T : Tree own kern p t) {page fl : Nat}
    (hpage : page % 4096 = 0) (hown : own (page / 2 ^ 39 % 512)) (hfl : IsFlags fl)
    (hpres : present fl = true) :
    Triple (· = p) (frameFor mapTo t page fl)
      (fun f p' => ∃ e, Framed own kern t page fl p p' f e)
      (fun p' => ∃ f, Extended own kern t (path page) f p p') := by
  have hpath : Own own (path page) := path_own page hown
  refine Triple.get_bind fun q hq => ?_
  obtain rfl : q = p := hq
  rw [translate_eq T hown, hpage]
  cases hleaf : leaf q.mem t (path page) with
  | some e =>
    have hmod : (addr e + 0) % 4096 = 0 := (isFrame_addr e).mod
    rw [Option.map_some]
    refine Triple.ite (fun _ => Triple.pure fun p' hp' => ?_) fun h => absurd hmod h
    obtain rfl : p' = q := hp'
    exact ⟨e, .refl T, hleaf, rfl, Or.inl ⟨hleaf, rfl⟩⟩
  | none =>
    rw [Option.map_none]
    refine (mapErr_spec (mapUserPageAlloc_spec hmap hfl hpres T
      (path_route page (Or.inl hown))) _).bind fun f => ?_
    refine Triple.bind (R := fun _ p' => PageAdded own kern t page f fl q p')
      (Triple.update fun p' hadd => ?_) fun _ => Triple.pure fun p' hadd => ?_
    · rw [zeroFrame_of_zero hadd.zero]
      exact hadd
    · obtain ⟨-, hleaf'⟩ := hadd.leaf hpath
      have hfr := T.freeFrame f hadd.taken.1
      exact ⟨_, hadd.extended, hleaf', addr_or hfr hfl,
        Or.inr ⟨hleaf, flags_or hfr hfl, hadd.taken.1, hadd.zero⟩⟩

/-! ## One page of a segment -/

/-- The page meets the segment, or lies behind its start. -/
structure PageOf (seg : ElfSegment) (page : Nat) : Prop where
  aligned : page % 4096 = 0
  lt : page < 2 ^ 64
  after : seg.vaddr < page + 4096

@[simp] theorem fileBytes_length (elf : List UInt8) (src len : Nat) :
    (fileBytes elf src len).length = len := by
  simp [fileBytes]

/-- The copy for a page stays in its frame when the end of the file data does
not wrap. -/
theorem fileCopy_fits {seg : ElfSegment} {page : Nat} (hpage : PageOf seg page)
    (hwrap : seg.vaddr + seg.filesz < 2 ^ 64) (elf : List UInt8) :
    (fileCopy elf seg page).1 + (fileCopy elf seg page).2.length ≤ 4096 := by
  obtain ⟨h1, h2, h3⟩ := hpage
  have hlen : dstOffset seg page + (fileEnd seg page - fileStart seg page) ≤ 4096 := by
    unfold dstOffset fileEnd fileStart
    split_ifs <;> omega
  unfold fileCopy
  split
  · dsimp only
    split
    · simpa using hlen
    · simp
  · simp

/-- The copy for a page leaves the other frames alone. -/
theorem fileCopy_out {seg : ElfSegment} {page f x : Nat} (hpage : PageOf seg page)
    (hwrap : seg.vaddr + seg.filesz < 2 ^ 64) (elf : List UInt8) (m : Store)
    (hx : ¬ InFrame f x) :
    writeBytes m (f + (fileCopy elf seg page).1) (fileCopy elf seg page).2 x = m x := by
  have hfit := fileCopy_fits hpage hwrap elf
  unfold InFrame at hx
  exact writeBytes_out _ (by omega)

/-- A page of a segment is in place. -/
structure PageLoaded (own : Nat → Prop) (t : Nat) (elf : List UInt8) (seg : ElfSegment)
    (page e : Nat) (p p' : Phys) : Prop where
  leaf : leaf p'.mem t (path page) = some e
  cases : Paging.leaf p.mem t (path page) = some e ∨
    Paging.leaf p.mem t (path page) = none ∧ flags e = segmentFlags seg
  other : ∀ P, Own own P → P.length = 4 → P ≠ path page →
    Paging.leaf p'.mem t P = Paging.leaf p.mem t P
  keep : ∀ P e', Own own P → P.length = 4 → P ≠ path page → Paging.leaf p.mem t P = some e' →
    ∀ x, InFrame (addr e') x → p'.mem x = p.mem x
  bytes : ∀ x, InFrame (addr e) x → p'.mem x =
    writeBytes (if (Paging.leaf p.mem t (path page)).isSome then p.mem else fun _ => 0)
      (addr e + (fileCopy elf seg page).1) (fileCopy elf seg page).2 x

/-- A page of a segment is loaded, or mapping it fails. -/
theorem mapElfPage_spec (hmap : FollowsWalk mapTo) (h : Loading own kern t p0 p)
    {elf : List UInt8} {seg : ElfSegment} {page : Nat} (hpage : PageOf seg page)
    (hwrap : seg.vaddr + seg.filesz < 2 ^ 64) (hown : own (page / 2 ^ 39 % 512)) :
    Triple (· = p) (mapElfPage mapTo t elf seg page)
      (fun _ p' => Loading own kern t p0 p' ∧ (Within p0 p → Within p0 p') ∧
        (page < 0xfffffffffffff000 → Canonical (page + 4096)) ∧
        ∃ e, PageLoaded own t elf seg page e p p')
      (fun p' => Within p0 p → Within p0 p') := by
  have hpath : Own own (path page) := path_own page hown
  refine Triple.bind
    (R := fun _ s => (page < 0xfffffffffffff000 → Canonical (page + 4096)) ∧ s = p)
    (Triple.ite (fun _ => Triple.throw fun s (hs : s = p) hw => by rwa [hs]) fun hstep =>
      Triple.pure fun _ hs => ⟨fun hlt => not_not.1 fun hc => hstep ⟨hlt, hc⟩, hs⟩) fun _ => ?_
  refine Triple.assume fun hstep => ?_
  refine ((frameFor_spec hmap h.tree hpage.aligned hown (isFlags_segmentFlags seg)
    (present_segmentFlags seg)).conseq (fun _ => id) (fun _ _ => id) ?_).bind fun f =>
      Triple.update fun q hq => ?_
  · rintro q ⟨f, hext⟩ hw
    exact h.within hw hpath hext
  obtain ⟨e, hfr⟩ := hq
  have hf0 : f ∈ p0.free := by
    rcases hfr.cases with ⟨hleaf, -⟩ | ⟨-, -, hf, -⟩
    · exact h.taken (path page) f hpath (hfr.frame ▸ reach_of_leaf rfl hleaf)
    · exact h.free.subset hf
  have hq : Loading own kern t p0 q := by
    rcases hfr.cases with ⟨-, rfl⟩ | ⟨-, -, hf, -⟩
    · exact h
    · exact h.extended hfr.extended hf
  have hg : reach q.mem t (path page) = some f := hfr.frame ▸ reach_of_leaf rfl hfr.leaf
  have hm := fun x (hx : ¬ InFrame f x) => fileCopy_out hpage hwrap elf q.mem hx
  have hleafq : ∀ P, Own own P → leaf (writeBytes q.mem (f + (fileCopy elf seg page).1)
      (fileCopy elf seg page).2) t P = leaf q.mem t P := fun P hP =>
    hq.tree.page_leaf hpath rfl hg hm hP
  generalize hm' : writeBytes q.mem (f + (fileCopy elf seg page).1) (fileCopy elf seg page).2 = m
    at hm hleafq ⊢
  refine ⟨hq.page_write hpath rfl hg hm, fun hw => ?_, hstep, e, ?_⟩
  · exact (h.within hw hpath hfr.extended).write hf0 (hq.tree.unfree _ _ hpath.held hg) hm
  · exact
      { leaf := (hleafq _ hpath).trans hfr.leaf
        cases := hfr.cases.imp (fun hc => hc.1) fun hc => ⟨hc.1, hc.2.1⟩
        other := fun P hP h4 hne =>
          (hleafq P hP).trans (hfr.extended.leaf P hP h4 hne)
        keep := fun P e' hP h4 hne he' x hx => by
          have hg' := reach_of_leaf h4 he'
          have hgq := hfr.extended.mono P _ hP.held hg'
          have hout : ¬ InFrame f x := fun hx' => by
            have hfe : addr e' = f := (isFrame_addr e').eq_of_inFrame (hfr.frame ▸ isFrame_addr e) hx hx'
            exact hne (hq.tree.apart P _ f hP hpath.held (hfe ▸ hgq) hg)
          exact (hm x hout).trans (hfr.extended.page h.tree hP h4 hg' hx)
        bytes := fun x hx => by
          rw [hfr.frame] at hx ⊢
          show m x = _
          rw [← hm']
          rcases hfr.cases with ⟨hleaf, rfl⟩ | ⟨hleaf, -, -, hz⟩
          · rw [hleaf]
            rfl
          · rw [hleaf]
            exact writeBytes_congr (hz x hx) }

/-! ## The loop over the pages -/

theorem mem_pagesInclusive {first last page : Nat} :
    page ∈ pagesInclusive first last ↔
      page % 4096 = 0 ∧ first / 4096 ≤ page / 4096 ∧ page / 4096 ≤ last / 4096 := by
  simp only [pagesInclusive, List.mem_map, List.mem_range'_1]
  constructor
  · rintro ⟨n, hn, rfl⟩
    omega
  · rintro ⟨h1, h2, h3⟩
    exact ⟨page / 4096, by omega, by omega⟩

/-- The pages of a segment, in the order of the loop. -/
def ElfSegment.pages (seg : ElfSegment) : List Nat :=
  if seg.memsz = 0 then []
  else pagesInclusive seg.vaddr ((seg.vaddr + seg.memsz) % 2 ^ 64)

/-- The byte at offset `k` of a page after the copy for the page, where `b` was
before. -/
def pageByte (elf : List UInt8) (d : ElfSegment × Nat) (k : Nat) (b : UInt8) : UInt8 :=
  writeBytes (fun _ => b) (fileCopy elf d.1 d.2).1 (fileCopy elf d.1 d.2).2 k

/-- The byte at offset `k` of the page with path `P` when the pages `done` of
segments are loaded. -/
def imageByte (elf : List UInt8) (done : List (ElfSegment × Nat)) (P : List Nat) (k : Nat) :
    UInt8 :=
  done.foldl (fun b d => if path d.2 = P then pageByte elf d k b else b) 0

theorem writeBytes_shift (m : Store) (a o k : Nat) (bs : List UInt8) :
    writeBytes m (a + o) bs (a + k) = writeBytes (fun _ => m (a + k)) o bs k := by
  simp only [writeBytes, Nat.add_le_add_iff_left, Nat.add_sub_add_left]

/-- A page that was not loaded is zero. -/
theorem imageByte_of_not_mem {elf : List UInt8} {done : List (ElfSegment × Nat)} {P : List Nat}
    (h : ∀ d ∈ done, path d.2 ≠ P) (k : Nat) : imageByte elf done P k = 0 := by
  have hgen : ∀ b, done.foldl (fun b d => if path d.2 = P then pageByte elf d k b else b) b = b := by
    induction done with
    | nil => exact fun _ => rfl
    | cons d done ih =>
      intro b
      rw [List.foldl_cons, if_neg (h d List.mem_cons_self)]
      exact ih (fun d' hd' => h d' (List.mem_cons_of_mem _ hd')) b
  exact hgen 0

theorem imageByte_snoc (elf : List UInt8) (done : List (ElfSegment × Nat)) (d : ElfSegment × Nat)
    (P : List Nat) (k : Nat) : imageByte elf (done ++ [d]) P k =
      if path d.2 = P then pageByte elf d k (imageByte elf done P k) else imageByte elf done P k := by
  rw [imageByte, List.foldl_append]
  rfl

/-- The pages `done` of segments are loaded: each is mapped with the flags of the
segment that came first to it, and holds what the segments put there. -/
structure Loaded (own kern : Nat → Prop) (t : Nat) (p0 : Phys) (elf : List UInt8)
    (done : List (ElfSegment × Nat)) (p : Phys) : Prop where
  loading : Loading own kern t p0 p
  within : Within p0 p
  canonical : ∀ d ∈ done, Canonical d.2
  flags : ∀ P, Own own P → P.length = 4 → (leaf p.mem t P).map flags =
    (done.find? fun d => path d.2 = P).map fun d => segmentFlags d.1
  bytes : ∀ P e k, Own own P → P.length = 4 → leaf p.mem t P = some e → k < 4096 →
    p.mem (addr e + k) = imageByte elf done P k

namespace Loaded

variable {elf : List UInt8} {done : List (ElfSegment × Nat)} {seg : ElfSegment} {page e : Nat}

/-- A page that is not mapped was not loaded. -/
theorem not_mem_of_leaf (h : Loaded own kern t p0 elf done p) {P : List Nat} (hP : Own own P)
    (h4 : P.length = 4) (hleaf : leaf p.mem t P = none) : ∀ d ∈ done, path d.2 ≠ P := by
  intro d hd he
  have hf := h.flags P hP h4
  rw [hleaf, Option.map_none, eq_comm, Option.map_eq_none_iff, List.find?_eq_none] at hf
  exact hf d hd (by simpa using he)

/-- One more page. -/
theorem snoc (h : Loaded own kern t p0 elf done p) (hcan : Canonical page) (hl : Loading own kern t p0 p') (hw : Within p0 p')
    (hp : PageLoaded own t elf seg page e p p') :
    Loaded own kern t p0 elf (done ++ [(seg, page)]) p' where
  loading := hl
  within := hw
  canonical := fun d hd => by
    rcases List.mem_append.1 hd with hd | hd
    · exact h.canonical d hd
    · rw [List.mem_singleton.1 hd]
      exact hcan
  flags := fun P hP h4 => by
    have hold := h.flags P hP h4
    rw [List.find?_append]
    by_cases hPp : P = path page
    · subst hPp
      rw [hp.leaf]
      rcases hp.cases with hc | ⟨hc, hfl⟩
      · rw [hc] at hold
        cases hfind : done.find? fun d => path d.2 = path page with
        | none =>
          rw [hfind] at hold
          cases hold
        | some d =>
          rw [hfind] at hold
          exact hold
      · rw [hc, Option.map_none, eq_comm, Option.map_eq_none_iff] at hold
        rw [hold]
        simp [hfl]
    · rw [hp.other P hP h4 hPp, hold]
      simp [Ne.symm hPp]
  bytes := fun P e' k hP h4 hleaf hk => by
    rw [imageByte_snoc]
    by_cases hPp : P = path page
    · subst hPp
      obtain rfl := Option.some.inj (hp.leaf.symm.trans hleaf)
      rw [if_pos rfl, hp.bytes _ ⟨Nat.le_add_right .., by omega⟩, writeBytes_shift, pageByte]
      refine writeBytes_congr ?_
      rcases hp.cases with hc | ⟨hc, -⟩
      · rw [hc]
        exact h.bytes _ _ k hP h4 hc hk
      · rw [hc]
        exact (imageByte_of_not_mem (h.not_mem_of_leaf hP h4 hc) k).symm
    · have hleaf' := (hp.other P hP h4 hPp).symm.trans hleaf
      rw [if_neg (Ne.symm hPp),
        hp.keep P e' hP h4 hPp hleaf' _ ⟨Nat.le_add_right .., by omega⟩]
      exact h.bytes P e' k hP h4 hleaf' hk

end Loaded

/-! ## The loop over the segments -/

/-- The pages of a segment are under owned entries, and its file data does not
wrap around the address space. -/
structure Placed (own : Nat → Prop) (seg : ElfSegment) : Prop where
  wrap : seg.vaddr + seg.filesz < 2 ^ 64
  own : ∀ page ∈ seg.pages, own (page / 2 ^ 39 % 512)

/-- The pages of a range follow each other. -/
theorem pagesInclusive_split {first last page : Nat} {js rest : List Nat}
    (h : pagesInclusive first last = js ++ page :: rest) :
    page = (first / 4096 + js.length) * 4096 ∧
      ∀ js' q, js = js' ++ [q] → q + 4096 = page := by
  have hget : ∀ i q, (js ++ page :: rest)[i]? = some q → q = (first / 4096 + i) * 4096 := by
    intro i q hq
    rw [← h, pagesInclusive, List.getElem?_map, Option.map_eq_some_iff] at hq
    obtain ⟨n, hn, rfl⟩ := hq
    obtain ⟨hlt, hn⟩ := List.getElem?_eq_some_iff.1 hn
    rw [List.getElem_range'] at hn
    omega
  have hpage := hget js.length page (by simp)
  refine ⟨hpage, ?_⟩
  rintro js' q rfl
  have hq := hget js'.length q (by simp)
  rw [List.length_append, List.length_singleton] at hpage
  omega

theorem canonical_pageOf {a page : Nat} (ha : Canonical a) (h : page = (a / 4096 + 0) * 4096) :
    Canonical page := by
  unfold Canonical at *
  omega

theorem mapElfSegment_spec (hmap : FollowsWalk mapTo) {elf : List UInt8} {seg : ElfSegment}
    (hseg : Placed own seg) (done : List (ElfSegment × Nat)) :
    Triple (Loaded own kern t p0 elf done) (mapElfSegment mapTo t elf seg)
      (fun _ => Loaded own kern t p0 elf (done ++ seg.pages.map (seg, ·))) (Within p0) := by
  have hpages := hseg.own
  unfold ElfSegment.pages at hpages ⊢
  refine Triple.ite (fun h0 => Triple.pure fun p hp => ?_) fun h0 => ?_
  · rwa [if_pos h0, List.map_nil, List.append_nil]
  rw [if_neg h0] at hpages ⊢
  refine Triple.bind (R := fun a p => (a = seg.vaddr ∧ Canonical seg.vaddr) ∧
    Loaded own kern t p0 elf done p) (Triple.ite
      (fun hc => Triple.pure fun p hp => ⟨⟨rfl, hc⟩, hp⟩) fun _ => Triple.throw fun p hp => hp.within)
    fun a => Triple.assume ?_
  rintro ⟨rfl, hstart⟩
  refine Triple.bind (R := fun b p => (b = (seg.vaddr + seg.memsz) % 2 ^ 64) ∧
    Loaded own kern t p0 elf done p) (Triple.ite
      (fun _ => Triple.pure fun p hp => ⟨rfl, hp⟩) fun _ => Triple.throw fun p hp => hp.within)
    fun b => Triple.assume ?_
  rintro rfl
  have hlt : (seg.vaddr + seg.memsz) % 2 ^ 64 < 2 ^ 64 := Nat.mod_lt _ (Nat.two_pow_pos 64)
  generalize (seg.vaddr + seg.memsz) % 2 ^ 64 = finish at hpages hlt ⊢
  refine (Triple.forM (I := fun js p =>
    (∀ page ∈ js, page < 0xfffffffffffff000 → Canonical (page + 4096)) ∧
      Loaded own kern t p0 elf (done ++ js.map (seg, ·)) p)
    fun js page rest hl => Triple.assume fun hsteps => ?_).conseq
      (fun p hp => ⟨by simp, by simpa using hp⟩) (fun _ p hp => hp.2) fun _ => id
  have hmem : page ∈ pagesInclusive seg.vaddr finish :=
    hl ▸ List.mem_append_right _ List.mem_cons_self
  obtain ⟨hal, hge, hle⟩ := mem_pagesInclusive.1 hmem
  have hpage : PageOf seg page := ⟨hal, by omega, by omega⟩
  obtain ⟨hfirst, hprev⟩ := pagesInclusive_split hl
  have hcan : Canonical page := by
    rcases List.eq_nil_or_concat js with rfl | ⟨js', q, rfl⟩
    · exact canonical_pageOf hstart hfirst
    · have hq := hprev js' q (List.concat_eq_append ..)
      rw [← hq]
      refine hsteps q (by simp) ?_
      omega
  refine Triple.of_single fun p hp => ?_
  refine (mapElfPage_spec hmap hp.loading hpage hseg.wrap (hpages page hmem)).conseq
    (fun _ => id) ?_ fun _ h => h hp.within
  rintro _ p' ⟨hl', hw, hstep, e, hpl⟩
  refine ⟨fun q hq hqlt => ?_, ?_⟩
  · rcases List.mem_append.1 hq with hq | hq
    · exact hsteps q hq hqlt
    · rw [List.mem_singleton.1 hq] at hqlt ⊢
      exact hstep hqlt
  · rw [List.map_append, ← List.append_assoc]
    exact hp.snoc hcan hl' (hw hp.within) hpl

/-- The pages of segments, in the order in which they are loaded. -/
def loadOrder (segments : List ElfSegment) : List (ElfSegment × Nat) :=
  segments.flatMap fun seg => seg.pages.map (seg, ·)

theorem mapSegments_spec (hmap : FollowsWalk mapTo) {elf : List UInt8}
    {segments : List ElfSegment} (hsegs : ∀ seg ∈ segments, Placed own seg) :
    Triple (Loaded own kern t p0 elf []) (segments.forM fun seg => mapElfSegment mapTo t elf seg)
      (fun _ => Loaded own kern t p0 elf (loadOrder segments)) (Within p0) := by
  refine Triple.forM (I := fun done => Loaded own kern t p0 elf (loadOrder done))
    fun done seg rest hl => ?_
  have hseg := hsegs seg (hl ▸ List.mem_append_right _ List.mem_cons_self)
  rw [show loadOrder (done ++ [seg]) = loadOrder done ++ seg.pages.map (seg, ·) by
    simp [loadOrder]]
  exact mapElfSegment_spec hmap hseg (loadOrder done)

/-! ## The user stack -/

/-- The frame was taken, and only a path under the PML4 entry of the stack may
lead to it. -/
structure OnStack (own : Nat → Prop) (t : Nat) (p0 p : Phys) (f : Nat) : Prop where
  was : f ∈ p0.free
  taken : f ∉ p.free
  out : ∀ P, Own own P → P.getLast? ≠ some 255 → reach p.mem t P ≠ some f

/-- What mapping the stack leaves of a loaded space. -/
structure StackMapped (own kern : Nat → Prop) (t : Nat) (p0 p p' : Phys) : Prop where
  loading : Loading own kern t p0 p'
  within : own 255 → Within p0 p → Within p0 p'
  keep : ∀ P e, Own own P → P.length = 4 → leaf p.mem t P = some e →
    leaf p'.mem t P = some e ∧ ∀ x, InFrame (addr e) x → p'.mem x = p.mem x

namespace StackMapped

theorem refl (h : Loading own kern t p0 p) : StackMapped own kern t p0 p p where
  loading := h
  within := fun _ => id
  keep := fun _ _ _ _ he => ⟨he, fun _ _ => rfl⟩

/-- One more page of the stack. -/
theorem snoc {p'' : Phys} {page f fl : Nat} (h : StackMapped own kern t p0 p p')
    (htop : page / 2 ^ 39 % 512 = 255) (hadd : PageAdded own kern t page f fl p' p'') :
    StackMapped own kern t p0 p p'' where
  loading := h.loading.extended hadd.extended hadd.taken.1
  within := fun ho hw =>
    h.loading.within (h.within ho hw) (path_own page (htop ▸ ho)) hadd.extended
  keep := fun P e hP h4 he => by
    obtain ⟨he', hbytes⟩ := h.keep P e hP h4 he
    have hne : P ≠ path page := by
      rintro rfl
      rw [(hadd.leaf hP).1] at he'
      cases he'
    refine ⟨(hadd.extended.leaf P hP h4 hne).trans he', fun x hx => ?_⟩
    rw [hadd.extended.page h.loading.tree hP h4 (reach_of_leaf h4 he') hx, hbytes x hx]

end StackMapped

namespace OnStack

/-- The frame of a page of the stack. -/
theorem new {page f fl : Nat} (h : Loading own kern t p0 p) (htop : page / 2 ^ 39 % 512 = 255)
    (hadd : PageAdded own kern t page f fl p p') : OnStack own t p0 p' f where
  was := h.free.subset hadd.taken.1
  taken := hadd.taken.2
  out := fun P hP hlast hr => by
    rcases hadd.extended.new P f hP.held hr with hr' | ⟨-, -, hne⟩ | ⟨-, hpath⟩
    · exact h.tree.unfree P f hP.held hr' hadd.taken.1
    · exact hne rfl
    · refine hlast ?_
      rw [hpath hP, path_eq, ← htop]
      rfl

/-- A frame of the stack stays one. -/
theorem snoc {page f fl k : Nat} (hk : OnStack own t p0 p k)
    (hadd : PageAdded own kern t page f fl p p') : OnStack own t p0 p' k where
  was := hk.was
  taken := fun hmem => hk.taken (hadd.extended.free.subset hmem)
  out := fun P hP hlast hr => by
    rcases hadd.extended.new P k hP.held hr with hr' | ⟨hmem, -⟩ | ⟨rfl, -⟩
    · exact hk.out P hP hlast hr'
    · exact hk.taken hmem
    · exact hk.taken hadd.taken.1

end OnStack

/-- `map_user_stack` takes frames for the stack and leaves what was loaded. -/
theorem mapUserStack_spec (hmap : FollowsWalk mapTo) (h : Loading own kern t p0 p)
    (h255 : own 255 ∨ kern 255) :
    Triple (· = p) (mapUserStack mapTo t)
      (fun top p' => top = USER_STACK_TOP ∧ StackMapped own kern t p0 p p' ∧
        ∃ f, OnStack own t p0 p' f)
      (fun p' => own 255 → Within p0 p → Within p0 p') := by
  refine Triple.bind (R := fun _ p' => StackMapped own kern t p0 p p' ∧ ∃ f, OnStack own t p0 p' f)
    ?_ fun _ => Triple.pure fun _ hp => ⟨rfl, hp⟩
  refine (Triple.forM (I := fun pages p' => StackMapped own kern t p0 p p' ∧
    (pages ≠ [] → ∃ f, OnStack own t p0 p' f)) fun pages page rest hl => ?_).conseq
    (fun q (hq : q = p) => ⟨by rw [hq]; exact .refl h, fun hne => absurd rfl hne⟩)
    (fun _ p' hp => ⟨hp.1, hp.2 (by decide)⟩) fun _ => id
  have hmem : page ∈ pagesInclusive (USER_STACK_TOP - USER_STACK_SIZE) USER_STACK_TOP :=
    hl ▸ List.mem_append_right _ List.mem_cons_self
  obtain ⟨-, hge, hle⟩ := mem_pagesInclusive.1 hmem
  have htop : page / 2 ^ 39 % 512 = 255 := by
    simp only [USER_STACK_TOP, USER_STACK_SIZE] at hge hle
    omega
  refine Triple.of_single fun q hq => ?_
  refine ((mapErr_spec (mapUserPageAlloc_spec hmap (by decide) (by decide) hq.1.loading.tree
    (path_route page (htop ▸ h255))) _).conseq (fun _ => id) (fun _ _ => id) ?_).bind fun f =>
      Triple.pure fun q' hadd => ?_
  · rintro q' ⟨f, hext⟩ ho hw
    exact hq.1.loading.within (hq.1.within ho hw) (path_own page (htop ▸ ho)) hext
  · exact ⟨hq.1.snoc htop hadd, fun _ => ⟨f, .new hq.1.loading htop hadd⟩⟩

/-! ## The whole load -/

/-- A state in which a program may be loaded: the free frames are frames, each
free once, and the active PML4 is not one of them.  Where its entry for the
stack is the kernel's own, the tables under it are not free either. -/
structure Loadable (cr3 : Nat) (p0 : Phys) : Prop where
  freeFrame : ∀ f ∈ p0.free, IsFrame f
  freeNodup : p0.free.Nodup
  cr3Frame : IsFrame cr3
  cr3Taken : cr3 ∉ p0.free
  stack : KernelTables (fun i => i = 255 ∧ Shared p0.mem cr3 i) cr3 p0

/-- The entries of a new PML4 that are not copies. -/
abbrev Unshared (cr3 : Nat) (p0 : Phys) : Nat → Prop := fun i => ¬ Shared p0.mem cr3 i

/-- The copied entry under which the stack may be. -/
abbrev StackShared (cr3 : Nat) (p0 : Phys) : Nat → Prop := fun i => i = 255 ∧ Shared p0.mem cr3 i

/-- In a new space nothing is loaded. -/
theorem NewSpace.loaded (h : Loadable cr3 p0) (hnew : NewSpace (Shared p0.mem cr3) cr3 t p0 p)
    (elf : List UInt8) : Loaded (Unshared cr3 p0) (StackShared cr3 p0) t p0 elf [] p := by
  have htree := hnew.tree h.freeFrame h.freeNodup h.stack
  exact
    { loading :=
        { tree := htree
          free := (hnew.within_free htree).free
          taken := fun P g hP hg => hnew.own_free hP hg }
      within := hnew.within_free htree
      canonical := fun _ hd => (nomatch hd)
      flags := fun P hP h4 => by rw [hnew.leaf_own hP h4]; rfl
      bytes := fun P e k hP h4 he _ => by
        rw [hnew.leaf_own hP h4] at he
        cases he }

/-- A program is loaded: the state `q` is the one before the stack is mapped. -/
structure ProgramLoaded (cr3 t : Nat) (p0 p : Phys) (elf : List UInt8)
    (segments : List ElfSegment) (q : Phys) : Prop where
  root : t ∈ p0.free
  loaded : Loaded (Unshared cr3 p0) (StackShared cr3 p0) t p0 elf (loadOrder segments) q
  stack : StackMapped (Unshared cr3 p0) (StackShared cr3 p0) t p0 q p
  frame : ∃ f, OnStack (Unshared cr3 p0) t p0 p f

theorem loadElfIntoNewSpace_spec (hmap : FollowsWalk mapTo) (h : Loadable cr3 p0)
    {elf : List UInt8} (hsegs : ∀ entryPoint segments,
      parseElfSegments elf = .ok (entryPoint, segments) →
        ∀ seg ∈ segments, Placed (Unshared cr3 p0) seg) :
    Triple (· = p0) (loadElfIntoNewSpace mapTo cr3 elf)
      (fun r p => ∃ segments q, parseElfSegments elf = .ok (r.2.1, segments) ∧
        r.2.2 = USER_STACK_TOP ∧ ProgramLoaded cr3 r.1 p0 p elf segments q)
      (fun p => Unshared cr3 p0 255 → Within p0 p) := by
  unfold loadElfIntoNewSpace
  cases hparse : parseElfSegments elf with
  | error e => exact Triple.throw fun p (hp : p = p0) _ => hp ▸ Within.refl p0
  | ok r =>
    obtain ⟨entryPoint, segments⟩ := r
    refine ((newUser_spec h.freeFrame h.cr3Frame h.cr3Taken).conseq (fun _ => id)
      (fun _ _ => id) fun p (hp : p = p0) _ => hp ▸ Within.refl p0).bind fun t => ?_
    refine Triple.bind (R := fun _ q => t ∈ p0.free ∧
      Loaded (Unshared cr3 p0) (StackShared cr3 p0) t p0 elf (loadOrder segments) q) ?_ fun _ => ?_
    · refine Triple.of_single fun q hnew => ?_
      exact (mapSegments_spec hmap (hsegs entryPoint segments hparse)).conseq
        (fun s (hs : s = q) => by rw [hs]; exact hnew.loaded h elf)
        (fun _ _ hl => ⟨hnew.free ▸ List.mem_cons_self, hl⟩) fun _ hw _ => hw
    · refine Triple.of_single fun q hq => ?_
      have h255 : Unshared cr3 p0 255 ∨ StackShared cr3 p0 255 :=
        (em (Shared p0.mem cr3 255)).elim (fun hs => Or.inr ⟨rfl, hs⟩) Or.inl
      refine ((mapUserStack_spec hmap hq.2.loading h255).conseq (fun _ => id) (fun _ _ => id)
        fun _ hw ho => hw ho hq.2.within).bind fun top => Triple.pure fun p hp => ?_
      exact ⟨segments, q, rfl, hp.1, hq.1, hq.2, hp.2.1, hp.2.2⟩

end AeroOS.Memory
