import AeroOS.Lib.PageRoot
import AeroOS.Memory.Fork
import AeroOS.Memory.Dealloc

/-!
# Spaces of their own

`load_elf_into_new_space` and `clone_user_space` build a space whose user part
is a tree of frames that were free: no kernel entry of the PML4 becomes an entry
for the user.

* `Building`: a space while it is built, with the entries of its PML4 that may be
  for the user.
* `Built`: the result, with a page of the stack (`loadElfIntoNewSpace_built`,
  `cloneUserSpace_built`).
-/

namespace AeroOS.Memory

open AeroOS.Bytes AeroOS.Hoare AeroOS.Paging

variable {own top : Nat → Prop} {t cr3 pml4 page fl : Nat} {p0 p p' : Phys} {mapTo : MapTo}

/-- The index of a page in the PML4. -/
def topIndex (page : Nat) : Nat := page / 2 ^ 39 % 512

/-- A space while it is built.  The user entries of its PML4 are in `top`, and the
entry over a page is one of them. -/
structure Building (own top : Nat → Prop) (t : Nat) (p0 p : Phys) : Prop where
  loading : Loading own (fun _ => False) t p0 p
  within : Within p0 p
  tops : ∀ i, i < 512 → UserTop p.mem t i → top i
  full : ∀ P e i, Own own P → P.length = 4 → leaf p.mem t P = some e → P.getLast? = some i →
    UserTop p.mem t i

/-- No entry of the PML4 has changed but that over the page. -/
def RootKept (t page : Nat) (p p' : Phys) : Prop :=
  ∀ j, j < 512 → j ≠ topIndex page → entry p'.mem t j = entry p.mem t j

theorem userTop_congr {m m' : Store} {i : Nat} (h : entry m' t i = entry m t i) :
    UserTop m' t i ↔ UserTop m t i := by
  rw [UserTop, UserTop, h]

namespace Building

variable {P : List Nat} {f g : Nat}

/-- One more page. -/
theorem add (h : Building own top t p0 p) (hown : own (topIndex page)) (htop : top (topIndex page))
    (hadd : PageAdded own (fun _ => False) t page f fl p p') (hroot : RootKept t page p p')
    (hu : UserTop p'.mem t (topIndex page)) : Building own top t p0 p' where
  loading := h.loading.extended hadd.extended hadd.taken.1
  within := h.loading.within h.within (path_own page hown) hadd.extended
  tops := fun i hi ht => by
    by_cases he : i = topIndex page
    · exact he ▸ htop
    · exact h.tops i hi ((userTop_congr (hroot i hi he)).1 ht)
  full := fun P e i hP h4 hleaf hlast => by
    by_cases he : i = topIndex page
    · exact he ▸ hu
    · have hi : i < 512 := hP.1.1 i (List.mem_of_getLast? hlast)
      have hne : P ≠ path page := by
        rintro rfl
        rw [path_eq] at hlast
        exact he (Option.some.inj hlast).symm
      have hold := (hadd.extended.leaf P hP h4 hne).symm.trans hleaf
      exact (userTop_congr (hroot i hi he)).2 (h.full P e i hP h4 hold hlast)

/-- A write to a page. -/
theorem page_write (h : Building own top t p0 p) {m : Store} (hP : Own own P) (h4 : P.length = 4)
    (hg : reach p.mem t P = some g) (hm : ∀ x, ¬ InFrame g x → m x = p.mem x) :
    Building own top t p0 ⟨m, p.free⟩ := by
  have htree := h.loading.tree
  have hgt : g ≠ t := fun he => by
    have hnil := htree.apart P [] g hP Held.nil hg (he ▸ rfl)
    rw [hnil] at h4
    cases h4
  have hroot : ∀ i, i < 512 → entry m t i = entry p.mem t i := fun i hi =>
    entry_congr hi fun x hx => hm x fun hx' =>
      hgt ((reach_isFrame htree.root hg).eq_of_inFrame htree.root hx' hx)
  exact
    { loading := h.loading.page_write hP h4 hg hm
      within := h.within.write (h.loading.taken P g hP hg) (htree.unfree P g hP.held hg) hm
      tops := fun i hi ht => h.tops i hi ((userTop_congr (hroot i hi)).1 ht)
      full := fun Q e i hQ hQ4 hleaf hlast => by
        have hi : i < 512 := hQ.1.1 i (List.mem_of_getLast? hlast)
        have hold := (htree.page_leaf hP h4 hg hm hQ).symm.trans hleaf
        exact (userTop_congr (hroot i hi)).2 (h.full Q e i hQ hQ4 hold hlast) }

end Building

/-- What a new page does to the PML4. -/
theorem mapUserPageAlloc_root (hmap : FollowsWalk mapTo) (hfl : IsFlags fl)
    (hpres : present fl = true) (T : Tree own (fun _ => False) p t) (hown : own (topIndex page)) :
    Triple (· = p) (AddressSpace.mapUserPageAlloc mapTo t page fl)
      (fun _ p' => RootKept t page p p' ∧ (user fl = true → UserTop p'.mem t (topIndex page)))
      (fun _ => True) := by
  refine (allocFrame_spec _ p).conseq (fun _ => id) (fun _ _ => id) (fun _ _ => trivial)
    |>.bind fun f => ?_
  refine Triple.of_single fun q hq => ?_
  obtain ⟨hfree, hmem⟩ := hq
  obtain ⟨Tq, hF, -⟩ := T.pop hfree
  have hpq : q = ⟨zeroFrame p.mem f, q.free⟩ := by
    rw [← hmem]
  rw [← hpq] at Tq hF
  have hft : t ≠ f := fun he => hF.out [] Held.nil (he ▸ rfl)
  have hroute : Route (fun i => own i ∨ False) (indices page).reverse := path_route page (Or.inl hown)
  have hw := hmap q t page f fl hF.frame hfl hpres
  obtain ⟨hother, htop⟩ := Walk.root Tq hfl hpres hroute rfl hw
  have hindex : page >>> 39 &&& 0x1ff = topIndex page := index_eq page 39
  rw [hindex] at hother htop
  refine Triple.bind (R := fun _ p' => RootKept t page p p' ∧
    (user fl = true → UserTop p'.mem t (topIndex page))) ?_ fun _ => Triple.pure fun _ => id
  refine Triple.single ?_
  rw [exec_mapUserPage]
  cases hr : (mapTo q t page f fl).1 with
  | false => exact ⟨fun _ ha => (nomatch ha), fun _ _ => trivial⟩
  | true =>
    refine ⟨fun _ _ => ⟨fun j hj hne => ?_, fun hu => ?_⟩, fun _ he => nomatch he⟩
    · refine (hother j hj hne).trans ?_
      rw [hmem]
      exact entry_zeroFrame _ hF.frame T.root hft hj
    · rcases htop with ⟨-, hno⟩ | ⟨e, he⟩
      · rw [hr] at hno
        cases hno
      · show UserEntry (entry (mapTo q t page f fl).2.mem t (topIndex page))
        rw [he]
        exact userEntry_lor e ⟨hpres, hu⟩

/-! ## The pages of a segment -/

theorem user_segmentFlags (seg : ElfSegment) : user (segmentFlags seg) = true := by
  unfold segmentFlags
  split <;> rfl

section Steps

variable (hmap : FollowsWalk mapTo)
include hmap

/-- A new page for the user. -/
theorem mapUserPageAlloc_building (h : Building own top t p0 p) (hfl : IsFlags fl)
    (hpres : present fl = true) (huser : user fl = true) (hown : own (topIndex page))
    (htop : top (topIndex page)) :
    Triple (· = p) (AddressSpace.mapUserPageAlloc mapTo t page fl)
      (fun f p' => Building own top t p0 p' ∧ PageAdded own (fun _ => False) t page f fl p p')
      (Within p0) := by
  have hspec := mapUserPageAlloc_spec hmap hfl hpres h.loading.tree (path_route page (Or.inl hown))
  refine (hspec.and (mapUserPageAlloc_root hmap hfl hpres h.loading.tree hown)).conseq
    (fun _ => id) ?_ ?_
  · rintro f p' ⟨hadd, hroot, hu⟩
    exact ⟨h.add hown htop hadd hroot (hu huser), hadd⟩
  · rintro p' ⟨⟨f, hext⟩, -⟩
    exact h.loading.within h.within (path_own page hown) hext

omit hmap in
/-- The path of a new page leads to its frame. -/
theorem PageAdded.reach {kern : Nat → Prop} {f : Nat} (hadd : PageAdded own kern t page f fl p p')
    (T : Tree own kern p t) (hown : own (topIndex page)) (hfl : IsFlags fl) :
    Paging.reach p'.mem t (path page) = some f := by
  rw [reach_of_leaf rfl (hadd.leaf (path_own page hown)).2,
    addr_or (T.freeFrame f hadd.taken.1) hfl]

theorem frameFor_building (h : Building own top t p0 p) (hpage : page % 4096 = 0)
    (hfl : IsFlags fl) (hpres : present fl = true) (huser : user fl = true)
    (hown : own (topIndex page)) (htop : top (topIndex page)) :
    Triple (· = p) (frameFor mapTo t page fl)
      (fun f p' => Building own top t p0 p' ∧ reach p'.mem t (path page) = some f)
      (Within p0) := by
  refine Triple.get_bind fun q hq => ?_
  obtain rfl : q = p := hq
  rw [translate_eq h.loading.tree hown, hpage]
  cases hleaf : leaf q.mem t (path page) with
  | some e =>
    have hmod : (addr e + 0) % 4096 = 0 := (isFrame_addr e).mod
    rw [Option.map_some]
    refine Triple.ite (fun _ => Triple.pure fun p' hp' => ?_) fun hno => absurd hmod hno
    obtain rfl : p' = q := hp'
    exact ⟨h, reach_of_leaf rfl hleaf⟩
  | none =>
    rw [Option.map_none]
    refine (mapErr_spec (mapUserPageAlloc_building hmap h hfl hpres huser hown htop) _).bind
      fun f => ?_
    refine Triple.bind (R := fun _ p' => Building own top t p0 p' ∧
      reach p'.mem t (path page) = some f) (Triple.update fun p' hp => ?_) fun _ =>
        Triple.pure fun _ => id
    obtain ⟨hb, hadd⟩ := hp
    rw [zeroFrame_of_zero hadd.zero]
    exact ⟨hb, hadd.reach h.loading.tree hown hfl⟩

theorem mapElfPage_building (h : Building own top t p0 p) {elf : List UInt8} {seg : ElfSegment}
    (hpage : PageOf seg page) (hwrap : seg.vaddr + seg.filesz < 2 ^ 64)
    (hown : own (topIndex page)) (htop : top (topIndex page)) :
    Triple (· = p) (mapElfPage mapTo t elf seg page) (fun _ => Building own top t p0)
      (Within p0) := by
  refine Triple.bind (R := fun _ s => s = p)
    (Triple.ite (fun _ => Triple.throw fun s hs => hs ▸ h.within) fun _ => Triple.pure fun _ => id)
    fun _ => ?_
  refine (frameFor_building hmap h hpage.aligned (isFlags_segmentFlags seg)
    (present_segmentFlags seg) (user_segmentFlags seg) hown htop).bind fun f =>
      Triple.update fun q hq => ?_
  exact hq.1.page_write (path_own page hown) rfl hq.2 fun x hx =>
    fileCopy_out hpage hwrap elf q.mem hx

theorem mapElfSegment_building {elf : List UInt8} {seg : ElfSegment} (hseg : Placed own seg)
    (htop : ∀ page ∈ seg.pages, top (topIndex page)) :
    Triple (Building own top t p0) (mapElfSegment mapTo t elf seg)
      (fun _ => Building own top t p0) (Within p0) := by
  have hpages := hseg.own
  unfold ElfSegment.pages at hpages htop
  refine Triple.ite (fun _ => Triple.pure fun _ => id) fun h0 => ?_
  rw [if_neg h0] at hpages htop
  have haddr : ∀ a, Triple (Building own top t p0) (virtAddr a)
      (fun b p => b = a ∧ Building own top t p0 p) (Within p0) := fun a =>
    Triple.ite (fun _ => Triple.pure fun _ hp => ⟨rfl, hp⟩) fun _ => Triple.throw fun _ hp => hp.within
  refine (haddr _).bind fun start => Triple.assume ?_
  rintro rfl
  refine (haddr _).bind fun finish => Triple.assume ?_
  rintro rfl
  have hlt : (seg.vaddr + seg.memsz) % 2 ^ 64 < 2 ^ 64 := Nat.mod_lt _ (Nat.two_pow_pos 64)
  refine Triple.forM (I := fun _ => Building own top t p0) fun js page rest hl => ?_
  have hmem : page ∈ pagesInclusive seg.vaddr ((seg.vaddr + seg.memsz) % 2 ^ 64) :=
    hl ▸ List.mem_append_right _ List.mem_cons_self
  obtain ⟨hal, hge, hle⟩ := mem_pagesInclusive.1 hmem
  exact .of_single fun p hp => mapElfPage_building hmap hp ⟨hal, by omega, by omega⟩ hseg.wrap
    (hpages page hmem) (htop page hmem)

/-! ## The stack -/

/-- The space has a page for the user under the entry of the stack. -/
def HasStack (m : Store) (t : Nat) : Prop :=
  ∃ P e, P.length = 4 ∧ P.getLast? = some 255 ∧ (∀ i ∈ P, i < 512) ∧ UserLeaf m t P e

theorem mapUserStack_building (hown : own 255) (htop : top 255) :
    Triple (Building own top t p0) (mapUserStack mapTo t)
      (fun _ p => Building own top t p0 p ∧ HasStack p.mem t) (Within p0) := by
  refine Triple.bind (R := fun _ p => Building own top t p0 p ∧ HasStack p.mem t) ?_ fun _ =>
    Triple.pure fun _ => id
  refine (Triple.forM (I := fun pages p => Building own top t p0 p ∧
    (pages ≠ [] → HasStack p.mem t)) fun pages page rest hl => ?_).conseq
    (fun _ hp => ⟨hp, fun hne => absurd rfl hne⟩) (fun _ _ hp => ⟨hp.1, hp.2 (by decide)⟩)
    fun _ => id
  have hmem : page ∈ pagesInclusive (USER_STACK_TOP - USER_STACK_SIZE) USER_STACK_TOP :=
    hl ▸ List.mem_append_right _ List.mem_cons_self
  obtain ⟨-, hge, hle⟩ := mem_pagesInclusive.1 hmem
  have hindex : topIndex page = 255 := by
    simp only [topIndex, USER_STACK_TOP, USER_STACK_SIZE] at hge hle ⊢
    omega
  refine .of_single fun p hp => ?_
  refine (mapErr_spec (mapUserPageAlloc_building hmap hp.1 (by decide) (by decide) (by decide)
    (hindex ▸ hown) (hindex ▸ htop)) _).bind fun f => Triple.pure fun p' hp' => ?_
  obtain ⟨hb, hadd⟩ := hp'
  refine ⟨hb, fun _ => ?_⟩
  have hown' : Own own (path page) := path_own page (show own (topIndex page) from hindex ▸ hown)
  obtain ⟨-, hleaf⟩ := hadd.leaf hown'
  have hf : IsFrame f := hp.1.loading.tree.freeFrame f hadd.taken.1
  have hlast : (path page).getLast? = some 255 := by
    rw [path_eq, ← hindex]
    rfl
  refine ⟨path page, _, rfl, hlast, path_lt page, hleaf, ?_, fun i hi => ?_⟩
  · rw [user_or hf]
    decide
  · exact hb.full (path page) _ i hown' rfl hleaf hi

end Steps

/-! ## A space of its own -/

/-- What a space owns: what is under the first entry of its PML4, and under its
entries for the user. -/
def Mine (m : Store) (t i : Nat) : Prop := i < 512 ∧ (i = 0 ∨ UserTop m t i)

/-- The user part of a space is a tree, and has a stack. -/
structure Space (m : Store) (t : Nat) : Prop where
  tree : Tree (Mine m t) (fun _ => False) ⟨m, []⟩ t
  stack : HasStack m t

/-- A frame of the user part of the space: a table or a page. -/
def Holds (m : Store) (t f : Nat) : Prop := ∃ P, Own (Mine m t) P ∧ reach m t P = some f

/-- A frame under the first entry of the PML4, or the PML4. -/
def Under (m : Store) (t f : Nat) : Prop := ∃ Q, Own (· = 0) Q ∧ reach m t Q = some f

theorem own_first {m : Store} {P : List Nat} (hP : Own (· = 0) P) : Own (Mine m t) P :=
  ⟨hP.1.mono fun i hi => hi ▸ ⟨by decide, Or.inl rfl⟩, hP.2⟩

/-- A path under an entry for the user. -/
theorem own_user {m : Store} {P : List Nat} (hP : Route (UserTop m t) P) (hlen : P.length ≤ 4) :
    Own (Mine m t) P :=
  ⟨⟨hP.1, fun i hi => ⟨hP.1 i (List.mem_of_getLast? hi), Or.inr (hP.2 i hi)⟩⟩, hlen⟩

theorem Under.holds {m : Store} {f : Nat} (h : Under m t f) : Holds m t f := by
  obtain ⟨Q, hQ, hr⟩ := h
  exact ⟨Q, own_first hQ, hr⟩

theorem holds_root (m : Store) (t : Nat) : Holds m t t := ⟨[], Own.nil, rfl⟩

/-- A table of the user part of the space. -/
def IsTable (m : Store) (t g : Nat) : Prop :=
  ∃ P, Own (Mine m t) P ∧ P.length ≤ 3 ∧ reach m t P = some g

theorem IsTable.holds {m : Store} {g : Nat} (h : IsTable m t g) : Holds m t g := by
  obtain ⟨P, hP, -, hr⟩ := h
  exact ⟨P, hP, hr⟩

namespace Space

variable {m m' : Store} {f : Nat}

/-- The user part of a space is what its tables are. -/
theorem congr (h : Space m t) (hm : ∀ g x, IsTable m t g → InFrame g x → m' x = m x) :
    Space m' t ∧ (∀ f, Holds m' t f ↔ Holds m t f) ∧ ∀ f, Under m' t f ↔ Under m t f := by
  have hentry : ∀ P g i, Held (Mine m t) (fun _ => False) (i :: P) → reach m t P = some g →
      entry m' g i = entry m g i := fun P g i hP hg =>
    entry_congr hP.head fun x hx => hm g x ⟨P, hP.tail.owned, hP.length, hg⟩ hx
  have hroot : ∀ i, i < 512 → entry m' t i = entry m t i := fun i hi =>
    entry_congr hi fun x hx => hm t x ⟨[], Own.nil, by simp, rfl⟩ hx
  have hmine : Mine m' t = Mine m t := by
    funext i
    refine propext (and_congr_right fun hi => or_congr_right ?_)
    exact userTop_congr (hroot i hi)
  refine ⟨⟨?_, ?_⟩, fun f => ?_, fun f => exists_congr fun Q => and_congr_right fun hQ => ?_⟩
  · rw [hmine]
    exact h.tree.congr List.suffix_rfl hentry
  · obtain ⟨P, e, hP4, hlast, hlt, hleaf, hu, htop⟩ := h.stack
    have hP : Own (Mine m t) P := own_user ⟨hlt, htop⟩ (Nat.le_of_eq hP4)
    refine ⟨P, e, hP4, hlast, hlt, (Tree.leaf_congr hentry hP.held).trans hleaf, hu,
      fun i hi => ?_⟩
    exact (userTop_congr (hroot i (hlt i (List.mem_of_getLast? hi)))).2 (htop i hi)
  · unfold Holds
    rw [hmine]
    refine exists_congr fun P => and_congr_right fun hP => ?_
    rw [Tree.reach_congr hentry hP.held]
  · rw [Tree.reach_congr hentry (own_first hQ).held]

theorem isFrame (h : Space m t) (hf : Holds m t f) : IsFrame f := by
  obtain ⟨P, -, hr⟩ := hf
  exact reach_isFrame h.tree.root hr

/-- The stack has a frame that is not under the first entry. -/
theorem exists_stack (h : Space m t) :
    ∃ f, Holds m t f ∧ ¬ Under m t f := by
  obtain ⟨P, e, hP4, hlast, hlt, hleaf, -, htop⟩ := h.stack
  have hP : Own (Mine m t) P := own_user ⟨hlt, htop⟩ (Nat.le_of_eq hP4)
  have hr := reach_of_leaf hP4 hleaf
  refine ⟨addr e, ⟨P, hP, hr⟩, fun ⟨Q, hQ, hrQ⟩ => ?_⟩
  obtain rfl := h.tree.apart P Q _ hP (own_first hQ).held hr hrQ
  cases hQ.1.2 255 hlast

/-- Freeing a space puts frames of the space on the free stack, each once. -/
theorem dealloc (h : Space p.mem t) (hnodup : p.free.Nodup)
    (hout : ∀ f, Holds p.mem t f → f ∉ p.free) :
    (AddressSpace.deallocProcSpace p t).mem = p.mem ∧
      (AddressSpace.deallocProcSpace p t).free.Nodup ∧
      p.free ⊆ (AddressSpace.deallocProcSpace p t).free ∧
      ∀ f ∈ (AddressSpace.deallocProcSpace p t).free, f ∈ p.free ∨ Under p.mem t f := by
  have hsmall : huge (entry p.mem t 0) = false :=
    h.tree.small 0 [] t (own_first ⟨⟨by simp, by simp⟩, by simp⟩) (by simp) rfl
  have hinj : ∀ Q Q' f, Own (· = 0) Q → Own (· = 0) Q' → reach p.mem t Q = some f →
      reach p.mem t Q' = some f → Q = Q' := fun Q Q' f hQ hQ' =>
    h.tree.apart Q Q' f (own_first hQ) (own_first hQ').held
  have hsame : p.mem = p.mem ∧ p.free.Nodup ∧ p.free ⊆ p.free ∧
      ∀ f ∈ p.free, f ∈ p.free ∨ Under p.mem t f :=
    ⟨rfl, hnodup, List.Subset.refl _, fun f => Or.inl⟩
  unfold AddressSpace.deallocProcSpace
  split
  · exact hsame
  · split
    · refine ⟨mem_foldl _ p, nodup_free_foldl (nodup_userFrames hsmall hinj) hnodup ?_,
        subset_free_foldl, fun f hf => mem_free_deallocUser hsmall hf⟩
      intro f hf
      obtain ⟨Q, hQ, hr⟩ := exists_reach_of_mem_userFrames hsmall hf
      exact hout f ⟨Q, own_first hQ, hr⟩
    · exact hsame

end Space

/-- A space was built from free frames. -/
structure Built (p0 p : Phys) (t : Nat) : Prop where
  within : Within p0 p
  space : Space p.mem t
  taken : ∀ f, Holds p.mem t f → f ∈ p0.free ∧ f ∉ p.free

/-- A space that is complete. -/
theorem Building.built (h : Building own top t p0 p) (h0 : own 0) (htop : ∀ i, top i → own i)
    (hstack : HasStack p.mem t) : Built p0 p t := by
  have hown : ∀ i, i < 512 → Mine p.mem t i → own i := fun i hi hm =>
    hm.2.elim (fun he => he ▸ h0) fun hu => htop i (h.tops i hi hu)
  have htree := h.loading.tree.sub hown
  refine ⟨h.within, ⟨htree.refree (by simp) List.nodup_nil (by simp), hstack⟩, ?_⟩
  rintro f ⟨P, hP, hf⟩
  refine ⟨h.loading.taken P f ⟨⟨hP.1.1, fun i hi => ?_⟩, hP.2⟩ hf, htree.unfree P f hP.held hf⟩
  exact hown i (hP.1.1 i (List.mem_of_getLast? hi)) (hP.1.2 i hi)

/-- The active PML4 while a space is built.  Its entry for the stack is not shared. -/
structure Active (cr3 : Nat) (p : Phys) : Prop where
  freeFrame : ∀ f ∈ p.free, IsFrame f
  freeNodup : p.free.Nodup
  frame : IsFrame cr3
  taken : cr3 ∉ p.free
  stack : ¬ Shared p.mem cr3 255

/-- A new space has no pages. -/
theorem NewSpace.building (h : Active cr3 p0) (hnew : NewSpace (Shared p0.mem cr3) cr3 t p0 p) :
    Building (fun i => ¬ Shared p0.mem cr3 i) top t p0 p := by
  have htree := hnew.tree h.freeFrame h.freeNodup (KernelTables.none cr3 p0)
  exact
    { loading :=
        { tree := htree
          free := (hnew.within_free htree).free
          taken := fun P g hP hg => hnew.own_free hP hg }
      within := hnew.within_free htree
      tops := fun i hi hu => by
        by_cases hs : Shared p0.mem cr3 i
        · have hno := hs.2.2
          rw [← hnew.copy i hi hs, hu.2] at hno
          cases hno
        · have hno := hu.1
          rw [hnew.unused i hi hs] at hno
          cases hno
      full := fun P e i hP h4 hleaf _ => by
        rw [hnew.leaf_own hP h4] at hleaf
        cases hleaf }

theorem newUser_building (h : Active cr3 p0) (top : Nat → Prop) :
    Triple (· = p0) (AddressSpace.newUser cr3)
      (fun t => Building (fun i => ¬ Shared p0.mem cr3 i) top t p0) (Within p0) :=
  (newUser_spec h.freeFrame h.frame h.taken).conseq (fun _ => id)
    (fun _ _ hnew => hnew.building h) fun _ hs => hs ▸ Within.refl p0

/-- The entries of the PML4 that a load may make: those of the segments and of the stack. -/
def LoadTop (i : Nat) : Prop := i = 0 ∨ i = 255

/-- `load_elf_into_new_space` builds a space with a stack from free frames, or takes
frames and fails. -/
theorem loadElfIntoNewSpace_building (hmap : FollowsWalk mapTo) (h : Active cr3 p0)
    {elf : List UInt8} (hsegs : ∀ entryPoint segments,
      parseElfSegments elf = .ok (entryPoint, segments) → UserSegments segments) :
    Triple (· = p0) (loadElfIntoNewSpace mapTo cr3 elf)
      (fun r p => Building (fun i => ¬ Shared p0.mem cr3 i) LoadTop r.1 p0 p ∧ HasStack p.mem r.1)
      (Within p0) := by
  unfold loadElfIntoNewSpace
  cases hparse : parseElfSegments elf with
  | error e => exact Triple.throw fun p hp => hp ▸ Within.refl p0
  | ok r =>
    obtain ⟨entryPoint, segments⟩ := r
    have hsegs := hsegs entryPoint segments hparse
    refine (newUser_building h LoadTop).bind fun t => ?_
    refine Triple.bind (R := fun _ => Building (fun i => ¬ Shared p0.mem cr3 i) LoadTop t p0)
      ?_ fun _ => ?_
    · refine Triple.forM (I := fun _ => Building (fun i => ¬ Shared p0.mem cr3 i) LoadTop t p0)
        fun _ seg rest hl => ?_
      have hseg : seg ∈ segments := hl ▸ List.mem_append_right _ List.mem_cons_self
      exact mapElfSegment_building hmap (hsegs.placed seg hseg) fun page hpage =>
        Or.inl (hsegs.first seg hseg page hpage)
    · exact (mapUserStack_building hmap h.stack (Or.inr rfl)).bind fun top =>
        Triple.pure fun p hp => hp

/-- What a load leaves is a space of its own. -/
theorem loadElfIntoNewSpace_built (hmap : FollowsWalk mapTo) (h : Active cr3 p0)
    {elf : List UInt8} (hsegs : ∀ entryPoint segments,
      parseElfSegments elf = .ok (entryPoint, segments) → UserSegments segments) :
    Triple (· = p0) (loadElfIntoNewSpace mapTo cr3 elf) (fun r p => Built p0 p r.1)
      (Within p0) := by
  have h0 : ¬ Shared p0.mem cr3 0 := fun hs => absurd hs.1 (by decide)
  have htop : ∀ i, LoadTop i → ¬ Shared p0.mem cr3 i := by
    rintro i (rfl | rfl)
    · exact h0
    · exact h.stack
  exact (loadElfIntoNewSpace_building hmap h hsegs).conseq (fun _ => id)
    (fun _ _ hb => hb.1.built h0 htop hb.2) fun _ => id

/-! ## A copy of a space -/

section Clone

variable (hmap : FollowsWalk mapTo) {i2 i3 i4 g : Nat}
include hmap

omit hmap in
/-- A loop over a table while a space is built. -/
theorem Building.loop {body : Nat → Kernel Unit}
    (hbody : ∀ j, j < 512 → ∀ p, Building own top t p0 p →
      Triple (· = p) (body j) (fun _ => Building own top t p0) (Within p0)) :
    Triple (Building own top t p0) ((List.range 512).forM body)
      (fun _ => Building own top t p0) (Within p0) :=
  Triple.forM (I := fun _ => Building own top t p0) fun _ j _ hl =>
    .of_single (hbody j (List.mem_range.1 (hl ▸ List.mem_append_right _ List.mem_cons_self)))

theorem clonePt_building (h2 : i2 < 512) (h3 : i3 < 512) (h4 : i4 < 512) (hown : own i4)
    (htop : top i4) :
    Triple (Building own top t p0) (AddressSpace.clonePt mapTo t i4 i3 i2 g)
      (fun _ => Building own top t p0) (Within p0) := by
  refine Building.loop fun i1 h1 p hp => Triple.get_bind fun q hq => ?_
  obtain rfl : q = p := hq
  refine Triple.ite (fun _ => Triple.pure fun _ hs => hs ▸ hp) fun hyes => ?_
  have hl1 : present (entry q.mem g i1) = true ∧ user (entry q.mem g i1) = true := by
    simpa [not_or] using hyes
  have hpath := path_compose h1 h2 h3 h4
  generalize hv : i4 <<< 39 ||| i3 <<< 30 ||| i2 <<< 21 ||| i1 <<< 12 = v at hpath ⊢
  have hindex : topIndex (pageOf v) = i4 := by
    rw [path_eq] at hpath
    simpa [topIndex] using congrArg List.getLast? hpath
  have hown' : own (topIndex (pageOf v)) := hindex ▸ hown
  refine Triple.bind (R := fun a s => a = v ∧ s = q)
    (Triple.ite (fun _ => Triple.pure fun s hs => ⟨rfl, hs⟩)
      fun _ => Triple.throw fun s hs => hs ▸ hp.within) fun a => Triple.assume ?_
  rintro rfl
  refine (mapUserPageAlloc_building hmap hp (isFlags_flags _) ((present_flags _).trans hl1.1)
    ((user_flags _).trans hl1.2) hown' (hindex ▸ htop)).bind fun f => Triple.update fun p' hp' => ?_
  obtain ⟨hb, hadd⟩ := hp'
  exact hb.page_write (path_own _ hown') rfl (hadd.reach hp.loading.tree hown' (isFlags_flags _))
    fun x hx => copyFrame_out _ _ hx

theorem clonePd_building (h3 : i3 < 512) (h4 : i4 < 512) (hown : own i4) (htop : top i4) :
    Triple (Building own top t p0) (AddressSpace.clonePd mapTo t i4 i3 g)
      (fun _ => Building own top t p0) (Within p0) := by
  refine Building.loop fun i2 h2 p hp => Triple.get_bind fun q hq => ?_
  refine Triple.ite (fun _ => Triple.pure fun s (hs : s = q) => hs ▸ hq ▸ hp) fun _ =>
    Triple.ite (fun _ => Triple.throw fun s (hs : s = q) => hs ▸ hq ▸ hp.within) fun _ => ?_
  exact (clonePt_building hmap h2 h3 h4 hown htop).pre fun s (hs : s = q) => hs ▸ hq ▸ hp

theorem clonePdpt_building (h4 : i4 < 512) (hown : own i4) (htop : top i4) :
    Triple (Building own top t p0) (AddressSpace.clonePdpt mapTo t i4 g)
      (fun _ => Building own top t p0) (Within p0) := by
  refine Building.loop fun i3 h3 p hp => Triple.get_bind fun q hq => ?_
  refine Triple.ite (fun _ => Triple.pure fun s (hs : s = q) => hs ▸ hq ▸ hp) fun _ =>
    Triple.ite (fun _ => Triple.throw fun s (hs : s = q) => hs ▸ hq ▸ hp.within) fun _ => ?_
  exact (clonePd_building hmap h3 h4 hown htop).pre fun s (hs : s = q) => hs ▸ hq ▸ hp

theorem clonePml4_building (hfork : Forkable cr3 pml4 p0) :
    Triple (Building (fun i => ¬ Shared p0.mem cr3 i) (UserTop p0.mem pml4) t p0)
      (AddressSpace.clonePml4 mapTo t pml4)
      (fun _ => Building (fun i => ¬ Shared p0.mem cr3 i) (UserTop p0.mem pml4) t p0)
      (Within p0) := by
  refine Building.loop fun i4 h4 p hp => Triple.get_bind fun q hq => ?_
  obtain rfl : q = p := hq
  have he : entry q.mem pml4 i4 = entry p0.mem pml4 i4 := hp.within.entry hfork.freeFrame
    hfork.root (hfork.taken [] pml4 Route.nil (by simp) rfl) h4
  rw [he]
  refine Triple.ite (fun _ => Triple.pure fun _ hs => hs ▸ hp) fun hpres =>
    Triple.ite (fun _ => Triple.pure fun _ hs => hs ▸ hp) fun huser =>
      Triple.ite (fun _ => Triple.throw fun _ hs => hs ▸ hp.within) fun _ => ?_
  have htop : UserTop p0.mem pml4 i4 := ⟨not_not.1 hpres, not_not.1 huser⟩
  exact (clonePdpt_building hmap h4 (hfork.apart i4 htop) htop).pre fun _ hs => hs ▸ hp

/-- `clone_user_space` builds a space from free frames, or takes frames and
fails. -/
theorem cloneUserSpace_built (h : Active cr3 p0) (hfork : Forkable cr3 pml4 p0)
    (hstack : HasStack p0.mem pml4) :
    Triple (· = p0) (AddressSpace.cloneUserSpace mapTo cr3 pml4) (fun t p => Built p0 p t)
      (Within p0) := by
  have hbuild : Triple (· = p0) (AddressSpace.cloneUserSpace mapTo cr3 pml4)
      (fun t => Building (fun i => ¬ Shared p0.mem cr3 i) (UserTop p0.mem pml4) t p0)
      (Within p0) :=
    (newUser_building h (UserTop p0.mem pml4)).bind fun t =>
      (clonePml4_building hmap hfork).bind fun _ => Triple.pure fun _ => id
  refine (hbuild.and (cloneUserSpace_spec hmap hfork)).conseq (fun _ => id) ?_ fun _ hw => hw.1
  rintro t p ⟨hb, hcopy⟩
  refine hb.built (fun hs => absurd hs.1 (by decide)) hfork.apart ?_
  -- the page of the parent's stack has a copy
  obtain ⟨P, e0, hP4, hlast, hlt, hu⟩ := hstack
  have htop : UserTop p0.mem pml4 255 := hu.2.2 255 hlast
  have hroute : Route (UserTop p0.mem pml4) P :=
    ⟨hlt, fun i hi => Option.some.inj (hlast.symm.trans hi) ▸ htop⟩
  have hP : Own (fun i => ¬ Shared p0.mem cr3 i) P := Copied.own hfork hroute (Nat.le_of_eq hP4)
  obtain ⟨e, he⟩ := hcopy.complete P e0 hroute hP4 ⟨hP4, hlt⟩ hu
  obtain ⟨-, e1, hu1, hfl, -⟩ := hcopy.sound P e hP hP4 he
  obtain rfl := Option.some.inj (hu.1.symm.trans hu1.1)
  refine ⟨P, e, hP4, hlast, hlt, he, ?_, fun i hi => hb.full P e i hP hP4 he hi⟩
  rw [← user_flags, hfl, user_flags]
  exact hu.2.1

end Clone

end AeroOS.Memory
