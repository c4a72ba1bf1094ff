import AeroOS.Lib.Hoare
import AeroOS.Lib.PageWalk
import AeroOS.Memory.FrameAllocator

/-!
# Address spaces

`memory/page_table.rs`: the page tables of the processes.  An address space is
the frame of its PML4 table.  The kernel reads and writes tables and pages
through its window on the physical memory; here these are reads and writes at
the physical address itself.

The mapper of the `x86_64` crate is the parameter `mapTo`.  `FollowsWalk` is
what the kernel relies on: `map_to` is the walk of the processor, with its
tables taken from the frame allocator.
-/

namespace AeroOS.Memory

open AeroOS.Bytes AeroOS.Hoare AeroOS.Paging

/-- Code of the kernel on the physical memory.  An error is the text of an
`Err`, or of a panic. -/
abbrev Kernel := Comp Phys String

/-! ## Frames -/

/-- `alloc_frame`, with the error for no frame. -/
def allocFrame (err : String) : Kernel Nat := do
  let p ← get
  match (FrameAllocator.mk p.free).allocateFrame with
  | none => throw err
  | some (frame, a) =>
    set (Phys.mk (zeroFrame p.mem frame) a.freeStack)
    return frame

/-- `dealloc_frame`. -/
def deallocFrame (p : Phys) (frame : Nat) : Phys :=
  { p with free := ((FrameAllocator.mk p.free).deallocateFrame frame).freeStack }

/-! ## Mapping -/

/-- `map_to` on the table `pml4`; `true` is `Ok`. -/
abbrev MapTo := Phys → (pml4 page frame flags : Nat) → Bool × Phys

/-- The indices of a virtual address, for the PML4 first. -/
def indices (vaddr : Nat) : List Nat :=
  [vaddr >>> 39 &&& 0x1ff, vaddr >>> 30 &&& 0x1ff, vaddr >>> 21 &&& 0x1ff, vaddr >>> 12 &&& 0x1ff]

/-- `map_to` is the walk of the processor. -/
def FollowsWalk (mapTo : MapTo) : Prop :=
  ∀ p pml4 page frame fl, IsFrame frame → IsFlags fl → present fl = true →
    Walk frame fl p pml4 (indices page) (mapTo p pml4 page frame fl).1
      (mapTo p pml4 page frame fl).2

/-- A mapper that is the walk. -/
def walkTo : MapTo := fun p pml4 page frame fl => walk frame fl p pml4 (indices page)

theorem walkTo_follows : FollowsWalk walkTo := fun p pml4 _ frame fl _ _ _ =>
  walk_walk frame fl p pml4 (List.cons_ne_nil _ _)

/-- A virtual address is canonical: bits 47 to 63 are equal. -/
def Canonical (vaddr : Nat) : Prop :=
  vaddr < 2 ^ 47 ∨ 2 ^ 64 - 2 ^ 47 ≤ vaddr ∧ vaddr < 2 ^ 64

instance (vaddr : Nat) : Decidable (Canonical vaddr) := inferInstanceAs (Decidable (_ ∨ _))

/-- `VirtAddr::new` panics for an address that is not canonical. -/
def virtAddr (vaddr : Nat) : Kernel Nat :=
  if Canonical vaddr then return vaddr
  else throw "virtual address must be sign extended in bits 48 to 64"

/-- `Page::containing_address`. -/
def pageOf (vaddr : Nat) : Nat := vaddr / 4096 * 4096

/-! ## `AddressSpace` -/

namespace AddressSpace

/-- The loop of `new_user`: entries that are present and not for the user are
copied. -/
def copyKernelEntries (cr3 pml4 : Nat) : Kernel Unit :=
  (List.range' 1 511).forM fun i => do
    let p ← get
    let e := entry p.mem cr3 i
    if ¬ present e then return ()
    else if user e then return ()
    else set (Phys.mk (setEntry p.mem pml4 i e) p.free)

/-- `new_user`: a zeroed PML4 with the kernel entries of the active one. -/
def newUser (cr3 : Nat) : Kernel Nat := do
  let pml4 ← allocFrame "out of frames for PML4"
  modify fun p => { p with mem := zeroFrame p.mem pml4 }
  copyKernelEntries cr3 pml4
  return pml4

/-- `translate`. -/
def translate (m : Store) (pml4 vaddr : Nat) : Option Nat :=
  let e4 := entry m pml4 (vaddr >>> 39 &&& 0x1ff)
  if ¬ present e4 then none
  else
    let e3 := entry m (addr e4) (vaddr >>> 30 &&& 0x1ff)
    if ¬ present e3 then none
    else if huge e3 then some (addr e3 + (vaddr &&& 0x3fffffff))
    else
      let e2 := entry m (addr e3) (vaddr >>> 21 &&& 0x1ff)
      if ¬ present e2 then none
      else if huge e2 then some (addr e2 + (vaddr &&& 0x1fffff))
      else
        let e1 := entry m (addr e2) (vaddr >>> 12 &&& 0x1ff)
        if ¬ present e1 then none
        else some (addr e1 + (vaddr &&& 0xfff))

section

variable (mapTo : MapTo)

/-- `map_user_page`. -/
def mapUserPage (pml4 page frame fl : Nat) : Kernel Unit := do
  let p ← get
  set (mapTo p pml4 page frame fl).2
  if (mapTo p pml4 page frame fl).1 then return ()
  else throw "user map_to failed"

/-- `map_user_page_alloc`. -/
def mapUserPageAlloc (pml4 page fl : Nat) : Kernel Nat := do
  let frame ← allocFrame "out of physical frames"
  mapUserPage mapTo pml4 page frame fl
  return frame

/-- The innermost loop of `clone_user_space`, over a page table. -/
def clonePt (new pml4Idx pdptIdx pdIdx pt : Nat) : Kernel Unit :=
  (List.range 512).forM fun ptIdx => do
    let p ← get
    let l1 := entry p.mem pt ptIdx
    if ¬ present l1 ∨ ¬ user l1 then return ()
    else
      let vaddr ← virtAddr (pml4Idx <<< 39 ||| pdptIdx <<< 30 ||| pdIdx <<< 21 ||| ptIdx <<< 12)
      let dst ← mapUserPageAlloc mapTo new (pageOf vaddr) (flags l1)
      modify fun p => { p with mem := copyFrame p.mem (addr l1) dst }

/-- The loop over a page directory. -/
def clonePd (new pml4Idx pdptIdx pd : Nat) : Kernel Unit :=
  (List.range 512).forM fun pdIdx => do
    let p ← get
    let l2 := entry p.mem pd pdIdx
    if ¬ present l2 then return ()
    else if huge l2 then throw "2MiB huge page in user space"
    else clonePt mapTo new pml4Idx pdptIdx pdIdx (addr l2)

/-- The loop over a page directory pointer table. -/
def clonePdpt (new pml4Idx pdpt : Nat) : Kernel Unit :=
  (List.range 512).forM fun pdptIdx => do
    let p ← get
    let l3 := entry p.mem pdpt pdptIdx
    if ¬ present l3 then return ()
    else if huge l3 then throw "1GiB huge page in user space"
    else clonePd mapTo new pml4Idx pdptIdx (addr l3)

/-- The outermost loop, over the PML4. -/
def clonePml4 (new pml4 : Nat) : Kernel Unit :=
  (List.range 512).forM fun pml4Idx => do
    let p ← get
    let l4 := entry p.mem pml4 pml4Idx
    if ¬ present l4 then return ()
    else if ¬ user l4 then return ()
    else if huge l4 then throw "1GiB huge page in user space"
    else clonePdpt mapTo new pml4Idx (addr l4)

/-- `clone_user_space` of the space `pml4`. -/
def cloneUserSpace (cr3 pml4 : Nat) : Kernel Nat := do
  let new ← newUser cr3
  clonePml4 mapTo new pml4
  return new

end

end AddressSpace

/-! ## Paths of virtual addresses -/

/-- The path of a virtual address, the index of the page table first. -/
def path (vaddr : Nat) : List Nat := (indices vaddr).reverse

theorem index_eq (vaddr k : Nat) : vaddr >>> k &&& 0x1ff = vaddr / 2 ^ k % 512 := by
  rw [Nat.shiftRight_eq_div_pow]
  exact Nat.and_two_pow_sub_one_eq_mod _ 9

theorem path_eq (vaddr : Nat) :
    path vaddr = [vaddr / 2 ^ 12 % 512, vaddr / 2 ^ 21 % 512, vaddr / 2 ^ 30 % 512,
      vaddr / 2 ^ 39 % 512] := by
  simp only [path, indices, index_eq, List.reverse_cons, List.reverse_nil, List.nil_append,
    List.cons_append]

@[simp] theorem path_length (vaddr : Nat) : (path vaddr).length = 4 := rfl

theorem path_route {top : Nat → Prop} (vaddr : Nat) (h : top (vaddr / 2 ^ 39 % 512)) :
    Route top (path vaddr) := by
  rw [path_eq]
  refine ⟨fun i hi => ?_, fun i hi => ?_⟩
  · simp only [List.mem_cons, List.not_mem_nil, or_false] at hi
    omega
  · rw [← Option.some.inj hi]
    exact h

theorem path_lt (vaddr : Nat) : ∀ i ∈ path vaddr, i < 512 :=
  (path_route vaddr trivial : Route (fun _ => True) (path vaddr)).1

theorem path_own {own : Nat → Prop} (vaddr : Nat) (h : own (vaddr / 2 ^ 39 % 512)) :
    Own own (path vaddr) := ⟨path_route vaddr h, le_rfl⟩

/-- Addresses of one page have one path. -/
theorem path_pageOf (vaddr : Nat) : path (pageOf vaddr) = path vaddr := by
  simp only [path_eq, pageOf]
  congr 1
  · omega
  congr 1
  · omega
  congr 1
  · omega
  congr 1
  omega

/-! ## What the operations do -/

section Specs

variable {own kern : Nat → Prop} {t : Nat}

theorem exec_allocFrame_nil {p : Phys} (h : p.free = []) (err : String) :
    exec (allocFrame err) p = (.error err, p) := by
  obtain ⟨m, free⟩ := p
  subst h
  rfl

theorem exec_allocFrame_cons {p : Phys} {f : Nat} {rest : List Nat} (h : p.free = f :: rest)
    (err : String) : exec (allocFrame err) p = (.ok f, ⟨zeroFrame p.mem f, rest⟩) := by
  obtain ⟨m, free⟩ := p
  subst h
  rfl

theorem allocFrame_spec (err : String) (p : Phys) :
    Triple (· = p) (allocFrame err)
      (fun f p' => p.free = f :: p'.free ∧ p'.mem = zeroFrame p.mem f) (· = p) := by
  refine Triple.single ?_
  cases hfree : p.free with
  | nil =>
    rw [exec_allocFrame_nil hfree]
    exact ⟨fun _ ha => (nomatch ha), fun _ _ => rfl⟩
  | cons f rest =>
    rw [exec_allocFrame_cons hfree]
    exact ⟨fun _ ha => Except.ok.inj ha ▸ ⟨rfl, rfl⟩, fun _ he => (nomatch he)⟩

theorem exec_mapUserPage (mapTo : MapTo) (pml4 page frame fl : Nat) (p : Phys) :
    exec (AddressSpace.mapUserPage mapTo pml4 page frame fl) p =
      (if (mapTo p pml4 page frame fl).1 then .ok () else .error "user map_to failed",
        (mapTo p pml4 page frame fl).2) := by
  show exec (if (mapTo p pml4 page frame fl).1 then pure () else throw "user map_to failed")
    (mapTo p pml4 page frame fl).2 = _
  cases (mapTo p pml4 page frame fl).1 <;> rfl

/-- One page added to an address space. -/
structure PageAdded (own kern : Nat → Prop) (t page frame fl : Nat) (p p' : Phys) : Prop where
  extended : Extended own kern t (path page) frame p p'
  taken : frame ∈ p.free ∧ frame ∉ p'.free
  zero : ∀ x, InFrame frame x → p'.mem x = 0
  leaf : Own own (path page) → leaf p.mem t (path page) = none ∧
    leaf p'.mem t (path page) = some (frame ||| fl)

/-- `map_user_page_alloc` adds a page, or fails while it adds tables. -/
theorem mapUserPageAlloc_spec {mapTo : MapTo} (hmap : FollowsWalk mapTo) {page fl : Nat}
    (hfl : IsFlags fl) (hpres : present fl = true) {p : Phys} (T : Tree own kern p t)
    (hroute : Route (fun i => own i ∨ kern i) (path page)) :
    Triple (· = p) (AddressSpace.mapUserPageAlloc mapTo t page fl)
      (fun frame p' => PageAdded own kern t page frame fl p p')
      (fun p' => ∃ frame, Extended own kern t (path page) frame p p') := by
  refine Triple.single ?_
  rw [AddressSpace.mapUserPageAlloc, exec_bind]
  cases hfree : p.free with
  | nil =>
    rw [exec_allocFrame_nil hfree]
    exact ⟨fun _ ha => (nomatch ha), fun _ _ => ⟨0, .refl T⟩⟩
  | cons f rest =>
    rw [exec_allocFrame_cons hfree]
    obtain ⟨T', hF, -⟩ := T.pop hfree
    have hw := hmap ⟨zeroFrame p.mem f, rest⟩ t page f fl hF.frame hfl hpres
    have hext := hw.extended T' hF hfl hpres hroute rfl
    obtain ⟨hext', htaken⟩ := hext.of_pop T hfree
    simp only [exec_bind, exec_mapUserPage]
    cases hr : (mapTo ⟨zeroFrame p.mem f, rest⟩ t page f fl).1 with
    | false => exact ⟨fun _ ha => (nomatch ha), fun _ _ => ⟨f, hext'⟩⟩
    | true =>
      rw [hr] at hw
      refine ⟨fun a ha => ?_, fun _ he => nomatch he⟩
      cases ha
      refine ⟨hext', htaken, fun x hx => hext.frame_zero T' hF hx, fun hown => ?_⟩
      obtain ⟨h1, h2⟩ := hw.leaf_ok T' hF hfl hpres hroute rfl hown
      exact ⟨(T.pop_leaf hfree hown).symm.trans h1, h2⟩

/-- Owned addresses are translated by the entry that maps their page. -/
theorem translate_eq {p : Phys} (T : Tree own kern p t) {vaddr : Nat}
    (hown : own (vaddr / 2 ^ 39 % 512)) :
    AddressSpace.translate p.mem t vaddr =
      (leaf p.mem t (path vaddr)).map fun e => addr e + vaddr % 4096 := by
  have hpath := path_own vaddr hown
  rw [path_eq] at hpath ⊢
  have hmod : vaddr &&& 0xfff = vaddr % 4096 := Nat.and_two_pow_sub_one_eq_mod _ 12
  simp only [AddressSpace.translate, index_eq, hmod]
  generalize vaddr / 2 ^ 12 % 512 = i1 at *
  generalize vaddr / 2 ^ 21 % 512 = i2 at *
  generalize vaddr / 2 ^ 30 % 512 = i3 at *
  generalize vaddr / 2 ^ 39 % 512 = i4 at *
  have hs4 := T.small i4 [] t hpath.tail.tail.tail (by decide) rfl
  cases h4 : present (entry p.mem t i4) with
  | false => simp [leaf, reach, h4]
  | true =>
    have hr4 : reach p.mem t [i4] = some (addr (entry p.mem t i4)) :=
      reach_cons.2 ⟨t, rfl, h4, by simp [hs4], rfl⟩
    generalize addr (entry p.mem t i4) = t3 at hr4 ⊢
    have hs3 := T.small i3 [i4] t3 hpath.tail.tail (by simp) hr4
    cases h3 : present (entry p.mem t3 i3) with
    | false => simp [leaf, reach_bind, hr4, h3]
    | true =>
      have hr3 : reach p.mem t [i3, i4] = some (addr (entry p.mem t3 i3)) :=
        reach_cons.2 ⟨t3, hr4, h3, by simp [hs3], rfl⟩
      simp only [hs3]
      generalize addr (entry p.mem t3 i3) = t2 at hr3 ⊢
      have hs2 := T.small i2 [i3, i4] t2 hpath.tail (by simp) hr3
      cases h2 : present (entry p.mem t2 i2) with
      | false => simp [leaf, reach_bind p.mem t i2, hr3, h2]
      | true =>
        have hr2 : reach p.mem t [i2, i3, i4] = some (addr (entry p.mem t2 i2)) :=
          reach_cons.2 ⟨t2, hr3, h2, by simp [hs2], rfl⟩
        simp only [hs2]
        generalize addr (entry p.mem t2 i2) = t1 at hr2 ⊢
        rw [leaf_of_reach hr2]
        cases h1 : present (entry p.mem t1 i1) <;> rfl

/-- The entry `i` of the active PML4 is copied into a new address space. -/
def Shared (m : Store) (cr3 i : Nat) : Prop :=
  1 ≤ i ∧ present (entry m cr3 i) = true ∧ user (entry m cr3 i) = false

instance (m : Store) (cr3 i : Nat) : Decidable (Shared m cr3 i) :=
  inferInstanceAs (Decidable (_ ∧ _))

/-- A PML4 that holds copies of kernel entries, and nothing else. -/
structure NewSpace (copied : Nat → Prop) (cr3 t : Nat) (p0 p : Phys) : Prop where
  free : p0.free = t :: p.free
  outside : ∀ x, ¬ InFrame t x → p.mem x = p0.mem x
  copy : ∀ i, i < 512 → copied i → entry p.mem t i = entry p0.mem cr3 i
  unused : ∀ i, i < 512 → ¬ copied i → entry p.mem t i = 0

namespace NewSpace

variable {cr3 : Nat} {p0 p : Phys} {done : List Nat} {i : Nat}

/-- The loop passes over an entry that is not shared. -/
theorem skip (h : NewSpace (fun j => j ∈ done ∧ Shared p0.mem cr3 j) cr3 t p0 p)
    (hi : ¬ Shared p0.mem cr3 i) :
    NewSpace (fun j => j ∈ done ++ [i] ∧ Shared p0.mem cr3 j) cr3 t p0 p where
  free := h.free
  outside := h.outside
  copy := fun j hj hc => by
    refine h.copy j hj ⟨?_, hc.2⟩
    rcases List.mem_append.1 hc.1 with hd | hd
    · exact hd
    · exact absurd (List.mem_singleton.1 hd ▸ hc.2) hi
  unused := fun j hj hc => h.unused j hj fun hd => hc ⟨List.mem_append_left _ hd.1, hd.2⟩

/-- The loop copies an entry that is shared. -/
theorem set (h : NewSpace (fun j => j ∈ done ∧ Shared p0.mem cr3 j) cr3 t p0 p)
    (hi : i < 512) (hsh : Shared p0.mem cr3 i) :
    NewSpace (fun j => j ∈ done ++ [i] ∧ Shared p0.mem cr3 j) cr3 t p0
      ⟨setEntry p.mem t i (entry p0.mem cr3 i), p.free⟩ where
  free := h.free
  outside := fun x hx => (setEntry_out _ _ hi hx).trans (h.outside x hx)
  copy := fun j hj hc => by
    by_cases hij : i = j
    · subst hij
      exact entry_setEntry _ _ _ (entry_lt ..)
    · refine (entry_setEntry_ne _ _ _ hij).trans (h.copy j hj ⟨?_, hc.2⟩)
      rcases List.mem_append.1 hc.1 with hd | hd
      · exact hd
      · exact absurd (List.mem_singleton.1 hd).symm hij
  unused := fun j hj hc => by
    have hij : i ≠ j := by
      rintro rfl
      exact hc ⟨List.mem_append_right _ List.mem_cons_self, hsh⟩
    exact (entry_setEntry_ne _ _ _ hij).trans
      (h.unused j hj fun hd => hc ⟨List.mem_append_left _ hd.1, hd.2⟩)

end NewSpace

theorem copyKernelEntries_spec {p0 : Phys} {cr3 : Nat} {E : Phys → Prop} (hcr3 : IsFrame cr3)
    (ht : IsFrame t) (hne : cr3 ≠ t) :
    Triple (NewSpace (fun i => i ∈ [] ∧ Shared p0.mem cr3 i) cr3 t p0)
      (AddressSpace.copyKernelEntries cr3 t)
      (fun _ => NewSpace (Shared p0.mem cr3) cr3 t p0) E := by
  refine Triple.post (Q := fun _ =>
    NewSpace (fun i => i ∈ List.range' 1 511 ∧ Shared p0.mem cr3 i) cr3 t p0) ?_
    fun _ p hI => { hI with
      copy := fun i hi hc => hI.copy i hi ⟨List.mem_range'_1.2 ⟨hc.1, by omega⟩, hc⟩
      unused := fun i hi hc => hI.unused i hi fun h => hc h.2 }
  refine Triple.forM (I := fun done =>
    NewSpace (fun i => i ∈ done ∧ Shared p0.mem cr3 i) cr3 t p0)
    fun done i rest hl => Triple.get_bind fun p hI => ?_
  have hi : 1 ≤ i ∧ i < 512 := by
    have hmem : i ∈ List.range' 1 511 := hl ▸ List.mem_append_right _ List.mem_cons_self
    have := List.mem_range'_1.1 hmem
    omega
  have he : entry p.mem cr3 i = entry p0.mem cr3 i :=
    entry_congr hi.2 fun x hx => hI.outside x fun hx' => hne (hcr3.eq_of_inFrame ht hx hx')
  rw [he]
  refine Triple.ite (fun hp => Triple.pure fun _ hs => hs ▸ hI.skip fun hsh => hp hsh.2.1)
    fun hp => Triple.ite (fun hu => Triple.pure fun _ hs => hs ▸ hI.skip fun hsh => ?_)
      fun hu => Triple.update fun _ _ => ?_
  · rw [hsh.2.2] at hu
    cases hu
  · exact hI.set hi.2 ⟨hi.1, not_not.1 hp, Bool.eq_false_iff.2 hu⟩

/-- `new_user` builds a PML4 with the shared entries. -/
theorem newUser_spec {p0 : Phys} {cr3 : Nat} (hframe : ∀ f ∈ p0.free, IsFrame f)
    (hcr3 : IsFrame cr3) (hout : cr3 ∉ p0.free) :
    Triple (· = p0) (AddressSpace.newUser cr3)
      (fun t p => NewSpace (Shared p0.mem cr3) cr3 t p0 p) (· = p0) := by
  refine (allocFrame_spec _ p0).bind fun t => ?_
  -- the frame is zeroed once more
  refine Triple.bind (R := fun _ p => t ∈ p0.free ∧
    NewSpace (fun i => i ∈ [] ∧ Shared p0.mem cr3 i) cr3 t p0 p)
    (Triple.update fun p hp => ?_) fun _ p hp => ?_
  · obtain ⟨hfree, hmem⟩ := hp
    refine ⟨hfree ▸ List.mem_cons_self, ?_⟩
    exact
      { free := hfree
        outside := fun x hx => by
          show zeroFrame p.mem t x = _
          rw [zeroFrame_out _ hx, hmem, zeroFrame_out _ hx]
        copy := fun i _ hc => absurd hc.1 List.not_mem_nil
        unused := fun i hi _ => entry_eq_zero hi fun x hx => zeroFrame_in _ hx }
  · have hne : cr3 ≠ t := fun he => hout (he ▸ hp.1)
    have hloop : Triple (NewSpace (fun i => i ∈ [] ∧ Shared p0.mem cr3 i) cr3 t p0)
        (do AddressSpace.copyKernelEntries cr3 t; return t)
        (fun t p => NewSpace (Shared p0.mem cr3) cr3 t p0 p) (· = p0) :=
      (copyKernelEntries_spec hcr3 (hframe t hp.1) hne).bind fun _ => Triple.pure fun _ => id
    exact hloop p hp.2

/-- The kernel's tables under the entries `kern` of the active PML4: no table is
free, and their entries for tables are unused or present. -/
structure KernelTables (kern : Nat → Prop) (cr3 : Nat) (p : Phys) : Prop where
  shared : ∀ i, kern i → Shared p.mem cr3 i
  unfree : ∀ P g, Route kern P → P ≠ [] → P.length ≤ 3 → reach p.mem cr3 P = some g → g ∉ p.free
  unused : ∀ i P g, Route kern (i :: P) → P ≠ [] → P.length < 3 → reach p.mem cr3 P = some g →
    entry p.mem g i = 0 ∨ present (entry p.mem g i) = true

/-- Without entries there is nothing to assume about kernel tables. -/
theorem KernelTables.none (cr3 : Nat) (p : Phys) : KernelTables (fun _ => False) cr3 p where
  shared := fun _ h => h.elim
  unfree := fun P _ hP hne _ _ => absurd hP fun h => by
    obtain ⟨i, hi⟩ := Option.ne_none_iff_exists'.1 fun hn => hne (List.getLast?_eq_none_iff.1 hn)
    exact h.2 i hi
  unused := fun i P _ hP _ _ _ => absurd hP fun h => by
    obtain ⟨j, hj⟩ := Option.ne_none_iff_exists'.1 fun hn =>
      List.cons_ne_nil i P (List.getLast?_eq_none_iff.1 hn)
    exact h.2 j hj

namespace NewSpace

variable {cr3 : Nat} {p0 p : Phys} (h : NewSpace (Shared p0.mem cr3) cr3 t p0 p)
  (hframe : ∀ f ∈ p0.free, IsFrame f)
include h hframe

omit hframe in
/-- A new space maps nothing of its own. -/
theorem reach_own {P : List Nat} (hP : Route (fun i => ¬ Shared p0.mem cr3 i) P) (hne : P ≠ []) :
    reach p.mem t P = none := by
  induction P with
  | nil => exact absurd rfl hne
  | cons i P ih =>
    cases P with
    | nil =>
      have h0 := h.unused i (hP.1 i List.mem_cons_self) (hP.2 i rfl)
      simp [reach, h0]
    | cons j P =>
      rw [reach_bind, ih (hP.suffix (List.suffix_cons i _)) (List.cons_ne_nil j P), Option.bind_none]

/-- The kernel tables of a new space are those of the active one. -/
theorem reach_kern (hK : KernelTables kern cr3 p0) {P : List Nat} (hP : Route kern P)
    (hne : P ≠ []) (hlen : P.length ≤ 3) : reach p.mem t P = reach p0.mem cr3 P := by
  have ht : t ∈ p0.free := h.free ▸ List.mem_cons_self
  induction P with
  | nil => exact absurd rfl hne
  | cons i P ih =>
    have hi := hP.1 i List.mem_cons_self
    cases P with
    | nil => simp only [reach, h.copy i hi (hK.shared i (hP.2 i rfl))]
    | cons j P =>
      have hP' := hP.suffix (List.suffix_cons i (j :: P))
      have hlen' : (j :: P).length ≤ 3 := Nat.le_of_succ_le hlen
      rw [reach_bind p.mem t i, reach_bind p0.mem cr3 i, ih hP' (List.cons_ne_nil j P) hlen']
      cases hg : reach p0.mem cr3 (j :: P) with
      | none => rfl
      | some g =>
        have hgt : g ≠ t := fun he => hK.unfree _ g hP' (List.cons_ne_nil j P) hlen' hg (he ▸ ht)
        obtain ⟨k, -, -, -, hgk⟩ := reach_cons.1 hg
        have he : entry p.mem g i = entry p0.mem g i := entry_congr hi fun x hx =>
          h.outside x fun hx' => hgt ((hgk ▸ isFrame_addr _).eq_of_inFrame (hframe t ht) hx hx')
        simp only [Option.bind_some, he]

/-- A table of a new space is its PML4 or a table of the kernel. -/
theorem reach_cases (hK : KernelTables kern cr3 p0) {P : List Nat} {g : Nat}
    (hP : Held (fun i => ¬ Shared p0.mem cr3 i) kern P) (hg : reach p.mem t P = some g) :
    P = [] ∧ g = t ∨ Route kern P ∧ P ≠ [] ∧ P.length ≤ 3 ∧ reach p0.mem cr3 P = some g := by
  by_cases hne : P = []
  · subst hne
    exact Or.inl ⟨rfl, (Option.some.inj hg).symm⟩
  · have hown : ¬ Route (fun i => ¬ Shared p0.mem cr3 i) P := fun ho => by
      rw [h.reach_own ho hne] at hg
      cases hg
    have hkern := hP.1.cases_or.resolve_left hown
    have hlen : P.length ≤ 3 := hP.2.resolve_right fun ho => hown ho.1
    exact Or.inr ⟨hkern, hne, hlen, (h.reach_kern hframe hK hkern hne hlen).symm.trans hg⟩

/-- A new address space. -/
theorem tree (hnodup : p0.free.Nodup) (hK : KernelTables kern cr3 p0) :
    Tree (fun i => ¬ Shared p0.mem cr3 i) kern p t := by
  have ht : t ∈ p0.free := h.free ▸ List.mem_cons_self
  have hnd : t ∉ p.free ∧ p.free.Nodup := List.nodup_cons.1 (h.free ▸ hnodup)
  have hsub : ∀ {f}, f ∈ p.free → f ∈ p0.free := fun hf => h.free ▸ List.mem_cons_of_mem _ hf
  exact
    { root := hframe t ht
      freeFrame := fun f hf => hframe f (hsub hf)
      freeNodup := hnd.2
      unfree := fun P g hP hg hf => by
        rcases h.reach_cases hframe hK hP hg with ⟨-, rfl⟩ | ⟨hk, hne, hlen, hg'⟩
        · exact hnd.1 hf
        · exact hK.unfree P g hk hne hlen hg' (hsub hf)
      apart := fun P Q g hP hQ hg hg' => by
        have hP0 : P = [] := by
          by_contra hne
          rw [h.reach_own hP.1 hne] at hg
          cases hg
        subst hP0
        obtain rfl := Option.some.inj hg
        rcases h.reach_cases hframe hK hQ hg' with ⟨rfl, -⟩ | ⟨hk, hne, hlen, hgk⟩
        · rfl
        · exact absurd ht (hK.unfree Q t hk hne hlen hgk)
      unused := fun i P g hP hlen hg => by
        rcases h.reach_cases hframe hK hP.tail hg with ⟨rfl, rfl⟩ | ⟨hk, hne, hlen', hgk⟩
        · by_cases hs : Shared p0.mem cr3 i
          · rw [h.copy i hP.head hs]
            exact Or.inr hs.2.1
          · exact Or.inl (h.unused i hP.head hs)
        · have hgt : g ≠ t := fun he => hK.unfree P g hk hne hlen' hgk (he ▸ ht)
          have he : entry p.mem g i = entry p0.mem g i := entry_congr hP.head fun x hx =>
            h.outside x fun hx' => hgt
              ((reach_isFrame (hframe t ht) hg).eq_of_inFrame (hframe t ht) hx hx')
          rw [he]
          refine hK.unused i P g ⟨hP.1.1, fun j hj => ?_⟩ hne hlen hgk
          obtain ⟨j', P', rfl⟩ := List.exists_cons_of_ne_nil hne
          exact hk.2 j (by rwa [List.getLast?_cons_cons] at hj)
      small := fun i P g hP _ hg => by
        have hP0 : P = [] := by
          by_contra hne
          rw [h.reach_own hP.tail.1 hne] at hg
          cases hg
        subst hP0
        obtain rfl := Option.some.inj hg
        rw [h.unused i hP.head (hP.1.2 i rfl)]
        rfl }

omit hframe

theorem root_free : t ∈ p0.free := h.free ▸ List.mem_cons_self

/-- What a new space owns was free. -/
theorem own_free {P : List Nat} {g : Nat} (hP : Own (fun i => ¬ Shared p0.mem cr3 i) P)
    (hg : reach p.mem t P = some g) : g ∈ p0.free := by
  by_cases hne : P = []
  · subst hne
    exact Option.some.inj hg ▸ h.root_free
  · rw [h.reach_own hP.1 hne] at hg
    cases hg

theorem leaf_own {P : List Nat} (hP : Own (fun i => ¬ Shared p0.mem cr3 i) P)
    (h4 : P.length = 4) : leaf p.mem t P = none := by
  cases hleaf : leaf p.mem t P with
  | none => rfl
  | some e =>
    have hne : P ≠ [] := fun h => by simp [h] at h4
    have := (h.reach_own hP.1 hne).symm.trans (reach_of_leaf h4 hleaf)
    cases this

/-- A new space is written to its root, which was free. -/
theorem within_free {own : Nat → Prop} (htree : Tree own kern p t) : Within p0 p where
  free := h.free ▸ List.suffix_cons t _
  mem := fun x => by
    by_cases hx : InFrame t x
    · exact Or.inr ⟨t, h.root_free, htree.unfree [] t Held.nil rfl, hx⟩
    · exact Or.inl (h.outside x hx)

end NewSpace

end Specs

end AeroOS.Memory
