import AeroOS.Memory.PageTable

/-!
# Fork copies the user memory

`clone_user_space` of `memory/page_table.rs` walks the four levels of the
parent's tables and gives every page for the user a frame of its own.

* `UserLeaf`: the entry with which a space maps a page for the user.
* `Copied` is the invariant of the four nested loops: the pages behind the loops
  are in the child with the flags and the bytes that they have in the parent.
  Each loop adds the paths of its own table (`clonePt_spec` up to
  `clonePml4_spec`).
* `cloneUserSpace_copies`: what the child maps, and that a write through one
  space is not seen through the other.
-/

namespace AeroOS.Memory

open AeroOS.Bytes AeroOS.Hoare AeroOS.Paging

/-- The PML4 entry `i` is present and for the user. -/
def UserTop (m : Store) (pml4 i : Nat) : Prop :=
  present (entry m pml4 i) = true ∧ user (entry m pml4 i) = true

instance (m : Store) (pml4 i : Nat) : Decidable (UserTop m pml4 i) :=
  inferInstanceAs (Decidable (_ ∧ _))

/-- The space maps the page of the path for the user, with the entry `e`. -/
def UserLeaf (m : Store) (pml4 : Nat) (P : List Nat) (e : Nat) : Prop :=
  leaf m pml4 P = some e ∧ user e = true ∧ ∀ i, P.getLast? = some i → UserTop m pml4 i

/-- A space that can be forked while `cr3` is active: no frame of its user part
is free, and its user entries are not the shared entries of the kernel. -/
structure Forkable (cr3 pml4 : Nat) (p : Phys) : Prop where
  freeFrame : ∀ f ∈ p.free, IsFrame f
  freeNodup : p.free.Nodup
  cr3Frame : IsFrame cr3
  cr3Taken : cr3 ∉ p.free
  root : IsFrame pml4
  taken : ∀ P g, Route (UserTop p.mem pml4) P → P.length ≤ 4 → reach p.mem pml4 P = some g →
    g ∉ p.free
  apart : ∀ i, UserTop p.mem pml4 i → ¬ Shared p.mem cr3 i

/-- The running process can fork its own space. -/
theorem Forkable.self {pml4 : Nat} {p : Phys} (hframe : ∀ f ∈ p.free, IsFrame f)
    (hnodup : p.free.Nodup) (hroot : IsFrame pml4)
    (htaken : ∀ P g, Route (UserTop p.mem pml4) P → P.length ≤ 4 → reach p.mem pml4 P = some g →
      g ∉ p.free) : Forkable pml4 pml4 p where
  freeFrame := hframe
  freeNodup := hnodup
  cr3Frame := hroot
  cr3Taken := htaken [] pml4 Route.nil (by simp) rfl
  root := hroot
  taken := htaken
  apart := fun _ hu hs => Bool.noConfusion (hs.2.2.symm.trans hu.2)

variable {cr3 pml4 t : Nat} {p0 p p' : Phys}

/-- The child `t` has the pages of the paths `done` of the parent, and no others. -/
structure Copied (cr3 pml4 t : Nat) (p0 : Phys) (done : List Nat → Prop) (p : Phys) : Prop where
  tree : Tree (fun i => ¬ Shared p0.mem cr3 i) (fun _ => False) p t
  within : Within p0 p
  taken : ∀ P g, Own (fun i => ¬ Shared p0.mem cr3 i) P → reach p.mem t P = some g → g ∈ p0.free
  sound : ∀ P e, Own (fun i => ¬ Shared p0.mem cr3 i) P → P.length = 4 →
    leaf p.mem t P = some e → done P ∧ ∃ e0, UserLeaf p0.mem pml4 P e0 ∧ flags e = flags e0 ∧
      ∀ k, k < 4096 → p.mem (addr e + k) = p0.mem (addr e0 + k)
  complete : ∀ P e0, Route (UserTop p0.mem pml4) P → P.length = 4 → done P →
    UserLeaf p0.mem pml4 P e0 → ∃ e, leaf p.mem t P = some e

namespace Copied

variable {done done' : List Nat → Prop} {P : List Nat}

/-- A path that the parent does not map for the user is passed over. -/
theorem skip (h : Copied cr3 pml4 t p0 done p) (hmono : ∀ P, done P → done' P)
    (hnew : ∀ P e0, done' P → UserLeaf p0.mem pml4 P e0 → done P) :
    Copied cr3 pml4 t p0 done' p :=
  { h with
    sound := fun P e hP h4 he => by
      obtain ⟨hd, hs⟩ := h.sound P e hP h4 he
      exact ⟨hmono P hd, hs⟩
    complete := fun P e0 hP h4 hd hu => h.complete P e0 hP h4 (hnew P e0 hd hu) hu }

/-- A user path of the parent is an owned path of the child. -/
theorem own (hfork : Forkable cr3 pml4 p0) (hP : Route (UserTop p0.mem pml4) P)
    (h4 : P.length ≤ 4) : Own (fun i => ¬ Shared p0.mem cr3 i) P :=
  ⟨hP.mono hfork.apart, h4⟩

/-- The page of one path is added and filled. -/
theorem add (hfork : Forkable cr3 pml4 p0) (h : Copied cr3 pml4 t p0 done p) {page f e0 : Nat}
    (hadd : PageAdded (fun i => ¬ Shared p0.mem cr3 i) (fun _ => False) t page f (flags e0) p p')
    (hroute : Route (UserTop p0.mem pml4) (path page))
    (hu : UserLeaf p0.mem pml4 (path page) e0) :
    Copied cr3 pml4 t p0 (fun P => done P ∨ P = path page)
      ⟨copyFrame p'.mem (addr e0) f, p'.free⟩ := by
  have hext := hadd.extended
  have hP : Own (fun i => ¬ Shared p0.mem cr3 i) (path page) := own hfork hroute le_rfl
  obtain ⟨hf, hf'⟩ := hadd.taken
  have hf0 : f ∈ p0.free := h.within.free.subset hf
  have hfr : IsFrame f := hfork.freeFrame f hf0
  obtain ⟨-, hleaf⟩ := hadd.leaf hP
  have hreach : reach p'.mem t (path page) = some f := by
    rw [reach_of_leaf rfl hleaf, addr_or hfr (isFlags_flags e0)]
  have hm : ∀ x, ¬ InFrame f x → copyFrame p'.mem (addr e0) f x = p'.mem x := fun x hx =>
    copyFrame_out _ _ hx
  have hleaf' : ∀ {Q}, Own (fun i => ¬ Shared p0.mem cr3 i) Q →
      leaf (copyFrame p'.mem (addr e0) f) t Q = leaf p'.mem t Q := fun hQ =>
    hext.tree.page_leaf hP rfl hreach hm hQ
  have hwithin : Within p0 p' := h.within.extended hext fun Q g hQ _ hg =>
    ⟨h.taken Q g hQ.owned hg, h.tree.unfree Q g hQ hg⟩
  have hsrc : addr e0 ∉ p0.free :=
    hfork.taken (path page) _ hroute le_rfl (reach_of_leaf rfl hu.1)
  exact
    { tree := hext.tree.page_write hP rfl hreach hm
      within := hwithin.write hf0 hf' hm
      taken := fun Q g hQ hg => by
        have hg' : reach (copyFrame p'.mem (addr e0) f) t Q = some g := hg
        rw [hext.tree.page_reach hP rfl hreach hm hQ.held] at hg'
        rcases hext.new Q g hQ.held hg' with hg'' | ⟨hg'', -⟩ | ⟨rfl, -⟩
        · exact h.taken Q g hQ hg''
        · exact h.within.free.subset hg''
        · exact hf0
      sound := fun Q e hQ h4 he => by
        have he' := (hleaf' hQ).symm.trans he
        by_cases hQP : Q = path page
        · subst hQP
          obtain rfl := Option.some.inj (hleaf.symm.trans he')
          refine ⟨Or.inr rfl, e0, hu, ?_, fun k hk => ?_⟩
          · exact flags_or hfr (isFlags_flags e0)
          · have hx : InFrame f (f + k) := ⟨Nat.le_add_right .., by omega⟩
            rw [addr_or hfr (isFlags_flags e0)]
            show copyFrame p'.mem (addr e0) f (f + k) = _
            rw [copyFrame_in _ _ hx, Nat.add_sub_cancel_left]
            exact hwithin.eq_of_not_free hfork.freeFrame (isFrame_addr e0) hsrc
              ⟨Nat.le_add_right .., by omega⟩
        · rw [hext.leaf Q hQ h4 hQP] at he'
          obtain ⟨hd, e1, hu1, hfl, hbytes⟩ := h.sound Q e hQ h4 he'
          refine ⟨Or.inl hd, e1, hu1, hfl, fun k hk => ?_⟩
          have hg := reach_of_leaf h4 he'
          have hx : InFrame (addr e) (addr e + k) := ⟨Nat.le_add_right .., by omega⟩
          have hne : ¬ InFrame f (addr e + k) := fun hx' =>
            h.tree.unfree Q _ hQ.held hg ((isFrame_addr e).eq_of_inFrame hfr hx hx' ▸ hf)
          show copyFrame p'.mem (addr e0) f (addr e + k) = _
          rw [hm _ hne, hext.page h.tree hQ h4 hg hx, hbytes k hk]
      complete := fun Q e1 hQ h4 hd hu1 => by
        have hQ' := own hfork hQ (Nat.le_of_eq h4)
        show ∃ e, leaf (copyFrame p'.mem (addr e0) f) t Q = some e
        rw [hleaf' hQ']
        by_cases hQP : Q = path page
        · exact ⟨_, hQP ▸ hleaf⟩
        · obtain ⟨e, he⟩ := h.complete Q e1 hQ h4 (hd.resolve_right hQP) hu1
          exact ⟨e, (hext.leaf Q hQ' h4 hQP).trans he⟩ }

theorem congr (h : Copied cr3 pml4 t p0 done p) (hiff : ∀ P, done P ↔ done' P) :
    Copied cr3 pml4 t p0 done' p :=
  h.skip (fun P => (hiff P).1) fun P _ hP _ => (hiff P).2 hP

/-- A loop over a table: the turn `j` adds the paths `new j`. -/
theorem loop {body : Nat → Kernel Unit} {new : Nat → List Nat → Prop}
    (hbody : ∀ done j, j < 512 → Triple (Copied cr3 pml4 t p0 done) (body j)
      (fun _ => Copied cr3 pml4 t p0 fun P => done P ∨ new j P) (Within p0))
    (done : List Nat → Prop) :
    Triple (Copied cr3 pml4 t p0 done) ((List.range 512).forM body)
      (fun _ => Copied cr3 pml4 t p0 fun P => done P ∨ ∃ j, j < 512 ∧ new j P) (Within p0) := by
  refine (Triple.forM (I := fun js => Copied cr3 pml4 t p0 fun P => done P ∨ ∃ j ∈ js, new j P)
    fun js j rest hl => ?_).conseq (fun p hp => hp.congr fun P => by simp)
    (fun _ p hp => hp.congr fun P => by simp) fun _ => id
  have hj : j < 512 := List.mem_range.1 (hl ▸ List.mem_append_right _ List.mem_cons_self)
  exact (hbody _ j hj).post fun _ p hp => hp.congr fun P => by simp [or_assoc, or_and_right, exists_or]

end Copied

/-! ## The loops -/

/-- The indices of an address that is put together from them. -/
theorem path_compose {i1 i2 i3 i4 : Nat} (h1 : i1 < 512) (h2 : i2 < 512) (h3 : i3 < 512)
    (h4 : i4 < 512) :
    path (pageOf (i4 <<< 39 ||| i3 <<< 30 ||| i2 <<< 21 ||| i1 <<< 12)) = [i1, i2, i3, i4] := by
  have hstep : ∀ a b k, b < 512 → a <<< (k + 9) ||| b <<< k = (a * 512 + b) <<< k := by
    intro a b k hb
    have hlt : b <<< k < 2 ^ (k + 9) := by
      rw [Nat.shiftLeft_eq, Nat.pow_add, Nat.mul_comm]
      exact Nat.mul_lt_mul_of_pos_left hb (Nat.two_pow_pos k)
    rw [← Nat.shiftLeft_add_eq_or_of_lt hlt]
    simp only [Nat.shiftLeft_eq, Nat.pow_add]
    ring
  rw [path_pageOf, hstep i4 i3 30 h3, hstep _ i2 21 h2, hstep _ i1 12 h1, path_eq,
    Nat.shiftLeft_eq]
  congr 1
  · omega
  congr 1
  · omega
  congr 1
  · omega
  congr 1
  omega

section Loops

variable {mapTo : MapTo} {i2 i3 i4 g : Nat}

theorem clonePt_spec (hmap : FollowsWalk mapTo) (hfork : Forkable cr3 pml4 p0)
    (htop : UserTop p0.mem pml4 i4) (hlt : ∀ i ∈ [i2, i3, i4], i < 512)
    (hg : reach p0.mem pml4 [i2, i3, i4] = some g) (done : List Nat → Prop) :
    Triple (Copied cr3 pml4 t p0 done) (AddressSpace.clonePt mapTo t i4 i3 i2 g)
      (fun _ => Copied cr3 pml4 t p0 fun P => done P ∨ ∃ i1, i1 < 512 ∧ P = [i1, i2, i3, i4])
      (Within p0) := by
  refine Copied.loop (fun done i1 hi1 => Triple.get_bind fun p hp => ?_) done
  have hroute : Route (UserTop p0.mem pml4) [i1, i2, i3, i4] :=
    ⟨by simpa [hi1] using hlt, fun i hi => Option.some.inj hi ▸ htop⟩
  have hgout : g ∉ p0.free := hfork.taken _ g (hroute.suffix (List.suffix_cons ..)) (by simp) hg
  have he : entry p.mem g i1 = entry p0.mem g i1 :=
    hp.within.entry hfork.freeFrame (reach_isFrame hfork.root hg) hgout hi1
  rw [he]
  refine Triple.ite (fun hno => Triple.pure fun _ hs => hs ▸ hp.skip (fun _ => Or.inl) ?_)
    fun hyes => ?_
  · rintro _ e0 (hd | rfl) hu
    · exact hd
    · obtain ⟨g', hg', hp1, rfl⟩ := leaf_cons.1 hu.1
      obtain rfl := Option.some.inj (hg.symm.trans hg')
      exact (hno.elim (fun h => h hp1) fun h => h hu.2.1).elim
  have hl1 : present (entry p0.mem g i1) = true ∧ user (entry p0.mem g i1) = true := by
    simpa [not_or] using hyes
  have hu : UserLeaf p0.mem pml4 [i1, i2, i3, i4] (entry p0.mem g i1) :=
    ⟨leaf_cons.2 ⟨g, hg, hl1.1, rfl⟩, hl1.2, hroute.2⟩
  have hpath := path_compose hi1 (hlt i2 (by simp)) (hlt i3 (by simp)) (hlt i4 (by simp))
  have hown : Route (fun i => ¬ Shared p0.mem cr3 i ∨ False)
      (path (pageOf (i4 <<< 39 ||| i3 <<< 30 ||| i2 <<< 21 ||| i1 <<< 12))) :=
    hpath ▸ hroute.mono fun i hi => Or.inl (hfork.apart i hi)
  refine Triple.bind (R := fun a s =>
    a = i4 <<< 39 ||| i3 <<< 30 ||| i2 <<< 21 ||| i1 <<< 12 ∧ s = p)
    (Triple.ite (fun _ => Triple.pure fun s hs => ⟨rfl, hs⟩)
      fun _ => Triple.throw fun s hs => hs ▸ hp.within) fun a => ?_
  rintro s ⟨rfl, rfl⟩
  refine ((mapUserPageAlloc_spec hmap (isFlags_flags _) ((present_flags _).trans hl1.1) hp.tree
    hown).conseq (fun _ => id) (fun _ _ => id) ?_).bind (fun f => Triple.update fun p' hadd => ?_) s rfl
  · rintro p' ⟨f, hext⟩
    exact hp.within.extended hext fun Q k hQ _ hk =>
      ⟨hp.taken Q k hQ.owned hk, hp.tree.unfree Q k hQ hk⟩
  · rw [← hpath] at hroute hu
    refine (hp.add hfork hadd hroute hu).congr fun P => ?_
    rw [hpath]

/-- A path of the parent that goes through an entry of a table. -/
theorem UserLeaf.present_of {R P : List Nat} {i e0 : Nat} {m : Store} (hg : reach m pml4 P = some g)
    (hR : R ≠ []) (hu : UserLeaf m pml4 (R ++ i :: P) e0) : present (entry m g i) = true := by
  obtain ⟨j, R, rfl⟩ := List.exists_cons_of_ne_nil hR
  obtain ⟨k, hk, -⟩ := leaf_cons.1 hu.1
  clear hu hR
  induction R generalizing k with
  | nil =>
    obtain ⟨g', hg', hp, -⟩ := reach_cons.1 hk
    exact Option.some.inj (hg.symm.trans hg') ▸ hp
  | cons j' R ih =>
    obtain ⟨k', hk', -⟩ := reach_cons.1 hk
    exact ih k' hk'

theorem clonePd_spec (hmap : FollowsWalk mapTo) (hfork : Forkable cr3 pml4 p0)
    (htop : UserTop p0.mem pml4 i4) (hlt : ∀ i ∈ [i3, i4], i < 512)
    (hg : reach p0.mem pml4 [i3, i4] = some g) (done : List Nat → Prop) :
    Triple (Copied cr3 pml4 t p0 done) (AddressSpace.clonePd mapTo t i4 i3 g)
      (fun _ => Copied cr3 pml4 t p0 fun P => done P ∨
        ∃ i2, i2 < 512 ∧ ∃ i1, i1 < 512 ∧ P = [i1, i2, i3, i4]) (Within p0) := by
  refine Copied.loop (fun done i2 hi2 => Triple.get_bind fun p hp => ?_) done
  have hroute : Route (UserTop p0.mem pml4) [i3, i4] :=
    ⟨hlt, fun i hi => Option.some.inj hi ▸ htop⟩
  have he : entry p.mem g i2 = entry p0.mem g i2 := hp.within.entry hfork.freeFrame
    (reach_isFrame hfork.root hg) (hfork.taken _ g hroute (by simp) hg) hi2
  rw [he]
  refine Triple.ite (fun hno => Triple.pure fun _ hs => hs ▸ hp.skip (fun _ => Or.inl) ?_)
    fun hp2 => Triple.ite (fun _ => Triple.throw fun _ hs => hs ▸ hp.within) fun hh => ?_
  · rintro _ e0 (hd | ⟨i1, -, rfl⟩) hu
    · exact hd
    · exact absurd (UserLeaf.present_of (R := [i1]) hg (by simp) hu) hno
  · have hg2 : reach p0.mem pml4 [i2, i3, i4] = some (addr (entry p0.mem g i2)) :=
      reach_cons.2 ⟨g, hg, not_not.1 hp2, fun h => absurd h hh, rfl⟩
    exact (clonePt_spec hmap hfork htop (by simpa [hi2] using hlt) hg2 done).pre
      fun _ hs => hs ▸ hp

theorem clonePdpt_spec (hmap : FollowsWalk mapTo) (hfork : Forkable cr3 pml4 p0)
    (htop : UserTop p0.mem pml4 i4) (hlt : i4 < 512)
    (hg : reach p0.mem pml4 [i4] = some g) (done : List Nat → Prop) :
    Triple (Copied cr3 pml4 t p0 done) (AddressSpace.clonePdpt mapTo t i4 g)
      (fun _ => Copied cr3 pml4 t p0 fun P => done P ∨ ∃ i3, i3 < 512 ∧
        ∃ i2, i2 < 512 ∧ ∃ i1, i1 < 512 ∧ P = [i1, i2, i3, i4]) (Within p0) := by
  refine Copied.loop (fun done i3 hi3 => Triple.get_bind fun p hp => ?_) done
  have hroute : Route (UserTop p0.mem pml4) [i4] :=
    ⟨by simpa using hlt, fun i hi => Option.some.inj hi ▸ htop⟩
  have he : entry p.mem g i3 = entry p0.mem g i3 := hp.within.entry hfork.freeFrame
    (reach_isFrame hfork.root hg) (hfork.taken _ g hroute (by simp) hg) hi3
  rw [he]
  refine Triple.ite (fun hno => Triple.pure fun _ hs => hs ▸ hp.skip (fun _ => Or.inl) ?_)
    fun hp3 => Triple.ite (fun _ => Triple.throw fun _ hs => hs ▸ hp.within) fun hh => ?_
  · rintro _ e0 (hd | ⟨i2, -, i1, -, rfl⟩) hu
    · exact hd
    · exact absurd (UserLeaf.present_of (R := [i1, i2]) hg (by simp) hu) hno
  · have hg3 : reach p0.mem pml4 [i3, i4] = some (addr (entry p0.mem g i3)) :=
      reach_cons.2 ⟨g, hg, not_not.1 hp3, fun h => absurd h hh, rfl⟩
    exact (clonePd_spec hmap hfork htop (by simp [hi3, hlt]) hg3 done).pre fun _ hs => hs ▸ hp

theorem clonePml4_spec (hmap : FollowsWalk mapTo) (hfork : Forkable cr3 pml4 p0)
    (done : List Nat → Prop) :
    Triple (Copied cr3 pml4 t p0 done) (AddressSpace.clonePml4 mapTo t pml4)
      (fun _ => Copied cr3 pml4 t p0 fun P => done P ∨ ∃ i4, i4 < 512 ∧ ∃ i3, i3 < 512 ∧
        ∃ i2, i2 < 512 ∧ ∃ i1, i1 < 512 ∧ P = [i1, i2, i3, i4]) (Within p0) := by
  refine Copied.loop (fun done i4 hi4 => Triple.get_bind fun p hp => ?_) done
  have he : entry p.mem pml4 i4 = entry p0.mem pml4 i4 := hp.within.entry hfork.freeFrame
    hfork.root (hfork.taken [] pml4 Route.nil (by simp) rfl) hi4
  have hskip : ¬ UserTop p0.mem pml4 i4 → Copied cr3 pml4 t p0 (fun P => done P ∨ ∃ i3, i3 < 512 ∧
      ∃ i2, i2 < 512 ∧ ∃ i1, i1 < 512 ∧ P = [i1, i2, i3, i4]) p := fun hno => by
    refine hp.skip (fun _ => Or.inl) ?_
    rintro _ e0 (hd | ⟨i3, -, i2, -, i1, -, rfl⟩) hu
    · exact hd
    · exact absurd (hu.2.2 i4 rfl) hno
  rw [he]
  refine Triple.ite (fun hno => Triple.pure fun _ hs => hs ▸ hskip fun h => hno h.1) fun hp4 =>
    Triple.ite (fun hno => Triple.pure fun _ hs => hs ▸ hskip fun h => hno h.2) fun hu4 =>
    Triple.ite (fun _ => Triple.throw fun _ hs => hs ▸ hp.within) fun hh => ?_
  have hg4 : reach p0.mem pml4 [i4] = some (addr (entry p0.mem pml4 i4)) :=
    reach_cons.2 ⟨pml4, rfl, not_not.1 hp4, fun h => absurd h hh, rfl⟩
  exact (clonePdpt_spec hmap hfork ⟨not_not.1 hp4, not_not.1 hu4⟩ hi4 hg4 done).pre
    fun _ hs => hs ▸ hp

end Loops

/-- `clone_user_space` copies the pages that the parent maps for the user. -/
theorem cloneUserSpace_spec {mapTo : MapTo} (hmap : FollowsWalk mapTo)
    (hfork : Forkable cr3 pml4 p0) :
    Triple (· = p0) (AddressSpace.cloneUserSpace mapTo cr3 pml4)
      (fun t => Copied cr3 pml4 t p0 fun P => P.length = 4 ∧ ∀ i ∈ P, i < 512) (Within p0) := by
  refine ((newUser_spec hfork.freeFrame hfork.cr3Frame hfork.cr3Taken).conseq (fun _ => id)
    (fun _ _ => id) fun _ hs => hs ▸ Within.refl p0).bind fun t => ?_
  have hstart : ∀ p, NewSpace (Shared p0.mem cr3) cr3 t p0 p →
      Copied cr3 pml4 t p0 (fun _ => False) p := fun p hnew => by
    have htree := hnew.tree hfork.freeFrame hfork.freeNodup (KernelTables.none cr3 p0)
    exact
      { tree := htree
        within := hnew.within_free htree
        taken := fun P g hP hg => hnew.own_free hP hg
        sound := fun P e hP h4 he => by
          rw [hnew.leaf_own hP h4] at he
          cases he
        complete := fun P e0 _ _ hd _ => hd.elim }
  refine Triple.bind ((clonePml4_spec hmap hfork fun _ => False).pre hstart) fun _ =>
    Triple.pure fun p hp => hp.congr fun P => ?_
  simp only [false_or]
  constructor
  · rintro ⟨i4, h4, i3, h3, i2, h2, i1, h1, rfl⟩
    simp [h1, h2, h3, h4]
  · rintro ⟨hlen, hlt⟩
    obtain ⟨i1, i2, i3, i4, rfl⟩ := List.length_eq_four.1 hlen
    simp only [List.mem_cons, List.not_mem_nil, or_false, forall_eq_or_imp, forall_eq] at hlt
    exact ⟨i4, hlt.2.2.2, i3, hlt.2.2.1, i2, hlt.2.1, i1, hlt.1, rfl⟩

/-! ## What the two spaces show -/

/-- The entry that maps the page of a virtual address for the user, where the
PML4 entry and the entry of the page are for the user. -/
def userLeaf (m : Store) (pml4 vaddr : Nat) : Option Nat :=
  if UserTop m pml4 (vaddr / 2 ^ 39 % 512) then (leaf m pml4 (path vaddr)).filter fun e => user e
  else none

/-- The byte that the user sees at a virtual address. -/
def userByte (m : Store) (pml4 vaddr : Nat) : Option UInt8 :=
  (userLeaf m pml4 vaddr).map fun e => m (addr e + vaddr % 4096)

theorem userLeaf_eq_some {m : Store} {v e : Nat} :
    userLeaf m pml4 v = some e ↔ UserLeaf m pml4 (path v) e := by
  have hlast : (path v).getLast? = some (v / 2 ^ 39 % 512) := by rw [path_eq]; rfl
  unfold userLeaf UserLeaf
  rw [hlast]
  generalize v / 2 ^ 39 % 512 = i4
  split
  · rename_i h
    simp [Option.filter_eq_some_iff, h]
  · rename_i h
    simp [h]

section Views

variable {m : Store} (hfork : Forkable cr3 pml4 p0)
  (hm : ∀ g x, IsFrame g → g ∉ p0.free → InFrame g x → m x = p0.mem x)
include hfork hm

/-- The entries of the parent's tables are what the taken frames hold. -/
theorem Forkable.entry_eq {P : List Nat} {g i : Nat} (hP : Route (UserTop p0.mem pml4) P)
    (hlen : P.length ≤ 4) (hg : reach p0.mem pml4 P = some g) (hi : i < 512) :
    entry m g i = entry p0.mem g i :=
  entry_congr hi fun x hx =>
    hm g x (reach_isFrame hfork.root hg) (hfork.taken P g hP hlen hg) hx

theorem Forkable.reach_eq {P : List Nat} (hP : Route (UserTop p0.mem pml4) P)
    (hlen : P.length ≤ 4) : reach m pml4 P = reach p0.mem pml4 P := by
  induction P with
  | nil => rfl
  | cons i P ih =>
    have hP' := hP.suffix (List.suffix_cons i P)
    rw [reach_bind m, reach_bind p0.mem, ih hP' (Nat.le_of_succ_le hlen)]
    cases hg : reach p0.mem pml4 P with
    | none => rfl
    | some g =>
      simp only [Option.bind_some,
        hfork.entry_eq hm hP' (Nat.le_of_succ_le hlen) hg (hP.1 i List.mem_cons_self)]

/-- What the parent maps for the user is in taken frames. -/
theorem Forkable.userLeaf_eq (v : Nat) : userLeaf m pml4 v = userLeaf p0.mem pml4 v := by
  have htop : UserTop m pml4 (v / 2 ^ 39 % 512) ↔ UserTop p0.mem pml4 (v / 2 ^ 39 % 512) := by
    have he := hfork.entry_eq hm Route.nil (by simp) (rfl : reach p0.mem pml4 [] = some pml4)
      (i := v / 2 ^ 39 % 512) (Nat.mod_lt _ (by decide))
    rw [UserTop, UserTop, he]
  unfold userLeaf
  by_cases h : UserTop p0.mem pml4 (v / 2 ^ 39 % 512)
  · have hroute := path_route v h
    rw [if_pos (htop.2 h), if_pos h]
    congr 1
    rw [path_eq] at hroute ⊢
    have hroute' := hroute.suffix (List.suffix_cons ..)
    rw [leaf, leaf, hfork.reach_eq hm hroute' (by simp)]
    cases hg : reach p0.mem pml4 [v / 2 ^ 21 % 512, v / 2 ^ 30 % 512, v / 2 ^ 39 % 512] with
    | none => rfl
    | some g =>
      simp only [hfork.entry_eq hm hroute' (by simp) hg (hroute.1 _ List.mem_cons_self)]
  · rw [if_neg (mt htop.1 h), if_neg h]

/-- The user of the parent sees what the taken frames hold. -/
theorem Forkable.userByte_eq (v : Nat) : userByte m pml4 v = userByte p0.mem pml4 v := by
  unfold userByte
  rw [hfork.userLeaf_eq hm v]
  cases he : userLeaf p0.mem pml4 v with
  | none => rfl
  | some e =>
    have hu := userLeaf_eq_some.1 he
    have hroute : Route (UserTop p0.mem pml4) (path v) := path_route _ (hu.2.2 _ (by rw [path_eq]; rfl))
    have hout := hfork.taken _ _ hroute le_rfl (reach_of_leaf rfl hu.1)
    have hlt : v % 4096 < 4096 := Nat.mod_lt _ (by decide)
    simp only [Option.map_some,
      hm (addr e) (addr e + v % 4096) (isFrame_addr e) hout ⟨Nat.le_add_right .., by omega⟩]

end Views

/-- The child's tables and pages are in frames that were free before the call,
which a write to the frames taken before leaves alone. -/
theorem Copied.translate_eq {done : List Nat → Prop} (h : Copied cr3 pml4 t p0 done p)
    {m : Store}
    (hm : ∀ f x, f ∈ p0.free → InFrame f x → m x = p.mem x) {v : Nat}
    (hv : ¬ Shared p0.mem cr3 (v / 2 ^ 39 % 512)) :
    AddressSpace.translate m t v = AddressSpace.translate p.mem t v ∧
      (AddressSpace.translate m t v).map m = (AddressSpace.translate p.mem t v).map p.mem := by
  have hentry : ∀ P g i, Held (fun i => ¬ Shared p0.mem cr3 i) (fun _ => False) (i :: P) →
      reach p.mem t P = some g → entry m g i = entry p.mem g i := fun P g i hP hg =>
    entry_congr hP.head fun x hx => hm g x (h.taken P g hP.tail.owned hg) hx
  have hown : Own (fun i => ¬ Shared p0.mem cr3 i) (path v) := path_own v hv
  have hleaf : leaf m t (path v) = leaf p.mem t (path v) := by
    rw [path_eq] at hown ⊢
    rw [leaf, leaf, Tree.reach_congr hentry hown.held.tail]
    cases hg : reach p.mem t [v / 2 ^ 21 % 512, v / 2 ^ 30 % 512, v / 2 ^ 39 % 512] with
    | none => rfl
    | some g => simp only [hentry _ g _ hown.held hg]
  have htree : Tree (fun i => ¬ Shared p0.mem cr3 i) (fun _ => False) ⟨m, p.free⟩ t :=
    h.tree.congr List.suffix_rfl hentry
  have htrans : AddressSpace.translate m t v = AddressSpace.translate p.mem t v := by
    rw [Memory.translate_eq htree hv, Memory.translate_eq h.tree hv]
    exact congrArg _ hleaf
  refine ⟨htrans, ?_⟩
  rw [htrans, Memory.translate_eq h.tree hv]
  cases he : leaf p.mem t (path v) with
  | none => rfl
  | some e =>
    have hf := h.taken (path v) _ hown (reach_of_leaf rfl he)
    have hlt : v % 4096 < 4096 := Nat.mod_lt _ (by decide)
    simp only [Option.map_some, hm (addr e) (addr e + v % 4096) hf ⟨Nat.le_add_right .., by omega⟩]

/-- The child of a fork maps an address exactly where the parent maps it for the
user, with the flags and the bytes of the parent, in frames that were free and
that no two pages share.  What is written through one of the two spaces later is
not seen through the other. -/
theorem cloneUserSpace_copies {mapTo : MapTo} (hmap : FollowsWalk mapTo) {child : Nat}
    (hfork : Forkable cr3 pml4 p0)
    (hok : exec (AddressSpace.cloneUserSpace mapTo cr3 pml4) p0 = (.ok child, p)) :
    (∀ v, ¬ Shared p0.mem cr3 (v / 2 ^ 39 % 512) →
      ((AddressSpace.translate p.mem child v).isSome ↔ (userLeaf p0.mem pml4 v).isSome)) ∧
    (∀ v e0, userLeaf p0.mem pml4 v = some e0 → ∃ e, leaf p.mem child (path v) = some e ∧
      AddressSpace.translate p.mem child v = some (addr e + v % 4096) ∧ flags e = flags e0 ∧
      ∀ k, k < 4096 → p.mem (addr e + k) = p0.mem (addr e0 + k)) ∧
    (∀ P f, Own (fun i => ¬ Shared p0.mem cr3 i) P → reach p.mem child P = some f →
      f ∈ p0.free) ∧
    (∀ P Q f, Own (fun i => ¬ Shared p0.mem cr3 i) P → Own (fun i => ¬ Shared p0.mem cr3 i) Q →
      reach p.mem child P = some f → reach p.mem child Q = some f → P = Q) ∧
    (∀ v, userByte p.mem pml4 v = userByte p0.mem pml4 v) ∧
    (∀ m, (∀ x, m x ≠ p.mem x → ∃ v, ¬ Shared p0.mem cr3 (v / 2 ^ 39 % 512) ∧
        AddressSpace.translate p.mem child v = some x) →
      ∀ w, userByte m pml4 w = userByte p.mem pml4 w) ∧
    (∀ m, (∀ x, m x ≠ p.mem x → ∃ v e, userLeaf p.mem pml4 v = some e ∧ x = addr e + v % 4096) →
      ∀ w, ¬ Shared p0.mem cr3 (w / 2 ^ 39 % 512) →
        AddressSpace.translate m child w = AddressSpace.translate p.mem child w ∧
        (AddressSpace.translate m child w).map m =
          (AddressSpace.translate p.mem child w).map p.mem) := by
  have h := (cloneUserSpace_spec hmap hfork).ok rfl hok
  have hkeep : ∀ g x, IsFrame g → g ∉ p0.free → InFrame g x → p.mem x = p0.mem x :=
    fun g x hg hout hx => h.within.eq_of_not_free hfork.freeFrame hg hout hx
  have hmod : ∀ v, v % 4096 < 4096 := fun v => Nat.mod_lt _ (by decide)
  have hdone : ∀ v, (path v).length = 4 ∧ ∀ i ∈ path v, i < 512 := fun v =>
    ⟨rfl, path_lt v⟩
  have hpage : ∀ {v e0}, userLeaf p0.mem pml4 v = some e0 → ∃ e, leaf p.mem child (path v) = some e ∧
      AddressSpace.translate p.mem child v = some (addr e + v % 4096) ∧ flags e = flags e0 ∧
      ∀ k, k < 4096 → p.mem (addr e + k) = p0.mem (addr e0 + k) := by
    intro v e0 he0
    have hu := userLeaf_eq_some.1 he0
    have htop : UserTop p0.mem pml4 (v / 2 ^ 39 % 512) := hu.2.2 _ (by rw [path_eq]; rfl)
    have hv := hfork.apart _ htop
    obtain ⟨e, he⟩ := h.complete (path v) e0 (path_route v htop) rfl (hdone v) hu
    obtain ⟨-, e1, hu1, hfl, hbytes⟩ := h.sound (path v) e (path_own v hv) rfl he
    obtain rfl := Option.some.inj (hu.1.symm.trans hu1.1)
    refine ⟨e, he, ?_, hfl, hbytes⟩
    rw [translate_eq h.tree hv, he, Option.map_some]
  refine ⟨fun v hv => ?_, fun v e0 => hpage, h.taken,
    fun P Q f hP hQ hf hf' => h.tree.apart P Q f hP hQ.held hf hf',
    fun v => hfork.userByte_eq hkeep v, fun m hm w => ?_, fun m hm w hw => ?_⟩
  · rw [Option.isSome_iff_exists, Option.isSome_iff_exists, translate_eq h.tree hv]
    constructor
    · rintro ⟨a, ha⟩
      obtain ⟨e, he, -⟩ := Option.map_eq_some_iff.1 ha
      obtain ⟨-, e0, hu, -⟩ := h.sound (path v) e (path_own v hv) rfl he
      exact ⟨e0, userLeaf_eq_some.2 hu⟩
    · rintro ⟨e0, he0⟩
      obtain ⟨e, he, -⟩ := hpage he0
      exact ⟨_, by rw [he, Option.map_some]⟩
  · -- the pages of the child were free, the frames of the parent were not
    rw [hfork.userByte_eq (fun g x hg hout hx => ?_) w, hfork.userByte_eq hkeep w]
    by_contra hne
    obtain ⟨v, hv, htr⟩ := hm x fun he => hne (he.trans (hkeep g x hg hout hx))
    rw [translate_eq h.tree hv] at htr
    obtain ⟨e, he, rfl⟩ := Option.map_eq_some_iff.1 htr
    have hf := h.taken (path v) _ (path_own v hv) (reach_of_leaf rfl he)
    have hx' : InFrame (addr e) (addr e + v % 4096) := ⟨Nat.le_add_right .., by have := hmod v; omega⟩
    exact hout (hg.eq_of_inFrame (isFrame_addr e) hx hx' ▸ hf)
  · refine h.translate_eq (fun f x hf hx => ?_) hw
    by_contra hne
    obtain ⟨v, e, he, rfl⟩ := hm x hne
    rw [hfork.userLeaf_eq hkeep] at he
    have hu := userLeaf_eq_some.1 he
    have hout := hfork.taken _ _ (path_route _ (hu.2.2 _ (by rw [path_eq]; rfl))) le_rfl
      (reach_of_leaf rfl hu.1)
    have hx' : InFrame (addr e) (addr e + v % 4096) := ⟨Nat.le_add_right .., by have := hmod v; omega⟩
    exact hout ((hfork.freeFrame f hf).eq_of_inFrame (isFrame_addr e) hx hx' ▸ hf)

/-- Zeroed memory with twelve free frames. -/
def blank : Phys := ⟨fun _ => 0, (List.range 12).map fun i => 0x1000 * (i + 1)⟩

/-- An empty space in the first of them. -/
def emptySpace : Phys := ⟨fun _ => 0, (List.range 11).map fun i => 0x1000 * (i + 2)⟩

/-- The same space with a page at the end of the lower half. -/
def onePage : Phys :=
  (exec (AddressSpace.mapUserPageAlloc walkTo 0x1000 0x7ffffffff000 7) emptySpace).2

/-- Zeroed memory has no shared entries. -/
theorem blank_own (i : Nat) : ¬ Shared blank.mem 0 i := by
  rw [Shared, entry_of_zero fun _ _ => rfl]
  exact fun hs => Bool.noConfusion hs.2.1

theorem emptySpace_new : NewSpace (Shared blank.mem 0) 0 0x1000 blank emptySpace where
  free := by decide +kernel
  outside := fun _ _ => rfl
  copy := fun i _ hs => absurd hs (blank_own i)
  unused := fun i hi _ => entry_eq_zero hi fun _ _ => rfl

theorem onePage_added : PageAdded (fun i => ¬ Shared blank.mem 0 i) (fun _ => False) 0x1000
    0x7ffffffff000 0x2000 7 emptySpace onePage := by
  have hok : (exec (AddressSpace.mapUserPageAlloc walkTo 0x1000 0x7ffffffff000 7) emptySpace).1 =
      .ok 0x2000 := by decide +kernel
  have hframe : ∀ f ∈ blank.free, IsFrame f := by decide +kernel
  have hnodup : blank.free.Nodup := by decide +kernel
  have htree := emptySpace_new.tree hframe hnodup (KernelTables.none 0 _)
  have hroute : Route (fun i => ¬ Shared blank.mem 0 i ∨ False) (path 0x7ffffffff000) :=
    path_route _ (Or.inl (blank_own _))
  rw [onePage]
  exact (mapUserPageAlloc_spec walkTo_follows (by decide +kernel) (by decide +kernel) htree
    hroute).ok rfl (exec_of_fst hok)

theorem onePage_forkable : Forkable 0x1000 0x1000 onePage := by
  have htree := onePage_added.extended.tree
  refine .self htree.freeFrame htree.freeNodup htree.root fun P g hP hlen hg => ?_
  exact htree.unfree P g (Own.held ⟨hP.mono fun i _ => blank_own i, hlen⟩) hg

/-- The child of a space with one page. -/
theorem cloneUserSpace_copies_onePage : ∃ child p,
    exec (AddressSpace.cloneUserSpace walkTo 0x1000 0x1000) onePage = (.ok child, p) ∧
      (AddressSpace.translate p.mem child 0x7ffffffff123).isSome = true := by
  have hok : (exec (AddressSpace.cloneUserSpace walkTo 0x1000 0x1000) onePage).1 = .ok 0x6000 := by
    decide +kernel
  have h := cloneUserSpace_copies walkTo_follows onePage_forkable (exec_of_fst hok)
  refine ⟨_, _, exec_of_fst hok, (h.1 _ ?_).2 ?_⟩
  · decide +kernel
  · decide +kernel

end AeroOS.Memory
