import AeroOS.Memory.Image

/-!
# What an address space gives back

`dealloc_user` of `memory/page_table.rs` frees the pages and tables under the
first entry of the PML4, and the PML4.  The user stack is under entry 255.

* `exists_reach_of_mem_userFrames`: a frame that is freed is on a path under the
  first entry.
* `mem_free_deallocUser`: what is free afterwards.
* `not_conserved`: a load and `dealloc_user` together lose a frame of the stack,
  for every program.
-/

namespace AeroOS.Memory

open AeroOS.Bytes AeroOS.Hoare AeroOS.Paging

namespace AddressSpace

section

variable (m : Store)

/-- The innermost loop of `dealloc_user`, over a page table: its pages. -/
def ptFrames (pt : Nat) : List Nat :=
  (List.range 512).flatMap fun l1i =>
    if present (entry m pt l1i) then [addr (entry m pt l1i)] else []

/-- A loop of `dealloc_user` over a table of tables: what is below each of them,
and the table itself. -/
def tableFrames (below : Nat → List Nat) (table : Nat) : List Nat :=
  (List.range 512).flatMap fun i =>
    if ¬ present (entry m table i) then []
    else if huge (entry m table i) then []
    else below (addr (entry m table i)) ++ [addr (entry m table i)]

/-- The loop over a page directory. -/
def pdFrames (pd : Nat) : List Nat := tableFrames m (ptFrames m) pd

/-- The loop over a page directory pointer table. -/
def pdptFrames (pdpt : Nat) : List Nat := tableFrames m (pdFrames m) pdpt

/-- The frames that `dealloc_user` frees, in its order. -/
def userFrames (pml4 : Nat) : List Nat :=
  if ¬ present (entry m pml4 0) then [pml4]
  else pdptFrames m (addr (entry m pml4 0)) ++ [addr (entry m pml4 0), pml4]

end

/-- `dealloc_user`.  Freeing a frame does not write to it. -/
def deallocUser (p : Phys) (pml4 : Nat) : Phys := (userFrames p.mem pml4).foldl deallocFrame p

/-- `dealloc_proc_space`. -/
def deallocProcSpace (p : Phys) (cr3 : Nat) : Phys :=
  if cr3 = 0 then p else if cr3 % 4096 = 0 then deallocUser p cr3 else p

end AddressSpace

open AddressSpace

variable {m : Store} {t g f i : Nat} {P : List Nat} {p p' : Phys}

/-! ## Frames under an entry -/

/-- A frame on a path that goes on from `P`. -/
def Below (m : Store) (t : Nat) (P : List Nat) (f : Nat) : Prop :=
  ∃ Q, P <:+ Q ∧ (∀ i ∈ Q, i < 512) ∧ Q.length ≤ 4 ∧ reach m t Q = some f

theorem Below.here (hlt : ∀ i ∈ P, i < 512) (hlen : P.length ≤ 4) (hg : reach m t P = some g) :
    Below m t P g := ⟨P, List.suffix_rfl, hlt, hlen, hg⟩

theorem Below.of_cons (h : Below m t (i :: P) f) : Below m t P f := by
  obtain ⟨Q, hsuf, h⟩ := h
  exact ⟨Q, (List.suffix_cons i P).trans hsuf, h⟩

/-- A path that goes on from a path under the first entry. -/
theorem Below.own (h : Below m t P f) (hlast : P.getLast? = some 0) :
    ∃ Q, P <:+ Q ∧ Own (· = 0) Q ∧ reach m t Q = some f := by
  obtain ⟨Q, ⟨R, rfl⟩, hlt, hlen, hr⟩ := h
  refine ⟨R ++ P, List.suffix_append R P, ⟨⟨hlt, fun i hi => ?_⟩, hlen⟩, hr⟩
  rw [List.getLast?_append, hlast, Option.some_or] at hi
  exact (Option.some.inj hi).symm

section Entries

variable (hi : i < 512) (hlt : ∀ i ∈ P, i < 512) (hg : reach m t P = some g)
include hi hlt hg

/-- The page of an entry of a page table. -/
theorem below_of_mem_ptEntry (hlen : P.length = 3)
    (hf : f ∈ if present (entry m g i) then [addr (entry m g i)] else []) :
    Below m t (i :: P) f := by
  by_cases hp : present (entry m g i) = true
  · rw [if_pos hp] at hf
    obtain rfl := List.mem_singleton.1 hf
    have hr := reach_cons.2 ⟨g, hg, hp, fun _ => hlen, rfl⟩
    refine Below.here (List.forall_mem_cons.2 ⟨hi, hlt⟩) ?_ hr
    rw [List.length_cons, hlen]
  · rw [if_neg hp] at hf
    cases hf

/-- The table of an entry, and what is below it. -/
theorem below_of_mem_tableEntry {below : Nat → List Nat} (hlen : P.length < 4)
    (hbelow : ∀ k, reach m t (i :: P) = some k → f ∈ below k → ∃ j, Below m t (j :: i :: P) f)
    (hf : f ∈ if ¬ present (entry m g i) then []
      else if huge (entry m g i) then []
      else below (addr (entry m g i)) ++ [addr (entry m g i)]) : Below m t (i :: P) f := by
  by_cases hp : present (entry m g i) = true
  · rw [if_neg (not_not.2 hp)] at hf
    by_cases hh : huge (entry m g i) = true
    · rw [if_pos hh] at hf
      cases hf
    · rw [if_neg hh] at hf
      have hr := reach_cons.2 ⟨g, hg, hp, fun h => absurd h hh, rfl⟩
      rcases List.mem_append.1 hf with hf | hf
      · obtain ⟨j, hj⟩ := hbelow _ hr hf
        exact hj.of_cons
      · rw [List.mem_singleton.1 hf]
        exact Below.here (List.forall_mem_cons.2 ⟨hi, hlt⟩) hlen hr
  · rw [if_pos hp] at hf
    cases hf

end Entries

section Tables

variable (hlt : ∀ i ∈ P, i < 512) (hg : reach m t P = some g)
include hlt hg

theorem below_of_mem_ptFrames (hlen : P.length = 3) (hf : f ∈ ptFrames m g) :
    ∃ i, Below m t (i :: P) f := by
  obtain ⟨i, hi, hf⟩ := List.mem_flatMap.1 hf
  exact ⟨i, below_of_mem_ptEntry (List.mem_range.1 hi) hlt hg hlen hf⟩

theorem below_of_mem_tableFrames {below : Nat → List Nat} (hlen : P.length < 4)
    (hbelow : ∀ i k, i < 512 → reach m t (i :: P) = some k → f ∈ below k →
      ∃ j, Below m t (j :: i :: P) f)
    (hf : f ∈ tableFrames m below g) : ∃ i, Below m t (i :: P) f := by
  obtain ⟨i, hi, hf⟩ := List.mem_flatMap.1 hf
  have hi := List.mem_range.1 hi
  exact ⟨i, below_of_mem_tableEntry hi hlt hg hlen (fun k => hbelow i k hi) hf⟩

theorem below_of_mem_pdFrames (hlen : P.length = 2) (hf : f ∈ pdFrames m g) :
    ∃ i, Below m t (i :: P) f :=
  below_of_mem_tableFrames hlt hg (by omega) (fun i k hi hk hf =>
    below_of_mem_ptFrames (List.forall_mem_cons.2 ⟨hi, hlt⟩) hk (by simp [hlen]) hf) hf

theorem below_of_mem_pdptFrames (hlen : P.length = 1) (hf : f ∈ pdptFrames m g) :
    ∃ i, Below m t (i :: P) f :=
  below_of_mem_tableFrames hlt hg (by omega) (fun i k hi hk hf =>
    below_of_mem_pdFrames (List.forall_mem_cons.2 ⟨hi, hlt⟩) hk (by simp [hlen]) hf) hf

end Tables

/-- The first entry of a PML4. -/
theorem reach_first (hh : huge (entry m t 0) = false) (hp : present (entry m t 0) = true) :
    reach m t [0] = some (addr (entry m t 0)) :=
  reach_cons.2 ⟨t, rfl, hp, fun h => absurd h (by simp [hh]), rfl⟩

/-- What `dealloc_user` frees is the PML4 or on a path under its first entry. -/
theorem exists_reach_of_mem_userFrames (hh : huge (entry m t 0) = false)
    (hf : f ∈ userFrames m t) : ∃ Q, Own (· = 0) Q ∧ reach m t Q = some f := by
  have hroot : f = t → ∃ Q, Own (· = 0) Q ∧ reach m t Q = some f := fun he =>
    ⟨[], ⟨Route.nil, Nat.zero_le 4⟩, he ▸ rfl⟩
  rw [userFrames] at hf
  by_cases hp : present (entry m t 0) = true
  · rw [if_neg (not_not.2 hp)] at hf
    have hr := reach_first hh hp
    have hlt : ∀ i ∈ [0], i < 512 := by simp
    have hbelow : f = t ∨ Below m t [0] f := by
      rcases List.mem_append.1 hf with hf | hf
      · obtain ⟨i, hb⟩ := below_of_mem_pdptFrames hlt hr rfl hf
        exact Or.inr hb.of_cons
      · rcases List.mem_cons.1 hf with rfl | hf
        · exact Or.inr (.here hlt (by decide) hr)
        · exact Or.inl (List.mem_singleton.1 hf)
    rcases hbelow with he | hb
    · exact hroot he
    · obtain ⟨Q, -, hQ⟩ := hb.own rfl
      exact ⟨Q, hQ⟩
  · rw [if_pos hp] at hf
    exact hroot (List.mem_singleton.1 hf)

/-! ## Each frame once -/

section Once

variable (hinj : ∀ Q Q' f, Own (· = 0) Q → Own (· = 0) Q' → reach m t Q = some f →
  reach m t Q' = some f → Q = Q')
include hinj

/-- A frame is below one entry of a table. -/
theorem Below.index_unique {j : Nat} (hlast : P.getLast? = some 0) (h : Below m t (i :: P) f)
    (h' : Below m t (j :: P) f) : i = j := by
  have hcons : ∀ k, (k :: P).getLast? = some 0 := fun k => by
    rw [List.getLast?_cons, hlast]
    rfl
  obtain ⟨Q, hsuf, hQ, hr⟩ := h.own (hcons i)
  obtain ⟨Q', hsuf', hQ', hr'⟩ := h'.own (hcons j)
  obtain rfl := hinj Q Q' f hQ hQ' hr hr'
  have heq := (List.suffix_of_suffix_length_le hsuf hsuf' (by simp)).eq_of_length (by simp)
  exact (List.cons.inj heq).1

/-- A table is not below itself. -/
theorem Below.ne_self (hlt : ∀ i ∈ P, i < 512) (hlen : P.length ≤ 4) (hlast : P.getLast? = some 0)
    (hg : reach m t P = some g) (h : Below m t (i :: P) f) : f ≠ g := by
  rintro rfl
  obtain ⟨Q, hsuf, hQ, hr⟩ := h.own (by rw [List.getLast?_cons, hlast]; rfl)
  obtain ⟨Q', hsuf', hQ', hr'⟩ := (Below.here hlt hlen hg).own hlast
  have hP : Own (· = 0) P := ⟨⟨hlt, fun k hk => (Option.some.inj (hlast.symm.trans hk)).symm⟩, hlen⟩
  obtain rfl := hinj Q P f hQ hP hr hg
  have := hsuf.length_le
  simp at this

variable (hlt : ∀ i ∈ P, i < 512) (hlast : P.getLast? = some 0) (hg : reach m t P = some g)
include hlast

/-- A loop over the entries of a table lists each frame once when each turn
does. -/
theorem nodup_entries {F : Nat → List Nat} (hnd : ∀ i, i < 512 → (F i).Nodup)
    (hbelow : ∀ i f, i < 512 → f ∈ F i → Below m t (i :: P) f) :
    ((List.range 512).flatMap F).Nodup := by
  refine List.nodup_flatMap.2 ⟨fun i hi => hnd i (List.mem_range.1 hi), ?_⟩
  refine List.nodup_range.pairwise_of_forall_ne fun i hi j hj hne f hf hf' => hne ?_
  exact (hbelow i f (List.mem_range.1 hi) hf).index_unique hinj hlast
    (hbelow j f (List.mem_range.1 hj) hf')

include hlt hg

theorem nodup_ptFrames (hlen : P.length = 3) : (ptFrames m g).Nodup := by
  refine nodup_entries hinj hlast (fun i _ => ?_) fun i f hi hf =>
    below_of_mem_ptEntry hi hlt hg hlen hf
  split
  · exact List.nodup_singleton _
  · exact List.nodup_nil

theorem nodup_tableFrames {below : Nat → List Nat} (hlen : P.length < 4)
    (hnd : ∀ i k, i < 512 → reach m t (i :: P) = some k → (below k).Nodup)
    (hbelow : ∀ i k f, i < 512 → reach m t (i :: P) = some k → f ∈ below k →
      ∃ j, Below m t (j :: i :: P) f) : (tableFrames m below g).Nodup := by
  refine nodup_entries hinj hlast (fun i hi => ?_) fun i f hi hf =>
    below_of_mem_tableEntry hi hlt hg hlen (fun k => hbelow i k f hi) hf
  by_cases hp : present (entry m g i) = true
  · rw [if_neg (not_not.2 hp)]
    by_cases hh : huge (entry m g i) = true
    · rw [if_pos hh]
      exact List.nodup_nil
    · rw [if_neg hh]
      have hr := reach_cons.2 ⟨g, hg, hp, fun h => absurd h hh, rfl⟩
      refine List.nodup_append.2 ⟨hnd i _ hi hr, List.nodup_singleton _, fun f hf k hk => ?_⟩
      obtain ⟨j, hj⟩ := hbelow i _ f hi hr hf
      rw [List.mem_singleton.1 hk]
      exact hj.ne_self hinj (List.forall_mem_cons.2 ⟨hi, hlt⟩) hlen
        (by rw [List.getLast?_cons, hlast]; rfl) hr
  · rw [if_pos hp]
    exact List.nodup_nil

end Once

/-- `dealloc_user` frees each frame once. -/
theorem nodup_userFrames (hh : huge (entry m t 0) = false)
    (hinj : ∀ Q Q' f, Own (· = 0) Q → Own (· = 0) Q' → reach m t Q = some f →
      reach m t Q' = some f → Q = Q') : (userFrames m t).Nodup := by
  rw [userFrames]
  by_cases hp : present (entry m t 0) = true
  · rw [if_neg (not_not.2 hp)]
    have hr := reach_first hh hp
    have hlt : ∀ i ∈ [0], i < 512 := by simp
    have hne : addr (entry m t 0) ≠ t := fun he => by
      have := hinj [0] [] _ ⟨⟨hlt, fun i hi => (Option.some.inj hi).symm⟩, by simp⟩
        ⟨Route.nil, by simp⟩ hr (congrArg some he.symm)
      cases this
    have hnd : (pdptFrames m (addr (entry m t 0))).Nodup := by
      refine nodup_tableFrames hinj hlt rfl hr (by simp) (fun i k hi hk => ?_) fun i k f hi hk hf =>
        below_of_mem_pdFrames (List.forall_mem_cons.2 ⟨hi, hlt⟩) hk rfl hf
      have hlt : ∀ j ∈ [i, 0], j < 512 := List.forall_mem_cons.2 ⟨hi, hlt⟩
      refine nodup_tableFrames hinj hlt rfl hk (by simp) (fun j k hj hk => ?_) fun j k f hj hk hf =>
        below_of_mem_ptFrames (List.forall_mem_cons.2 ⟨hj, hlt⟩) hk rfl hf
      exact nodup_ptFrames hinj (List.forall_mem_cons.2 ⟨hj, hlt⟩) rfl hk rfl
    refine List.nodup_append.2 ⟨hnd, by simp [hne], fun f hf k hk => ?_⟩
    obtain ⟨i, hb⟩ := below_of_mem_pdptFrames hlt hr rfl hf
    rcases List.mem_cons.1 hk with rfl | hk
    · exact hb.ne_self hinj hlt (by simp) rfl hr
    · rw [List.mem_singleton.1 hk]
      rintro rfl
      obtain ⟨Q, hsuf, hQ, hrQ⟩ := hb.own rfl
      obtain rfl := hinj Q [] f hQ ⟨Route.nil, by simp⟩ hrQ rfl
      simp at hsuf
  · rw [if_pos hp]
    exact List.nodup_singleton t

/-! ## What is free afterwards -/

theorem mem_free_deallocFrame {k : Nat} (h : f ∈ (deallocFrame p k).free) : f ∈ p.free ∨ f = k := by
  unfold deallocFrame FrameAllocator.deallocateFrame at h
  split at h
  · exact Or.inl h
  · exact (List.mem_cons.1 h).symm

theorem mem_free_foldl {l : List Nat} (h : f ∈ (l.foldl deallocFrame p).free) :
    f ∈ p.free ∨ f ∈ l := by
  induction l generalizing p with
  | nil => exact Or.inl h
  | cons k l ih =>
    rcases ih h with hf | hf
    · exact (mem_free_deallocFrame hf).imp_right fun he => List.mem_cons.2 (Or.inl he)
    · exact Or.inr (List.mem_cons_of_mem k hf)

/-- Frames that are freed once each stay on the stack once each. -/
theorem nodup_free_foldl {l : List Nat} (hl : l.Nodup) (hfree : p.free.Nodup)
    (hout : ∀ f ∈ l, f ∉ p.free) : (l.foldl deallocFrame p).free.Nodup := by
  induction l generalizing p with
  | nil => exact hfree
  | cons k l ih =>
    obtain ⟨hk, hl⟩ := List.nodup_cons.1 hl
    have hnd : (deallocFrame p k).free.Nodup := by
      unfold deallocFrame FrameAllocator.deallocateFrame
      split
      · exact hfree
      · exact List.nodup_cons.2 ⟨hout k List.mem_cons_self, hfree⟩
    refine ih hl hnd fun f hf hmem => ?_
    rcases mem_free_deallocFrame hmem with hmem | rfl
    · exact hout f (List.mem_cons_of_mem k hf) hmem
    · exact hk hf

/-- No frame leaves the stack. -/
theorem subset_free_foldl {l : List Nat} : p.free ⊆ (l.foldl deallocFrame p).free := by
  induction l generalizing p with
  | nil => exact List.Subset.refl _
  | cons k l ih =>
    refine List.Subset.trans ?_ ih
    unfold deallocFrame FrameAllocator.deallocateFrame
    split
    · exact List.Subset.refl _
    · exact List.subset_cons_self ..

theorem mem_foldl (l : List Nat) (p : Phys) : (l.foldl deallocFrame p).mem = p.mem := by
  induction l generalizing p with
  | nil => rfl
  | cons k l ih => exact ih _

/-- A frame that is free afterwards was free before or is on a path under the
first entry. -/
theorem mem_free_deallocUser (hh : huge (entry p.mem t 0) = false)
    (h : f ∈ (deallocUser p t).free) :
    f ∈ p.free ∨ ∃ Q, Own (· = 0) Q ∧ reach p.mem t Q = some f :=
  (mem_free_foldl h).imp_right (exists_reach_of_mem_userFrames hh)

/-! ## A loaded program -/

variable {mapTo : MapTo} {cr3 entryPoint : Nat} {p0 : Phys} {elf : List UInt8}
  {segments : List ElfSegment} {r : Nat × Nat × Nat}

/-- The segments of a program in the first entry of the PML4. -/
def UserSegments (segments : List ElfSegment) : Prop :=
  ∀ seg ∈ segments, seg.filesz ≤ seg.memsz ∧ seg.vaddr + seg.memsz < 2 ^ 39

/-- The pages of the segments are under the first entry. -/
theorem UserSegments.first (h : UserSegments segments) :
    ∀ seg ∈ segments, ∀ page ∈ seg.pages, page / 2 ^ 39 % 512 = 0 := by
  intro seg hseg page hpage
  obtain ⟨hfile, hlt⟩ := h seg hseg
  unfold ElfSegment.pages at hpage
  split at hpage
  · cases hpage
  · obtain ⟨-, -, hle⟩ := mem_pagesInclusive.1 hpage
    omega

theorem UserSegments.placed (h : UserSegments segments) :
    ∀ seg ∈ segments, Placed (Unshared cr3 p0) seg := by
  intro seg hseg
  obtain ⟨hfile, hlt⟩ := h seg hseg
  refine ⟨by omega, fun page hpage => ?_⟩
  rw [h.first seg hseg page hpage]
  exact fun hs => absurd hs.1 (by decide)

/-- A frame of the stack of a loaded program is not free after `dealloc_user`. -/
theorem exists_lost (hmap : FollowsWalk mapTo) (h : Loadable cr3 p0)
    (hparse : parseElfSegments elf = .ok (entryPoint, segments)) (hsegs : UserSegments segments)
    (hok : exec (loadElfIntoNewSpace mapTo cr3 elf) p0 = (.ok r, p)) :
    ∃ f ∈ p0.free, f ∉ p.free ∧ f ∉ (deallocUser p r.1).free := by
  have hplaced : ∀ e segs, parseElfSegments elf = .ok (e, segs) →
      ∀ seg ∈ segs, Placed (Unshared cr3 p0) seg := fun e segs he => by
    cases hparse.symm.trans he
    exact hsegs.placed
  obtain ⟨_, q, -, -, hload⟩ := (loadElfIntoNewSpace_spec hmap h hplaced).ok rfl hok
  obtain ⟨f, hf⟩ := hload.frame
  have htree := hload.stack.loading.tree
  have h0 : Unshared cr3 p0 0 := fun hs => absurd hs.1 (by decide)
  have hown : ∀ {Q}, Own (· = 0) Q → Own (Unshared cr3 p0) Q := fun hQ =>
    ⟨hQ.1.mono fun i hi => hi ▸ h0, hQ.2⟩
  have hsmall : huge (entry p.mem r.1 0) = false :=
    htree.small 0 [] r.1 (hown ⟨⟨by simp, by simp⟩, by simp⟩) (by simp) rfl
  refine ⟨f, hf.was, hf.taken, fun hfree => ?_⟩
  rcases mem_free_deallocUser hsmall hfree with hfree | ⟨Q, hQ, hr⟩
  · exact hf.taken hfree
  · refine hf.out Q (hown hQ) (fun hlast => ?_) hr
    exact absurd (hQ.1.2 255 hlast) (by decide)

/-- Loading a program and freeing its space again loses frames, whatever the
program is, also when its process is reaped. -/
theorem not_conserved (hmap : FollowsWalk mapTo) (h : Loadable cr3 p0)
    (hparse : parseElfSegments elf = .ok (entryPoint, segments)) (hsegs : UserSegments segments)
    (hok : exec (loadElfIntoNewSpace mapTo cr3 elf) p0 = (.ok r, p)) :
    (¬ ∀ f, f ∈ (deallocUser p r.1).free ↔ f ∈ p0.free) ∧
      ¬ ∀ f, f ∈ (deallocProcSpace p r.1).free ↔ f ∈ p0.free := by
  obtain ⟨f, hf, hleft, hlost⟩ := exists_lost hmap h hparse hsegs hok
  refine ⟨fun hall => hlost ((hall f).2 hf), fun hall => ?_⟩
  have hfree := (hall f).2 hf
  unfold deallocProcSpace at hfree
  split at hfree
  · exact hleft hfree
  · split at hfree
    · exact hlost hfree
    · exact hleft hfree

/-- A program with one segment, of one byte. -/
theorem not_conserved_bss :
    ∃ r p, exec (loadElfIntoNewSpace walkTo 0 (elfFile 0x400fff [bssSegment] [7])) freeFrames =
        (.ok r, p) ∧
      (¬ ∀ f, f ∈ (deallocUser p r.1).free ↔ f ∈ freeFrames.free) ∧
      ¬ ∀ f, f ∈ (deallocProcSpace p r.1).free ↔ f ∈ freeFrames.free := by
  have hok : (exec (loadElfIntoNewSpace walkTo 0 (elfFile 0x400fff [bssSegment] [7]))
      freeFrames).1 = .ok (0x1000, 0x400fff, USER_STACK_TOP) := by decide +kernel
  have hparse : parseElfSegments (elfFile 0x400fff [bssSegment] [7]) =
      .ok (0x400fff, [bssSegment]) := by decide +kernel
  refine ⟨_, _, exec_of_fst hok, not_conserved walkTo_follows freeFrames_loadable hparse ?_
    (exec_of_fst hok)⟩
  unfold UserSegments
  decide

/-- The first frame of the stack of a program without segments. -/
theorem not_conserved_stack :
    ∃ r p, exec (loadElfIntoNewSpace walkTo 0 (elfFile 0 [] [])) freeFrames = (.ok r, p) ∧
      ¬ ∀ f, f ∈ (deallocUser p r.1).free ↔ f ∈ freeFrames.free := by
  have hok : (exec (loadElfIntoNewSpace walkTo 0 (elfFile 0 [] [])) freeFrames).1 =
      .ok (0x1000, 0, USER_STACK_TOP) := by decide +kernel
  have hlost : 0x2000 ∉ (deallocUser (exec (loadElfIntoNewSpace walkTo 0 (elfFile 0 [] []))
      freeFrames).2 0x1000).free := by decide +kernel
  exact ⟨_, _, exec_of_fst hok, fun hall => hlost ((hall 0x2000).2 (by decide +kernel))⟩

end AeroOS.Memory
