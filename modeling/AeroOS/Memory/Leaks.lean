import AeroOS.Memory.Image
import AeroOS.Scheduler.Calls

/-!
# Frames of calls that fail

`clone_user_space`, `load_elf_into_new_space`, `spawn_user_process` and
`sys_fork` take frames one by one and may fail at each.  No address space has a
destructor, and no error path gives a frame back.

* `Takes`: a computation only takes frames off the free stack, whatever its
  result.  All parts of the four calls do.
* `newUser_bind`: a computation that starts with `new_user` loses a frame,
  unless there was none.
* `failed_calls_iff`: the four calls leave the free frames as they were when they
  fail before `new_user` has its frame.
-/

namespace AeroOS.Memory

open AeroOS.Bytes AeroOS.Hoare AeroOS.Paging
open AeroOS.Proc

/-- The free stack is what is left of `l`. -/
def Left (l : List Nat) (p : Phys) : Prop := p.free <:+ l

/-- Whatever its result, the computation takes frames off the free stack and
puts none on it. -/
def Takes {α : Type} (x : Kernel α) : Prop :=
  ∀ l, (∀ f ∈ l, IsFrame f) → Triple (Left l) x (fun _ => Left l) (Left l)

namespace Takes

variable {α β : Type} {x : Kernel α}

theorem pure (a : α) : Takes (Pure.pure a : Kernel α) := fun _ _ => Triple.pure fun _ => id

theorem throw (e : String) : Takes (MonadExcept.throw e : Kernel α) := fun _ _ =>
  Triple.throw fun _ => id

/-- An edit of the memory. -/
theorem update {f : Phys → Phys} (h : ∀ p, (f p).free = p.free) :
    Takes (modify f : Kernel PUnit) := fun _ _ =>
  Triple.update fun p hp => (h p ▸ hp : (f p).free <:+ _)

theorem bind {f : α → Kernel β} (h : Takes x) (h' : ∀ a, Takes (f a)) : Takes (x >>= f) :=
  fun l hl => (h l hl).bind fun a => h' a l hl

theorem get_bind {f : Phys → Kernel β} (h : ∀ p, Takes (f p)) : Takes (get >>= f) := fun l hl =>
  Triple.get_bind fun p hp => (h p l hl).pre fun _ hs => hs ▸ hp

theorem ite {c : Prop} [Decidable c] {y : Kernel α} (h : Takes x) (h' : Takes y) :
    Takes (if c then x else y) := fun l hl => Triple.ite (fun _ => h l hl) fun _ => h' l hl

theorem forM {l : List α} {f : α → Kernel PUnit} (h : ∀ a, Takes (f a)) : Takes (l.forM f) :=
  fun l hl => Triple.forM (I := fun _ => Left l) fun _ a _ _ => h a l hl

theorem mapErr (err : String) (h : Takes x) : Takes (Memory.mapErr err x) := fun l hl =>
  mapErr_spec (h l hl) err

end Takes

/-! ## The parts of the calls -/

section Parts

variable {mapTo : MapTo}

theorem allocFrame_left (err : String) (l : List Nat) :
    Triple (Left l) (allocFrame err) (fun f p => f ∈ l ∧ Left l p) (Left l) := by
  refine .of_single fun p hp => (allocFrame_spec err p).conseq (fun _ => id) (fun f q hq => ?_)
    fun _ hs => hs ▸ hp
  have hsuf : f :: q.free <:+ l := hq.1 ▸ hp
  exact ⟨hsuf.subset List.mem_cons_self, (List.suffix_cons f q.free).trans hsuf⟩

/-- A page that is mapped costs its frame and the tables on the way. -/
theorem mapUserPageAlloc_takes (hmap : FollowsWalk mapTo) (pml4 page : Nat) {fl : Nat}
    (hfl : IsFlags fl) (hpres : present fl = true) :
    Takes (AddressSpace.mapUserPageAlloc mapTo pml4 page fl) := by
  refine fun l hl => (allocFrame_left _ l).bind fun f => Triple.assume fun hf => ?_
  refine Triple.bind (R := fun _ => Left l) ?_ fun _ => Triple.pure fun _ => id
  refine Triple.get_bind fun p hp => Triple.bind (R := fun _ => Left l) (Triple.update fun _ _ => ?_)
    fun _ => Triple.ite (fun _ => Triple.pure fun _ => id) fun _ => Triple.throw fun _ => id
  exact (hmap p pml4 page f fl (hl f hf) hfl hpres).free.trans hp

theorem virtAddr_takes (vaddr : Nat) : Takes (virtAddr vaddr) := .ite (.pure _) (.throw _)

theorem clonePt_takes (hmap : FollowsWalk mapTo) (new pml4Idx pdptIdx pdIdx pt : Nat) :
    Takes (AddressSpace.clonePt mapTo new pml4Idx pdptIdx pdIdx pt) := by
  refine .forM fun ptIdx => .get_bind fun p l hl => ?_
  refine Triple.ite (fun _ => Takes.pure _ l hl) fun hyes => ?_
  have hpres : present (flags (entry p.mem pt ptIdx)) = true :=
    (present_flags _).trans (not_not.1 (not_or.1 hyes).1)
  refine Takes.bind (virtAddr_takes _) (fun vaddr => ?_) l hl
  exact (mapUserPageAlloc_takes hmap new _ (isFlags_flags _) hpres).bind fun dst =>
    .update fun _ => rfl

theorem clonePml4_takes (hmap : FollowsWalk mapTo) (new pml4 : Nat) :
    Takes (AddressSpace.clonePml4 mapTo new pml4) :=
  .forM fun _ => .get_bind fun _ => .ite (.pure _) <| .ite (.pure _) <| .ite (.throw _) <|
    .forM fun _ => .get_bind fun _ => .ite (.pure _) <| .ite (.throw _) <|
      .forM fun _ => .get_bind fun _ => .ite (.pure _) <| .ite (.throw _) <|
        clonePt_takes hmap _ _ _ _ _

theorem frameFor_takes (hmap : FollowsWalk mapTo) (pml4 page : Nat) {fl : Nat}
    (hfl : IsFlags fl) (hpres : present fl = true) : Takes (frameFor mapTo pml4 page fl) := by
  refine .get_bind fun p => ?_
  cases AddressSpace.translate p.mem pml4 page with
  | some pa => exact .ite (.pure _) (.throw _)
  | none =>
    exact ((mapUserPageAlloc_takes hmap pml4 page hfl hpres).mapErr _).bind fun frame =>
      (Takes.update fun _ => rfl).bind fun _ => .pure _

theorem mapElfSegment_takes (hmap : FollowsWalk mapTo) (pml4 : Nat) (elf : List UInt8)
    (seg : ElfSegment) : Takes (mapElfSegment mapTo pml4 elf seg) := by
  refine .ite (.pure _) ?_
  refine (virtAddr_takes _).bind fun start => (virtAddr_takes _).bind fun finish => ?_
  refine .forM fun page => Takes.bind (.ite (.throw _) (.pure _)) fun _ => ?_
  exact (frameFor_takes hmap pml4 page (isFlags_segmentFlags seg) (present_segmentFlags seg)).bind
    fun frame => .update fun _ => rfl

theorem mapUserStack_takes (hmap : FollowsWalk mapTo) (pml4 : Nat) :
    Takes (mapUserStack mapTo pml4) := by
  refine Takes.bind (.forM fun page => ?_) fun _ => .pure _
  exact ((mapUserPageAlloc_takes hmap pml4 page (by decide) (by decide)).mapErr _).bind
    fun _ => .pure _

end Parts

/-! ## After `new_user` -/

/-- The first free frame is gone. -/
def Lost (p p' : Phys) : Prop := ∃ f rest, p.free = f :: rest ∧ p'.free <:+ rest

variable {α : Type} {p p' : Phys} {mapTo : MapTo} {cr3 pml4 : Nat} {elf : List UInt8}

theorem Lost.not_perm (h : Lost p p') : ¬ p'.free.Perm p.free := by
  obtain ⟨f, rest, hfree, hsuf⟩ := h
  intro hperm
  have hlen := hperm.length_eq
  have hle := hsuf.length_le
  rw [hfree, List.length_cons] at hlen
  omega

theorem Lost.free_ne (h : Lost p p') : p.free ≠ [] := by
  obtain ⟨f, rest, hfree, -⟩ := h
  exact hfree ▸ List.cons_ne_nil f rest

/-- The loop of `new_user` allocates nothing and has no errors. -/
theorem copyKernelEntries_left (cr3 pml4 : Nat) (l : List Nat) (E : Phys → Prop) :
    Triple (Left l) (AddressSpace.copyKernelEntries cr3 pml4) (fun _ => Left l) E := by
  refine Triple.forM (I := fun _ => Left l) fun _ i _ _ => Triple.get_bind fun p hp => ?_
  have hpure : Triple (· = p) (pure () : Kernel Unit) (fun _ => Left l) E :=
    Triple.pure fun _ hs => hs ▸ hp
  exact Triple.ite (fun _ => hpure) fun _ => Triple.ite (fun _ => hpure) fun _ =>
    Triple.update fun _ _ => hp

/-- `new_user` fails without a free frame, and else takes the first. -/
theorem newUser_lost (cr3 : Nat) (p : Phys) :
    Triple (· = p) (AddressSpace.newUser cr3) (fun _ p' => Lost p p')
      (fun p' => p.free = [] ∧ p' = p) := by
  refine Triple.single ?_
  rw [AddressSpace.newUser, exec_bind]
  cases hfree : p.free with
  | nil =>
    rw [exec_allocFrame_nil hfree]
    exact ⟨fun _ ha => (nomatch ha), fun _ _ => ⟨rfl, rfl⟩⟩
  | cons f rest =>
    rw [exec_allocFrame_cons hfree]
    have hrest : Triple (Left rest)
        (do modify fun p => { p with mem := zeroFrame p.mem f }
            AddressSpace.copyKernelEntries cr3 f
            return f)
        (fun _ p' => Lost p p') (fun p' => f :: rest = [] ∧ p' = p) :=
      Triple.bind (R := fun _ => Left rest) (Triple.update fun _ => id) fun _ =>
        (copyKernelEntries_left cr3 f rest _).bind fun _ =>
          Triple.pure fun _ hs => ⟨f, rest, hfree, hs⟩
    exact hrest _ List.suffix_rfl

/-- What starts with `new_user` fails at once without a free frame, and else
keeps the frame of the PML4. -/
theorem newUser_bind (hframe : ∀ f ∈ p.free, IsFrame f) {f : Nat → Kernel α}
    (hf : ∀ t, Takes (f t)) :
    Triple (· = p) (AddressSpace.newUser cr3 >>= f) (fun _ => Lost p)
      (fun p' => p.free = [] ∧ p' = p ∨ Lost p p') := by
  refine ((newUser_lost cr3 p).conseq (fun _ => id) (fun _ _ => id) fun _ => Or.inl).bind
    fun t => .of_single fun q ⟨g, rest, hfree, hleft⟩ => ?_
  have hrest : ∀ h ∈ rest, IsFrame h := fun h hh =>
    hframe h (hfree ▸ List.mem_cons_of_mem _ hh)
  exact (hf t rest hrest).conseq (fun _ hs => hs ▸ hleft)
    (fun _ _ hs => ⟨g, rest, hfree, hs⟩) fun _ hs => Or.inr ⟨g, rest, hfree, hs⟩

/-! ## The calls -/

/-- `from_cr3`.  A number of more than 52 bits panics in `PhysAddr::new`, which
takes no frame either. -/
def AddressSpace.fromCr3 (cr3 : Nat) : Option Nat :=
  if cr3 = 0 then none else if IsFrame cr3 then some cr3 else none

/-- The space that `sys_fork` clones: that of the current process. -/
def forkSource (t : ProcessTable) : Option Nat :=
  (t.get t.currentPid).bind fun parent => AddressSpace.fromCr3 parent.cr3

section Calls

variable (mapTo : MapTo) (cr3 : Nat) (top : Fin MAX_PROCESSES → Nat)

/-- `spawn_user_process`: the steps of `load_elf_into_new_space`, and then the
record of the process. -/
def spawnUserProcess (elf name : List UInt8) (p : Phys) (k : Scheduler.Kernel) :
    Except String Nat × Phys × Scheduler.Kernel :=
  match exec (loadElfIntoNewSpace mapTo cr3 elf) p with
  | (.error e, p') => (.error e, p', k)
  | (.ok (pml4, entryPoint, stackTop), p') =>
    match k.spawnUserProcess top name entryPoint stackTop pml4 with
    | (none, k') => (.error "process table full", p', k')
    | (some pid, k') => (.ok pid, p', k')

/-- `sys_fork`.  `ctx` is the user's stack pointer in the interrupt context, and
none for a null context. -/
def sysFork (ctx : Option Nat) (p : Phys) (k : Scheduler.Kernel) :
    Except Int Nat × Phys × Scheduler.Kernel :=
  if k.table.currentPid = 0 then (.error ENOSYS, p, k)
  else
    match ctx with
    | none => (.error EINVAL, p, k)
    | some userRsp =>
      match forkSource k.table with
      | none => (.error ENOSYS, p, k)
      | some parent =>
        match exec (AddressSpace.cloneUserSpace mapTo cr3 parent) p with
        | (.error _, p') => (.error ENOMEM, p', k)
        | (.ok child, p') =>
          match k.forkProcess (some child) userRsp with
          | (.error e, k') => (.error e, p', k')
          | (.ok (pid, slot), k') => (.ok pid, p', k'.buildChildStack top slot)

end Calls

theorem cloneUserSpace_lost (hmap : FollowsWalk mapTo) (hframe : ∀ f ∈ p.free, IsFrame f)
    (cr3 pml4 : Nat) : Triple (· = p) (AddressSpace.cloneUserSpace mapTo cr3 pml4)
      (fun _ => Lost p) (fun p' => p.free = [] ∧ p' = p ∨ Lost p p') :=
  newUser_bind hframe fun new => (clonePml4_takes hmap new pml4).bind fun _ => .pure _

theorem loadElfIntoNewSpace_lost (hmap : FollowsWalk mapTo) (hframe : ∀ f ∈ p.free, IsFrame f)
    (cr3 : Nat) {elf : List UInt8} {r : Nat × List ElfSegment}
    (hparse : parseElfSegments elf = .ok r) :
    Triple (· = p) (loadElfIntoNewSpace mapTo cr3 elf)
      (fun _ => Lost p) (fun p' => p.free = [] ∧ p' = p ∨ Lost p p') := by
  rw [loadElfIntoNewSpace, hparse]
  exact newUser_bind hframe fun t =>
    (Takes.forM fun seg => mapElfSegment_takes hmap t elf seg).bind fun _ =>
      (mapUserStack_takes hmap t).bind fun _ => .pure _

theorem loadElfIntoNewSpace_refused (mapTo : MapTo) (cr3 : Nat) {err : String}
    (hparse : parseElfSegments elf = .error err) (p : Phys) :
    exec (loadElfIntoNewSpace mapTo cr3 elf) p = (.error err, p) := by
  rw [loadElfIntoNewSpace, hparse]
  rfl

/-! ## Calls that fail -/

/-- The file does not parse. -/
def Refused (elf : List UInt8) : Prop := ∃ err, parseElfSegments elf = .error err

/-- A call that took no frame, where `c` holds, or lost one. -/
theorem perm_iff_of_lost {c : Prop} (h : c ∧ p' = p ∨ ¬ c ∧ Lost p p') :
    p'.free.Perm p.free ↔ c := by
  rcases h with ⟨hc, rfl⟩ | ⟨hc, hlost⟩
  · exact ⟨fun _ => hc, fun _ => .refl _⟩
  · exact ⟨fun hperm => absurd hperm hlost.not_perm, fun h => absurd h hc⟩

/-- The same, with a kernel that took no notice. -/
theorem unchanged_iff_of_lost {c : Prop} {k k' : Scheduler.Kernel}
    (h : c ∧ p' = p ∧ k' = k ∨ ¬ c ∧ Lost p p') :
    p'.free.Perm p.free ∧ k'.table = k.table ↔ c := by
  rcases h with ⟨hc, rfl, rfl⟩ | ⟨hc, hlost⟩
  · exact ⟨fun _ => hc, fun _ => ⟨.refl _, rfl⟩⟩
  · exact ⟨fun hperm => absurd hperm.1 hlost.not_perm, fun h => absurd h hc⟩

section Failures

variable (hmap : FollowsWalk mapTo) (hframe : ∀ f ∈ p.free, IsFrame f)
include hmap hframe

theorem cloneUserSpace_failed {e : String}
    (h : exec (AddressSpace.cloneUserSpace mapTo cr3 pml4) p = (.error e, p')) :
    p.free = [] ∧ p' = p ∨ p.free ≠ [] ∧ Lost p p' :=
  ((cloneUserSpace_lost hmap hframe cr3 pml4).error rfl h).imp_right fun hlost =>
    ⟨hlost.free_ne, hlost⟩

theorem loadElfIntoNewSpace_failed {e : String}
    (h : exec (loadElfIntoNewSpace mapTo cr3 elf) p = (.error e, p')) :
    (p.free = [] ∨ Refused elf) ∧ p' = p ∨ ¬ (p.free = [] ∨ Refused elf) ∧ Lost p p' := by
  cases hparse : parseElfSegments elf with
  | error err =>
    rw [loadElfIntoNewSpace_refused mapTo cr3 hparse] at h
    exact Or.inl ⟨Or.inr ⟨err, hparse⟩, (Prod.mk.inj h).2.symm⟩
  | ok r =>
    have hno : ¬ Refused elf := fun ⟨err, he⟩ => by rw [hparse] at he; cases he
    rcases (loadElfIntoNewSpace_lost hmap hframe cr3 hparse).error rfl h with ⟨hnil, hp⟩ | hlost
    · exact Or.inl ⟨Or.inl hnil, hp⟩
    · exact Or.inr ⟨not_or.2 ⟨hlost.free_ne, hno⟩, hlost⟩

/-- A load that succeeds keeps its frames. -/
theorem loadElfIntoNewSpace_taken {r : Nat × Nat × Nat}
    (h : exec (loadElfIntoNewSpace mapTo cr3 elf) p = (.ok r, p')) :
    ¬ (p.free = [] ∨ Refused elf) ∧ Lost p p' := by
  cases hparse : parseElfSegments elf with
  | error err =>
    rw [loadElfIntoNewSpace_refused mapTo cr3 hparse] at h
    cases h
  | ok s =>
    have hlost := (loadElfIntoNewSpace_lost hmap hframe cr3 hparse).ok rfl h
    refine ⟨not_or.2 ⟨hlost.free_ne, ?_⟩, hlost⟩
    rintro ⟨err, he⟩
    rw [hparse] at he
    cases he

theorem spawnUserProcess_failed {top : Fin MAX_PROCESSES → Nat} {name : List UInt8}
    {k k' : Scheduler.Kernel} {e : String}
    (h : spawnUserProcess mapTo cr3 top elf name p k = (.error e, p', k')) :
    (p.free = [] ∨ Refused elf) ∧ p' = p ∧ k' = k ∨
      ¬ (p.free = [] ∨ Refused elf) ∧ Lost p p' := by
  unfold spawnUserProcess at h
  split at h
  · rename_i q hload
    cases h
    exact (loadElfIntoNewSpace_failed hmap hframe hload).imp_left fun hc => ⟨hc.1, hc.2, rfl⟩
  · rename_i hload
    have htaken := loadElfIntoNewSpace_taken hmap hframe hload
    split at h
    · cases h
      exact Or.inr htaken
    · cases h

theorem sysFork_failed {top : Fin MAX_PROCESSES → Nat} {ctx : Option Nat}
    {k k' : Scheduler.Kernel} {e : Int}
    (h : sysFork mapTo cr3 top ctx p k = (.error e, p', k')) :
    (p.free = [] ∨ k.table.currentPid = 0 ∨ ctx = none ∨ forkSource k.table = none) ∧
        p' = p ∧ k' = k ∨
      ¬ (p.free = [] ∨ k.table.currentPid = 0 ∨ ctx = none ∨ forkSource k.table = none) ∧
        Lost p p' := by
  unfold sysFork at h
  by_cases hpid : k.table.currentPid = 0
  · rw [if_pos hpid] at h
    cases h
    exact Or.inl ⟨Or.inr (Or.inl hpid), rfl, rfl⟩
  rw [if_neg hpid] at h
  cases ctx with
  | none =>
    cases h
    exact Or.inl ⟨Or.inr (Or.inr (Or.inl rfl)), rfl, rfl⟩
  | some userRsp =>
    cases hsrc : forkSource k.table with
    | none =>
      rw [hsrc] at h
      cases h
      exact Or.inl ⟨Or.inr (Or.inr (Or.inr rfl)), rfl, rfl⟩
    | some parent =>
      simp only [hsrc] at h
      simp only [hpid, reduceCtorEq, or_false]
      split at h
      · rename_i q hclone
        cases h
        exact (cloneUserSpace_failed hmap hframe hclone).imp_left fun hc => ⟨hc.1, hc.2, rfl⟩
      · rename_i child q hclone
        have hlost := (cloneUserSpace_lost hmap hframe cr3 parent).ok rfl hclone
        split at h
        · cases h
          exact Or.inr ⟨hlost.free_ne, hlost⟩
        · cases h

end Failures

/-- A call that fails has taken a frame for good, unless it failed before it
took one: there was none, the file did not parse, or `sys_fork` was refused. -/
theorem failed_calls_iff (hmap : FollowsWalk mapTo) (hframe : ∀ f ∈ p.free, IsFrame f) :
    (∀ cr3 pml4 e p', exec (AddressSpace.cloneUserSpace mapTo cr3 pml4) p = (.error e, p') →
      (p'.free.Perm p.free ↔ p.free = [])) ∧
    (∀ cr3 elf e p', exec (loadElfIntoNewSpace mapTo cr3 elf) p = (.error e, p') →
      (p'.free.Perm p.free ↔ p.free = [] ∨ Refused elf)) ∧
    (∀ cr3 top elf name k e p' k',
      spawnUserProcess mapTo cr3 top elf name p k = (.error e, p', k') →
      (p'.free.Perm p.free ∧ k'.table = k.table ↔ p.free = [] ∨ Refused elf)) ∧
    (∀ cr3 top ctx k e p' k', sysFork mapTo cr3 top ctx p k = (.error e, p', k') →
      (p'.free.Perm p.free ∧ k'.table = k.table ↔
        p.free = [] ∨ k.table.currentPid = 0 ∨ ctx = none ∨ forkSource k.table = none)) := by
  refine ⟨fun cr3 pml4 e p' h => ?_, fun cr3 elf e p' h => ?_,
    fun cr3 top elf name k e p' k' h => ?_, fun cr3 top ctx k e p' k' h => ?_⟩
  · exact perm_iff_of_lost (cloneUserSpace_failed hmap hframe h)
  · exact perm_iff_of_lost (loadElfIntoNewSpace_failed hmap hframe h)
  · exact unchanged_iff_of_lost (spawnUserProcess_failed hmap hframe h)
  · exact unchanged_iff_of_lost (sysFork_failed hmap hframe h)

/-- One free frame, and memory with zeros. -/
def oneFrame : Phys := ⟨fun _ => 0, [0x1000]⟩

/-- A load with one free frame fails at the first page of the stack, and the
frame is gone. -/
theorem not_failed_call_keeps_frames : ¬ ∀ (cr3 : Nat) (elf : List UInt8) (p p' : Phys) (e : String),
    exec (loadElfIntoNewSpace walkTo cr3 elf) p = (.error e, p') →
      ∀ f, f ∈ p'.free ↔ f ∈ p.free := by
  intro h
  have hfail : (exec (loadElfIntoNewSpace walkTo 0 (elfFile 0 [] [])) oneFrame).1 =
      .error "failed to map user stack page" := by decide +kernel
  have hfree : (exec (loadElfIntoNewSpace walkTo 0 (elfFile 0 [] [])) oneFrame).2.free = [] := by
    decide +kernel
  have hmem := (h 0 _ oneFrame _ _ (exec_of_fst hfail) 0x1000).2 (by decide)
  rw [hfree] at hmem
  exact List.not_mem_nil hmem

/-- Without a free frame the same load changes nothing. -/
theorem failed_calls_iff_empty : ∃ e p', exec (loadElfIntoNewSpace walkTo 0 (elfFile 0 [] []))
    ⟨fun _ => 0, []⟩ = (.error e, p') ∧ p'.free.Perm [] := by
  have hfail : (exec (loadElfIntoNewSpace walkTo 0 (elfFile 0 [] [])) ⟨fun _ => 0, []⟩).1 =
      .error "out of frames for PML4" := by decide +kernel
  have h := failed_calls_iff (p := ⟨fun _ => 0, []⟩) walkTo_follows fun f hf => nomatch hf
  exact ⟨_, _, exec_of_fst hfail, (h.2.1 0 _ _ _ (exec_of_fst hfail)).2 (Or.inl rfl)⟩

end AeroOS.Memory
