import AeroOS.Memory.Isolation

/-!
# Isolation over runs

Every event keeps the invariant of the machine, so the spaces of the processes
stay apart in every run from boot, in which `sys_exec` writes the arguments to
no table.

* `Effect`: what an event does to the machine, and `Inv.effect`, by cases on the
  event.
* `Inv.of_effect`: the invariant, by cases on the effect.
* `Inv.spares`: where the arguments go when the free frames are in order.
* `isolated_of_run`: the runs.
-/

namespace AeroOS.Memory

open AeroOS.Bytes AeroOS.Hoare AeroOS.Paging AeroOS.Run
open AeroOS.Proc

/-! ## Writes that spare the tables -/

/-- A write to a frame that is no table. -/
theorem Owned.write {stock lost : List Nat} {p : Phys} {roots : Set Nat} {f : Nat} {m : Store}
    (h : Owned stock lost p roots) (hf : f % 4096 = 0)
    (hm : ∀ x, ¬ InFrame f x → m x = p.mem x) (hno : ∀ t ∈ roots, ¬ IsTable p.mem t f) :
    Owned stock lost ⟨m, p.free⟩ roots := by
  refine h.congr List.suffix_rfl fun t ht g x hg hx => hm x fun hx' => ?_
  have hmod : g % 4096 = 0 := ((h.space t ht).isFrame hg.holds).mod
  have hgf : g = f := by
    unfold InFrame at hx hx'
    omega
  exact hno t ht (hgf ▸ hg)

/-- The page of a path of four indices is no table of any space. -/
theorem Owned.page {stock lost : List Nat} {p : Phys} {roots : Set Nat} {c f : Nat} {P : List Nat}
    (h : Owned stock lost p roots) (hc : c ∈ roots) (hP : Own (Mine p.mem c) P)
    (h4 : P.length = 4) (hf : reach p.mem c P = some f) :
    ∀ t ∈ roots, ¬ IsTable p.mem t f := by
  rintro t ht hg
  obtain rfl : t = c := h.apart t ht c hc f hg.holds ⟨P, hP, hf⟩
  obtain ⟨Q, hQ, hlen, hr⟩ := hg
  obtain rfl := (h.space t ht).tree.apart P Q f hP hQ.held hf hr
  omega

/-- The page that the user sees at an address. -/
theorem UserLeaf.own {m : Store} {t e : Nat} {P : List Nat} (h : UserLeaf m t P e)
    (hlt : ∀ i ∈ P, i < 512) (h4 : P.length = 4) :
    Own (Mine m t) P ∧ reach m t P = some (addr e) :=
  ⟨own_user ⟨hlt, h.2.2⟩ (Nat.le_of_eq h4), reach_of_leaf h4 h.1⟩

theorem argFrame_mod {m : Store} {c f : Nat} (h : argFrame m c = some f) : f % 4096 = 0 := by
  unfold argFrame at h
  obtain ⟨a, ha, rfl⟩ := Option.map_eq_some_iff.1 h
  have hmod : a % 4096 = 0xfff := (Syscalls.translate_mod ha).trans (by decide)
  omega

theorem AddressSpace.deallocProcSpace_mem (p : Phys) (cr3 : Nat) :
    (AddressSpace.deallocProcSpace p cr3).mem = p.mem := by
  unfold AddressSpace.deallocProcSpace
  split
  · rfl
  · split
    · exact mem_foldl _ p
    · rfl

/-- A byte is written to the page of an entry. -/
theorem store_out {m : Store} {e v x : Nat} (b : UInt8) (hx : ¬ InFrame (addr e) x) :
    writeBytes m (addr e + v % 4096) [b] x = m x := by
  refine writeBytes_out _ ?_
  unfold InFrame at hx
  rw [List.length_singleton]
  omega

/-! ## What an event does -/

/-- The world `w'` after an event in `w`. -/
inductive Effect (mapTo : MapTo) (top : Fin MAX_PROCESSES → Nat) (w : World) : Event → World → Prop
  /-- Frames are taken, and the scheduler decides. -/
  | decide {e : Event} {p : Phys} {r : Option Scheduler.Switch × Scheduler.Kernel}
    (hw : Within w.phys p) (hsw : Scheduler.Switched w.kernel r) :
    Effect mapTo top w e ({ w with phys := p }.switch r)
  /-- A process gets a slot and a new space. -/
  | fill {e : Event} {p : Phys} {c parent : Nat} {k : Scheduler.Kernel} {i : Fin MAX_PROCESSES}
    (hb : Built w.phys p c) (hf : Scheduler.Filled w.kernel.table k.table i parent c)
    (hparent : parent = 0 ∨ parent = w.kernel.table.currentPid) :
    Effect mapTo top w e { w with phys := p, kernel := k }
  /-- A child is removed, and its space freed. -/
  | reap {e : Event} {i : Fin MAX_PROCESSES} (hpid : (w.kernel.table.processes i).pid ≠ 0)
    (hparent : (w.kernel.table.processes i).parentPid = w.kernel.table.currentPid) :
    Effect mapTo top w e
      { w with
        phys := AddressSpace.deallocProcSpace w.phys (w.kernel.table.processes i).cr3
        kernel := { w.kernel with table := w.kernel.table.setSlot i .empty } }
  /-- The space of the current process is replaced by a new one, and `f` is written. -/
  | replace {elf name : List UInt8} {argv rsp c entryPoint stackTop userRsp f : Nat} {p : Phys}
    {m : Store} (hcur : w.kernel.table.currentPid ≠ 0)
    (hload : exec (loadElfIntoNewSpace mapTo w.cr3 elf) w.phys = (.ok (c, entryPoint, stackTop), p))
    (hb : Built w.phys p c) (harg : argFrame p.mem c = some f)
    (hm : ∀ x, ¬ InFrame f x → m x = p.mem x) :
    Effect mapTo top w (.exec elf name argv rsp)
      (World.switch { w with phys := AddressSpace.deallocProcSpace ⟨m, p.free⟩ w.cr3 }
        ((w.kernel.execReplace top entryPoint userRsp c name).restartCurrent rsp))
  /-- The current process writes to a page of its space. -/
  | store {vaddr e : Nat} {b : UInt8} (hcur : w.kernel.table.currentPid ≠ 0)
    (he : userLeaf w.phys.mem w.cr3 vaddr = some e) :
    Effect mapTo top w (.store vaddr b)
      { w with phys := ⟨writeBytes w.phys.mem (addr e + vaddr % 4096) [b], w.phys.free⟩ }

section Effects

variable {stock : List Nat} {boot : Nat} {w : World} {mapTo : MapTo} {top : Fin MAX_PROCESSES → Nat}
  {e : Event}

theorem Effect.refl : Effect mapTo top w e w := .decide (Within.refl _) (Scheduler.Switched.refl _)

/-- Frames are taken, and the records are edited. -/
theorem Effect.edit {p : Phys} {k : Scheduler.Kernel} (hw : Within w.phys p)
    (he : Scheduler.Edited w.kernel.table k.table) :
    Effect mapTo top w e { w with phys := p, kernel := k } :=
  .decide (r := (none, k)) hw ⟨he.toSameSpaces, fun _ => he.current, fun _ hn => nomatch hn⟩

theorem Effect.within {p : Phys} (hw : Within w.phys p) :
    Effect mapTo top w e { w with phys := p } := .edit hw (Scheduler.Edited.refl _)

theorem Effect.switch {r : Option Scheduler.Switch × Scheduler.Kernel}
    (hsw : Scheduler.Switched w.kernel r) : Effect mapTo top w e (w.switch r) :=
  .decide (Within.refl _) hsw

/-- The space of the caller of `sys_exec`. -/
theorem Inv.oldCr3 (h : Inv stock boot w) (hcur : w.kernel.table.currentPid ≠ 0) :
    ((w.kernel.table.get w.kernel.table.currentPid).map (·.cr3)).getD 0 = w.cr3 := by
  obtain ⟨i, hi, -, hc, -⟩ := h.current hcur
  unfold ProcessTable.get
  rw [hi]
  exact hc

theorem Inv.newPid (h : Inv stock boot w) :
    NextNew w.kernel.table ∧ w.kernel.table.nextPid ≠ 0 := by
  obtain ⟨lost, -, hr, -⟩ := h
  exact ⟨hr.nextNew, hr.next_ne⟩

theorem Inv.waitpid_effect (h : Inv stock boot w) (pid rsp : Nat) :
    Effect mapTo top w e (w.waitpid pid rsp) := by
  unfold World.waitpid
  cases hchild : Scheduler.Kernel.waitChild w.kernel.table pid with
  | none => exact .refl
  | some i =>
    simp only
    split
    swap
    · exact .switch Scheduler.Kernel.yieldNow_loads
    have hsat := Cells.position_sat hchild
    simp only [ne_eq, decide_eq_true_eq] at hsat
    obtain ⟨hpid, hparent, -⟩ := hsat
    obtain ⟨lost, -, hr, -⟩ := h
    simp only [ProcessTable.free, hr.distinct.slotOf_eq hpid, Option.map_some]
    exact .reap hpid hparent

theorem store_effect (vaddr : Nat) (b : UInt8) :
    Effect mapTo top w (.store vaddr b) (w.store vaddr b) := by
  unfold World.store
  cases he : userLeaf w.phys.mem w.cr3 vaddr with
  | none => exact .refl
  | some e =>
    simp only
    split
    · rename_i hyes
      exact .store hyes.1 he
    · exact .refl

variable (hs : Stock stock boot) (hmap : FollowsWalk mapTo)
include hs hmap

theorem Inv.spawn_effect (h : Inv stock boot w) {elf : List UInt8} (helf : UserElf elf)
    (name : List UInt8) : Effect mapTo top w e (w.spawn mapTo top elf name) := by
  have hload := loadElfIntoNewSpace_built hmap (h.active hs) helf
  unfold World.spawn spawnUserProcess
  rcases hx : exec (loadElfIntoNewSpace mapTo w.cr3 elf) w.phys with ⟨r, p⟩
  cases r with
  | error e => exact .within (hload.error rfl hx)
  | ok r =>
    obtain ⟨pml4, entryPoint, stackTop⟩ := r
    have hb : Built w.phys p pml4 := hload.ok rfl hx
    rcases Scheduler.Kernel.spawnUserProcess_fills top h.newPid.1 h.newPid.2 name entryPoint
      stackTop pml4 with ⟨k, hk, ht⟩ | ⟨i, k, hk, hf⟩
    · simp only [hk]
      exact .edit hb.within (ht ▸ Scheduler.Edited.refl _)
    · simp only [hk]
      exact .fill hb hf (Or.inl rfl)

theorem Inv.fork_effect (h : Inv stock boot w) (ctx : Option Nat) :
    Effect mapTo top w e (w.fork mapTo ctx) := by
  unfold World.fork
  split
  swap
  · exact .refl
  rename_i userRsp parent hsrc
  split
  · exact .refl
  rename_i hcur
  obtain ⟨i, hi, -, hc, hroot⟩ := h.current hcur
  -- the space that is cloned is the active one
  obtain rfl : parent = w.cr3 := by
    unfold forkSource ProcessTable.get at hsrc
    rw [hi, Option.map_some, Option.bind_some, hc] at hsrc
    unfold AddressSpace.fromCr3 at hsrc
    split_ifs at hsrc
    exact (Option.some.inj hsrc).symm
  have hact := h.active hs
  have hspace : Space w.phys.mem w.cr3 ∧ ∀ f, Holds w.phys.mem w.cr3 f → f ∉ w.phys.free := by
    obtain ⟨lost, ho, -⟩ := h
    exact ⟨ho.space _ hroot, fun f hf => (ho.held _ hroot f hf).2⟩
  have hfork : Forkable w.cr3 w.cr3 w.phys :=
    .self hact.freeFrame hact.freeNodup hact.frame fun P g hP hlen hg =>
      hspace.2 g ⟨P, own_user hP hlen, hg⟩
  have hclone := cloneUserSpace_built hmap hact hfork hspace.1.stack
  rcases hx : exec (AddressSpace.cloneUserSpace mapTo w.cr3 w.cr3) w.phys with ⟨r, p⟩
  cases r with
  | error e => exact .within (hclone.error rfl hx)
  | ok child =>
    have hb : Built w.phys p child := hclone.ok rfl hx
    rcases Scheduler.Kernel.forkProcess_fills h.newPid.1 h.newPid.2 child userRsp with ht | ⟨j, hf⟩
    · exact .edit hb.within (ht ▸ Scheduler.Edited.refl _)
    · exact .fill hb hf (Or.inr rfl)

theorem Inv.exec_effect (h : Inv stock boot w) (window : Nat) {elf : List UInt8}
    (helf : UserElf elf) (name : List UInt8) (argv rsp : Nat) :
    Effect mapTo top w (.exec elf name argv rsp)
      (w.sysExec mapTo top window elf name argv rsp) := by
  unfold World.sysExec
  split
  · exact .refl
  rename_i hcur
  rw [h.oldCr3 hcur]
  have hload := loadElfIntoNewSpace_built hmap (h.active hs) helf
  unfold Syscalls.execImage
  rcases hx : Hoare.exec (loadElfIntoNewSpace mapTo w.cr3 elf) w.phys with ⟨r, p⟩
  cases r with
  | error e => exact .within (hload.error rfl hx)
  | ok r =>
    obtain ⟨pml4, entryPoint, stackTop⟩ := r
    have hb : Built w.phys p pml4 := hload.ok rfl hx
    cases htr : AddressSpace.translate p.mem pml4 (USER_STACK_TOP - 1) with
    | none =>
      simp only [htr]
      exact .within hb.within
    | some page =>
      have htop : page % 4096 = 0xfff := (Syscalls.translate_mod htr).trans (by decide)
      have harg : argFrame p.mem pml4 = some (page + 1) := by
        unfold argFrame
        rw [htr]
        rfl
      have hold : w.cr3 ≠ pml4 := by
        rintro rfl
        obtain ⟨-, -, -, -, hroot⟩ := h.current hcur
        obtain ⟨lost, ho, -⟩ := h
        exact (ho.held _ hroot _ (holds_root ..)).2 (hb.taken _ (holds_root ..)).1
      obtain ⟨hcount, hcost⟩ := Syscalls.argvStrs_le (byteAt p.mem w.cr3) argv
      simp only [htr, if_neg hold]
      exact .replace hcur hx hb harg fun x hx => Syscalls.buildArgs_mem htop hcount hcost p.mem hx

/-- What an event does in a state with the invariant. -/
theorem Inv.effect (h : Inv stock boot w) (window : Nat) (hfiles : e.UserFiles) :
    Effect mapTo top w e (w.next mapTo top window e) := by
  cases e with
  | spawn elf name => exact h.spawn_effect hs hmap hfiles name
  | fork ctx => exact h.fork_effect hs hmap ctx
  | buildChildStack slot => exact .edit (Within.refl _) (Scheduler.Edited.refl _)
  | exec elf name argv rsp => exact h.exec_effect hs hmap window hfiles name argv rsp
  | exit status rsp => exact .switch Scheduler.Kernel.sysExit_loads
  | waitpid pid rsp => exact h.waitpid_effect pid rsp
  | kill pid signum => exact .edit (Within.refl _) (Scheduler.Edited.sysKill _ _ _)
  | yieldNow rsp => exact .switch Scheduler.Kernel.yieldNow_loads
  | tick held rsp => exact .switch Scheduler.Kernel.onTimerTick_loads
  | startScheduler => exact .edit (Within.refl _) (Scheduler.Edited.refl _)
  | store vaddr b => exact store_effect vaddr b

end Effects

/-! ## The invariant -/

section Invariant

variable {stock : List Nat} {boot : Nat} {w w' : World} {mapTo : MapTo}
  {top : Fin MAX_PROCESSES → Nat} {e : Event}

/-- The space of a process is replaced. -/
theorem Records.replace {lost : List Nat} {t t' : ProcessTable} {i : Fin MAX_PROCESSES} {c : Nat}
    (h : Records lost t) (hc : c ∉ roots t) (hnext : t'.nextPid = t.nextPid)
    (hsame : ∀ j, (t'.processes j).pid = (t.processes j).pid ∧
      (t'.processes j).parentPid = (t.processes j).parentPid ∧
      (t'.processes j).cr3 = if j = i then c else (t.processes j).cr3) : Records lost t' where
  next := hnext.trans h.next
  distinct := fun a b ha hab => by
    rw [(hsame a).1] at ha
    exact h.distinct a b ha (by rw [← (hsame a).1, ← (hsame b).1, hab])
  older := fun a ha => by
    rw [(hsame a).1] at ha
    rw [(hsame a).1, (hsame a).2.1, hnext]
    exact h.older a ha
  separate := fun a b ha hb hab => by
    rw [(hsame a).1] at ha
    rw [(hsame b).1] at hb
    rw [(hsame a).2.2, (hsame b).2.2] at hab
    split_ifs at hab with hai hbi hbi
    · rw [hai, hbi]
    · exact absurd ⟨b, hb, hab.symm⟩ hc
    · exact absurd ⟨a, ha, hab⟩ hc
    · exact h.separate a b ha hb hab

theorem roots_replace {lost : List Nat} {t t' : ProcessTable} {i : Fin MAX_PROCESSES} {c : Nat}
    (h : Records lost t) (hc : c ∉ roots t) (hi : (t.processes i).pid ≠ 0)
    (hsame : ∀ j, (t'.processes j).pid = (t.processes j).pid ∧
      (t'.processes j).parentPid = (t.processes j).parentPid ∧
      (t'.processes j).cr3 = if j = i then c else (t.processes j).cr3) :
    roots t' ⊆ insert c (roots t) \ {(t.processes i).cr3} := by
  rintro d ⟨j, hj, rfl⟩
  rw [(hsame j).1] at hj
  rw [(hsame j).2.2]
  by_cases hji : j = i
  · rw [if_pos hji]
    exact ⟨Or.inl rfl, fun he => hc ⟨i, hi, he.symm⟩⟩
  · rw [if_neg hji]
    exact ⟨Or.inr ⟨j, hj, rfl⟩, fun he => hji (h.separate j i hj hi he)⟩

/-- A new space has another PML4 than the processes. -/
theorem Built.root_new {lost : List Nat} {p p' : Phys} {roots : Set Nat} {c : Nat}
    (hb : Built p p' c) (ho : Owned stock lost p roots) : c ∉ roots := fun hc =>
  (ho.held c hc c (holds_root ..)).2 (hb.taken c (holds_root ..)).1

/-- A child is removed. -/
theorem Inv.reap (h : Inv stock boot w) {i : Fin MAX_PROCESSES}
    (hpid : (w.kernel.table.processes i).pid ≠ 0)
    (hparent : (w.kernel.table.processes i).parentPid = w.kernel.table.currentPid) :
    Inv stock boot
      { w with
        phys := AddressSpace.deallocProcSpace w.phys (w.kernel.table.processes i).cr3
        kernel := { w.kernel with table := w.kernel.table.setSlot i .empty } } := by
  obtain ⟨lost, ho, hr, hcur⟩ := h
  have hr' := hr.clear i
  refine ⟨lost, (ho.release ⟨i, hpid, rfl⟩).mono (roots_clear hr hpid), hr', ?_⟩
  rcases hcur with ⟨h0, hboot, hstack⟩ | ⟨j, hne, hj, hcj⟩
  · refine Or.inl ⟨h0, hboot, ?_⟩
    show ¬ Shared (AddressSpace.deallocProcSpace w.phys _).mem boot 255
    rwa [AddressSpace.deallocProcSpace_mem]
  · -- a child is younger than its parent, so the current process stays
    have hjpid := ProcessTable.slotOf_pid hj
    have hji : j ≠ i := by
      rintro rfl
      have hlt := (hr.older j hpid).2
      rw [hparent, hjpid] at hlt
      exact Nat.lt_irrefl _ hlt
    have he : (w.kernel.table.setSlot i .empty).processes j = w.kernel.table.processes j :=
      Function.update_of_ne hji _ _
    have hslot' := hr'.distinct.slotOf_eq (i := j) (by rw [he, hjpid]; exact hne)
    rw [he, hjpid] at hslot'
    exact Or.inr ⟨j, hne, hslot', (congrArg Process.cr3 he).trans hcj⟩

/-- A process writes to its memory. -/
theorem Inv.store (h : Inv stock boot w) (hcur : w.kernel.table.currentPid ≠ 0) {vaddr leaf : Nat}
    (he : userLeaf w.phys.mem w.cr3 vaddr = some leaf) (b : UInt8) :
    Inv stock boot
      { w with phys := ⟨writeBytes w.phys.mem (addr leaf + vaddr % 4096) [b], w.phys.free⟩ } := by
  obtain ⟨i, hi, -, hc, hroot⟩ := h.current hcur
  obtain ⟨lost, ho, hr, -⟩ := h
  obtain ⟨hP, hreach⟩ := (userLeaf_eq_some.1 he).own (path_lt vaddr) rfl
  have hout := ho.page hroot hP rfl hreach
  exact ⟨lost, ho.write (isFrame_addr leaf).mod (fun x => store_out b) hout, hr,
    Or.inr ⟨i, hcur, hi, hc⟩⟩

variable (hs : Stock stock boot)
include hs

/-- A new space, with the arguments on its stack, takes the place of that of the
current process. -/
theorem Inv.replace (h : Inv stock boot w) (hcur : w.kernel.table.currentPid ≠ 0) {p : Phys}
    {c f : Nat} (hb : Built w.phys p c) {m : Store} (hf : f % 4096 = 0)
    (hm : ∀ x, ¬ InFrame f x → m x = p.mem x)
    (hno : ∀ t ∈ insert c (roots w.kernel.table), ¬ IsTable p.mem t f)
    (entryPoint userRsp : Nat) (name : List UInt8) (rsp : Nat) :
    Inv stock boot (World.switch
      { w with phys := AddressSpace.deallocProcSpace ⟨m, p.free⟩ w.cr3 }
      ((w.kernel.execReplace top entryPoint userRsp c name).restartCurrent rsp)) := by
  obtain ⟨i, hi, hpid, hci, hroot⟩ := h.current hcur
  obtain ⟨lost, ho, hr, -⟩ := h
  have hc : c ∉ roots w.kernel.table := hb.root_new ho
  have ho' := ((ho.add hs.frame hb).write hf hm hno).release (t := w.cr3) (Or.inr hroot)
  -- the new space is a PML4 of the stock, so it is not 0
  have hc0 : c ≠ 0 := fun h0 => hs.notNull (h0 ▸ ho.free (hb.taken c (holds_root ..)).1)
  obtain ⟨s, k', hk, hcr3, hcurrent, hnext, hsame⟩ :=
    @Scheduler.Kernel.execReplace_loads w.kernel top i hcur hi entryPoint userRsp c name rsp
  rw [hk]
  refine ⟨lost, ho'.mono ?_, hr.replace hc hnext hsame, Or.inr ⟨i, ?_, ?_, ?_⟩⟩
  · exact hci ▸ roots_replace hr hc hpid hsame
  · exact hcurrent.symm ▸ hcur
  · show k'.table.slotOf k'.table.currentPid = some i
    rw [hcurrent, ← hi]
    exact Cells.position_congr fun j => by rw [(hsame j).1]
  · show (k'.table.processes i).cr3 = if s.newCr3 = 0 then w.cr3 else s.newCr3
    rw [(hsame i).2.2, if_pos rfl, hcr3, if_neg hc0]

/-- One event. -/
theorem Inv.of_effect (h : Inv stock boot w) (heff : Effect mapTo top w e w')
    (hspares : e.Spares mapTo w) : Inv stock boot w' := by
  cases heff with
  | decide hw hsw => exact (h.within hs hw).switch hs hsw
  | fill hb hf hparent => exact h.fill hs hb hf hparent
  | reap hpid hparent => exact h.reap hpid hparent
  | replace hcur hload hb harg hm =>
    exact h.replace hs hcur hb (argFrame_mod harg) hm (hspares _ _ _ hload harg) _ _ _ _
  | store hcur he => exact h.store hcur he _

end Invariant

/-! ## What follows from the invariant -/

theorem userReach_reach {m : Store} {t g : Nat} {P : List Nat} (h : userReach m t P = some g) :
    reach m t P = some g ∧ ∀ i, P.getLast? = some i → UserTop m t i := by
  induction P generalizing g with
  | nil => exact ⟨h, by simp⟩
  | cons i P ih =>
    unfold userReach at h
    cases hP : userReach m t P with
    | none =>
      rw [hP] at h
      cases h
    | some k =>
      obtain ⟨hr, hlast⟩ := ih hP
      simp only [hP] at h
      split_ifs at h with hcond
      cases h
      refine ⟨reach_cons.2 ⟨k, hr, hcond.1.1, hcond.2, rfl⟩, fun j hj => ?_⟩
      cases P with
      | nil =>
        cases hj
        cases hP
        exact hcond.1
      | cons i' P => exact hlast j (by rwa [List.getLast?_cons_cons] at hj)

/-- The user frames of a space are frames of its user part. -/
theorem UserFrame.holds {m : Store} {t f : Nat} (hspace : Space m t) (h : UserFrame m t f) :
    Holds m t f := by
  rcases h with ⟨P, hP, hlen, hr⟩ | ⟨i, P, g, hP, hlen, hr, hu, hhuge, -⟩
  · obtain ⟨hreach, hlast⟩ := userReach_reach hr
    exact ⟨P, own_user ⟨hP, hlast⟩ hlen, hreach⟩
  · -- there are no huge pages in the user part
    obtain ⟨hreach, hlast⟩ := userReach_reach hr
    have hown : Own (Mine m t) (i :: P) := by
      refine own_user ⟨hP, fun j hj => ?_⟩ (by rw [List.length_cons]; omega)
      cases P with
      | nil =>
        cases hj
        cases hr
        exact hu
      | cons i' P => exact hlast j (by rwa [List.getLast?_cons_cons] at hj)
    exact absurd hhuge (by rw [hspace.tree.small i P g hown hlen hreach]; exact Bool.false_ne_true)

theorem Inv.isolated {stock : List Nat} {boot : Nat} {w : World} (h : Inv stock boot w) :
    Isolated w := by
  obtain ⟨lost, ho, hr, -⟩ := h
  have hroot : ∀ i, LiveSlot w.kernel.table i →
      (w.kernel.table.processes i).cr3 ∈ roots w.kernel.table := fun i hi => ⟨i, hi.1, rfl⟩
  refine ⟨fun i j f hi hj hij hf hf' => ?_, fun i f hi hf => ?_⟩
  · have hc := ho.apart _ (hroot i hi) _ (hroot j hj) f (hf.holds (ho.space _ (hroot i hi)))
      (hf'.holds (ho.space _ (hroot j hj)))
    exact hij (hr.separate i j hi.1 hj.1 hc)
  · exact (ho.held _ (hroot i hi) f (hf.holds (ho.space _ (hroot i hi)))).2

/-! ## Where the arguments go -/

/-- When the file is loaded, the frame behind the page at the top of its stack is
no frame of a process. -/
def SparesPages (mapTo : MapTo) (w : World) (elf : List UInt8) : Prop :=
  ∀ r p f, exec (loadElfIntoNewSpace mapTo w.cr3 elf) w.phys = (.ok r, p) →
    argFrame p.mem r.1 = some f → ∀ t ∈ roots w.kernel.table, ¬ Holds p.mem t f

/-- The condition on an event, for what the processes see. -/
def Event.SparesPages (mapTo : MapTo) (w : World) : Event → Prop
  | .exec elf _ _ _ => Memory.SparesPages mapTo w elf
  | _ => True

/-- When the file is loaded, the frame that gets the arguments is that of the page
at the top of the stack, as when the free frames are in order. -/
def NextPage (mapTo : MapTo) (w : World) (elf : List UInt8) : Prop :=
  ∀ r p f, exec (loadElfIntoNewSpace mapTo w.cr3 elf) w.phys = (.ok r, p) →
    argFrame p.mem r.1 = some f → (userLeaf p.mem r.1 USER_STACK_TOP).map addr = some f

/-- Then no table, and no page of another process, is written. -/
theorem Inv.spares {stock : List Nat} {boot : Nat} {w : World} {mapTo : MapTo} {elf : List UInt8}
    (hs : Stock stock boot) (hmap : FollowsWalk mapTo) (h : Inv stock boot w) (helf : UserElf elf)
    (hnext : NextPage mapTo w elf) : SparesTables mapTo w elf ∧ SparesPages mapTo w elf := by
  have hload := loadElfIntoNewSpace_built hmap (h.active hs) helf
  obtain ⟨lost, ho, -⟩ := h
  have hpage : ∀ r p f, exec (loadElfIntoNewSpace mapTo w.cr3 elf) w.phys = (.ok r, p) →
      argFrame p.mem r.1 = some f → Built w.phys p r.1 ∧
        ∃ P, Own (Mine p.mem r.1) P ∧ P.length = 4 ∧ reach p.mem r.1 P = some f := by
    intro r p f hx harg
    obtain ⟨e, he, rfl⟩ := Option.map_eq_some_iff.1 (hnext r p f hx harg)
    obtain ⟨hP, hreach⟩ := (userLeaf_eq_some.1 he).own (path_lt _) rfl
    exact ⟨hload.ok rfl hx, _, hP, rfl, hreach⟩
  refine ⟨fun r p f hx harg => ?_, fun r p f hx harg t ht hh => ?_⟩
  · obtain ⟨hb, P, hP, h4, hreach⟩ := hpage r p f hx harg
    exact (ho.add hs.frame hb).page (Or.inl rfl) hP h4 hreach
  · obtain ⟨hb, P, hP, h4, hreach⟩ := hpage r p f hx harg
    obtain rfl := (ho.add hs.frame hb).apart t (Or.inr ht) r.1 (Or.inl rfl) f hh ⟨P, hP, hreach⟩
    exact hb.root_new ho ht

theorem nextPage_of_decide {mapTo : MapTo} {w : World} {elf : List UInt8}
    (h : (match exec (loadElfIntoNewSpace mapTo w.cr3 elf) w.phys with
      | (.ok r, p) => decide ((userLeaf p.mem r.1 USER_STACK_TOP).map addr = argFrame p.mem r.1)
      | _ => true) = true) : NextPage mapTo w elf := by
  intro r p f hx harg
  rw [hx] at h
  exact (of_decide_eq_true h).trans harg

/-! ## Runs from boot -/

section Runs

variable {mapTo : MapTo} {top : Fin MAX_PROCESSES → Nat} {window : Nat} {w w' : World}

theorem Boot.stock (h : Boot w) : Stock w.phys.free w.cr3 where
  frame := h.active.freeFrame
  notNull := h.notNull
  count := h.count
  bootFrame := h.active.frame
  bootOut := h.active.taken

theorem Boot.inv (h : Boot w) : Inv w.phys.free w.cr3 w := by
  have hpid : ∀ i, (w.kernel.table.processes i).pid = 0 := fun i => by rw [h.kernel]; rfl
  have hroots : roots w.kernel.table = ∅ :=
    Set.eq_empty_of_forall_notMem fun c ⟨i, hi, _⟩ => hi (hpid i)
  refine ⟨[], hroots ▸ Owned.start h.active.freeNodup, ?_, Or.inl ⟨?_, rfl, h.active.stack⟩⟩
  · exact
      { next := by rw [h.kernel]; rfl
        distinct := fun i j hi _ => absurd (hpid i) hi
        older := fun i hi => absurd (hpid i) hi
        separate := fun i j hi _ _ => absurd (hpid i) hi }
  · rw [h.kernel]
    rfl

/-- The condition on an event in a state. -/
def Allowed (mapTo : MapTo) (w : World) (e : Event) : Prop := e.UserFiles ∧ e.Spares mapTo w

theorem Inv.step {stock : List Nat} {boot : Nat} (hs : Stock stock boot) (hmap : FollowsWalk mapTo)
    (h : Inv stock boot w) {e : Event} (hok : Allowed mapTo w e)
    (hstep : World.Step mapTo top window w e w') : Inv stock boot w' :=
  hstep ▸ h.of_effect hs (h.effect hs hmap window hok.1) hok.2

/-- The invariant of a run. -/
theorem Boot.run (hmap : FollowsWalk mapTo) (hboot : Boot w)
    (hrun : Reaches (World.Step mapTo top window) (Allowed mapTo) w w') :
    Inv w.phys.free w.cr3 w' :=
  hrun.invariant (fun _ _ _ h hok hstep => h.step hboot.stock hmap hok hstep) hboot.inv

end Runs

/-! ## A machine that runs -/

/-- A machine with 60 free frames. -/
def exampleBoot : World :=
  ⟨⟨fun _ => 0, (List.range 60).map fun i => 0x1000 * (i + 1)⟩, .boot, 0⟩

theorem exampleBoot_boot : Boot exampleBoot where
  kernel := rfl
  active :=
    { freeFrame := by decide +kernel
      freeNodup := by decide +kernel
      frame := by decide
      taken := by decide +kernel
      stack := fun hsh => by
        rw [Shared, exampleBoot, entry_of_zero fun _ _ => rfl] at hsh
        exact Bool.noConfusion hsh.2.1 }
  notNull := by decide +kernel
  count := by decide +kernel

/-- A program without segments. -/
def emptyElf : List UInt8 := elfFile 0 [] []

theorem emptyElf_user : UserElf emptyElf := fun entryPoint segments h => by
  have hparse : parseElfSegments emptyElf = .ok (0, []) := by decide +kernel
  cases hparse.symm.trans h
  exact fun seg hseg => nomatch hseg

/-- The top of the kernel stack of a slot. -/
def exampleTop (i : Fin MAX_PROCESSES) : Nat := 0x10000 * (i + 1)

/-- The world after a list of events. -/
def World.run (w : World) (l : List Event) : World := l.foldl (World.next walkTo exampleTop 0) w

/-! ## Isolation -/

/-- In every run from boot, the processes that are alive have no page and no page
table in common, and none of these is free. -/
theorem isolated_of_run {mapTo : MapTo} {top : Fin MAX_PROCESSES → Nat} {window : Nat}
    {w w' : World} (hmap : FollowsWalk mapTo) (hboot : Boot w)
    (hrun : Reaches (World.Step mapTo top window) (Allowed mapTo) w w') : Isolated w' :=
  (hboot.run hmap hrun).isolated

/-- `exec` is called before there is a process; then one is made, runs, forks and
exits. -/
theorem isolated_of_run_fork :
    Isolated (exampleBoot.run
      [.exec emptyElf [] 0 0, .spawn emptyElf [], .startScheduler, .tick .none 0, .tick .none 0,
        .tick .none 0, .tick .none 0, .tick .none 0, .fork (some 0), .exit 0 0]) := by
  have hnext : NextPage walkTo exampleBoot emptyElf := nextPage_of_decide (by decide +kernel)
  have hspares := exampleBoot_boot.inv.spares exampleBoot_boot.stock walkTo_follows emptyElf_user
    hnext
  exact isolated_of_run walkTo_follows exampleBoot_boot
    (.foldl ⟨⟨emptyElf_user, hspares.1⟩, ⟨emptyElf_user, trivial⟩, ⟨trivial, trivial⟩,
      ⟨trivial, trivial⟩, ⟨trivial, trivial⟩, ⟨trivial, trivial⟩, ⟨trivial, trivial⟩,
      ⟨trivial, trivial⟩, ⟨trivial, trivial⟩, ⟨trivial, trivial⟩, trivial⟩)

end AeroOS.Memory
