import AeroOS.Memory.Spaces
import AeroOS.Memory.Leaks
import AeroOS.Scheduler.ActiveSpace
import AeroOS.Syscalls.ExecArgs

/-!
# Address spaces over whole runs

The physical memory and the records of the kernel, over runs of `spawn`, `fork`,
`exec`, `exit` and `waitpid`.

* `Owned`: the spaces of the processes have no frame in common, and none is
  free.  It has one rule for each thing that happens to a space: frames are
  taken, a space is added, a page is written, a space is freed.
-/

namespace AeroOS.Memory

open AeroOS.Bytes AeroOS.Hoare AeroOS.Paging AeroOS.Run
open AeroOS.Proc

/-! ## Spaces that share nothing -/

/-- The spaces in `roots` consist of frames of `stock`.  They have no frame in
common, none is free, and none under a first entry is one of the frames `lost`,
which are not free either. -/
structure Owned (stock lost : List Nat) (p : Phys) (roots : Set Nat) : Prop where
  free : p.free ⊆ stock
  freeNodup : p.free.Nodup
  lostStock : lost ⊆ stock
  lostNodup : lost.Nodup
  lostTaken : ∀ f ∈ lost, f ∉ p.free
  space : ∀ t ∈ roots, Space p.mem t
  held : ∀ t ∈ roots, ∀ f, Holds p.mem t f → f ∈ stock ∧ f ∉ p.free
  apart : ∀ t ∈ roots, ∀ t' ∈ roots, ∀ f, Holds p.mem t f → Holds p.mem t' f → t = t'
  lostOut : ∀ t ∈ roots, ∀ f, Under p.mem t f → f ∉ lost

namespace Owned

variable {stock lost : List Nat} {p p' : Phys} {roots roots' : Set Nat} {t : Nat}

theorem start (hnodup : p.free.Nodup) : Owned p.free [] p ∅ where
  free := List.Subset.refl _
  freeNodup := hnodup
  lostStock := List.nil_subset _
  lostNodup := List.nodup_nil
  lostTaken := fun _ hf => nomatch hf
  space := fun _ ht => ht.elim
  held := fun _ ht => ht.elim
  apart := fun _ ht => ht.elim
  lostOut := fun _ ht => ht.elim

theorem mono (h : Owned stock lost p roots) (hsub : roots' ⊆ roots) :
    Owned stock lost p roots' :=
  { h with
    space := fun t ht => h.space t (hsub ht)
    held := fun t ht => h.held t (hsub ht)
    apart := fun t ht t' ht' => h.apart t (hsub ht) t' (hsub ht')
    lostOut := fun t ht => h.lostOut t (hsub ht) }

/-- What leaves the tables alone, and puts nothing on the free stack. -/
theorem congr (h : Owned stock lost p roots) (hfree : p'.free <:+ p.free)
    (hm : ∀ t ∈ roots, ∀ g x, IsTable p.mem t g → InFrame g x → p'.mem x = p.mem x) :
    Owned stock lost p' roots := by
  have hsame := fun t ht => (h.space t ht).congr (hm t ht)
  exact
    { h with
      free := fun f hf => h.free (hfree.subset hf)
      freeNodup := h.freeNodup.sublist hfree.sublist
      lostTaken := fun f hf hmem => h.lostTaken f hf (hfree.subset hmem)
      space := fun t ht => (hsame t ht).1
      held := fun t ht f hf => by
        obtain ⟨h1, h2⟩ := h.held t ht f (((hsame t ht).2.1 f).1 hf)
        exact ⟨h1, fun hmem => h2 (hfree.subset hmem)⟩
      apart := fun t ht t' ht' f hf hf' =>
        h.apart t ht t' ht' f (((hsame t ht).2.1 f).1 hf) (((hsame t' ht').2.1 f).1 hf')
      lostOut := fun t ht f hf => h.lostOut t ht f (((hsame t ht).2.2 f).1 hf) }

theorem lost_le (h : Owned stock lost p roots) : lost.length ≤ stock.length :=
  (List.subperm_of_subset h.lostNodup h.lostStock).length_le

section Steps

variable (hstock : ∀ f ∈ stock, IsFrame f)
include hstock

/-- The bytes of a space are not written while frames are taken. -/
theorem eq_of_within (h : Owned stock lost p roots) (hw : Within p p') (ht : t ∈ roots) {g x : Nat}
    (hg : Holds p.mem t g) (hx : InFrame g x) : p'.mem x = p.mem x :=
  hw.eq_of_not_free (fun f hf => hstock f (h.free hf)) ((h.space t ht).isFrame hg)
    (h.held t ht g hg).2 hx

/-- Frames are taken off the free stack. -/
theorem within (h : Owned stock lost p roots) (hw : Within p p') : Owned stock lost p' roots :=
  h.congr hw.free fun _ ht _ _ hg hx => h.eq_of_within hstock hw ht hg.holds hx

/-- A space is built. -/
theorem add (h : Owned stock lost p roots) (hb : Built p p' t) :
    Owned stock lost p' (insert t roots) := by
  have h' := h.within hstock hb.within
  have hold : ∀ s ∈ roots, ∀ f, Holds p'.mem s f → f ∉ p.free := fun s hs f hf => by
    have hsame := (h.space s hs).congr fun g x hg hx => h.eq_of_within hstock hb.within hs hg.holds hx
    exact (h.held s hs f ((hsame.2.1 f).1 hf)).2
  exact
    { h' with
      space := by
        rintro s (rfl | hs)
        · exact hb.space
        · exact h'.space s hs
      held := by
        rintro s (rfl | hs) f hf
        · obtain ⟨h1, h2⟩ := hb.taken f hf
          exact ⟨h.free h1, h2⟩
        · exact h'.held s hs f hf
      apart := by
        rintro s (rfl | hs) s' (rfl | hs') f hf hf'
        · rfl
        · exact absurd (hb.taken f hf).1 (hold s' hs' f hf')
        · exact absurd (hb.taken f hf').1 (hold s hs f hf)
        · exact h'.apart s hs s' hs' f hf hf'
      lostOut := by
        rintro s (rfl | hs) f hf
        · exact fun hlost => h.lostTaken f hlost (hb.taken f hf.holds).1
        · exact h'.lostOut s hs f hf }

end Steps

/-- A frame of the stack of a space will never be free again. -/
theorem lose (h : Owned stock lost p roots) (ht : t ∈ roots)
    (hnew : ∀ f ∈ lost, ¬ Holds p.mem t f) : ∃ f, Owned stock (f :: lost) p roots := by
  obtain ⟨f, hf, hout⟩ := (h.space t ht).exists_stack
  obtain ⟨hstock, htaken⟩ := h.held t ht f hf
  refine ⟨f, { h with
    lostStock := List.cons_subset.2 ⟨hstock, h.lostStock⟩
    lostNodup := List.nodup_cons.2 ⟨fun hmem => hnew f hmem hf, h.lostNodup⟩
    lostTaken := List.forall_mem_cons.2 ⟨htaken, h.lostTaken⟩
    lostOut := fun s hs g hg hmem => ?_ }⟩
  rcases List.mem_cons.1 hmem with rfl | hmem
  · obtain rfl := h.apart s hs t ht g hg.holds hf
    exact hout hg
  · exact h.lostOut s hs g hg hmem

/-- A space is freed. -/
theorem release (h : Owned stock lost p roots) (ht : t ∈ roots) :
    Owned stock lost (AddressSpace.deallocProcSpace p t) (roots \ {t}) := by
  obtain ⟨hmem, hnodup, -, hfree⟩ :=
    (h.space t ht).dealloc h.freeNodup fun f hf => (h.held t ht f hf).2
  have hsub : roots \ {t} ⊆ roots := Set.sdiff_subset
  generalize AddressSpace.deallocProcSpace p t = p' at hmem hnodup hfree ⊢
  obtain ⟨m, free⟩ := p'
  obtain rfl : m = p.mem := hmem
  exact
    { h.mono hsub with
      free := fun f hf => (hfree f hf).elim (fun hf => h.free hf) fun hu => (h.held t ht f hu.holds).1
      freeNodup := hnodup
      lostTaken := fun f hf hmem =>
        (hfree f hmem).elim (h.lostTaken f hf) fun hu => h.lostOut t ht f hu hf
      space := fun s hs => h.space s (hsub hs)
      held := fun s hs f hf => by
        obtain ⟨h1, h2⟩ := h.held s (hsub hs) f hf
        refine ⟨h1, fun hmem => (hfree f hmem).elim h2 fun hu => ?_⟩
        exact hs.2 (h.apart s (hsub hs) t ht f hf hu.holds)
      apart := fun s hs s' hs' => h.apart s (hsub hs) s' (hsub hs')
      lostOut := fun s hs => h.lostOut s (hsub hs) }

end Owned

/-! ## The machine -/

/-- The physical memory, the records of the kernel and the active PML4. -/
structure World where
  phys : Phys
  kernel : Scheduler.Kernel
  cr3 : Nat

/-- What happens to the machine.  The calls are those of the current process;
`sys_fork` is two events, with interrupts enabled in between. -/
inductive Event where
  | spawn (elf name : List UInt8)
  | fork (ctx : Option Nat)
  | buildChildStack (slot : Fin MAX_PROCESSES)
  | exec (elf name : List UInt8) (argv rsp : Nat)
  | exit (status : Int) (rsp : Nat)
  | waitpid (pid rsp : Nat)
  | kill (pid signum : Nat)
  | yieldNow (rsp : Nat)
  | tick (held : Scheduler.Locks) (rsp : Nat)
  | startScheduler
  /-- The current process writes a byte. -/
  | store (vaddr : Nat) (b : UInt8)

/-- The byte that the kernel reads at a virtual address. -/
def byteAt (m : Store) (cr3 v : Nat) : UInt8 := ((AddressSpace.translate m cr3 v).map m).getD 0

namespace World

/-- The world after a scheduling decision.  `switch_context` leaves CR3 alone
when the new space is 0. -/
def switch (w : World) (r : Option Scheduler.Switch × Scheduler.Kernel) : World where
  phys := w.phys
  kernel := r.2
  cr3 :=
    match r.1 with
    | some s => if s.newCr3 = 0 then w.cr3 else s.newCr3
    | none => w.cr3

section Calls

variable (mapTo : MapTo) (top : Fin MAX_PROCESSES → Nat) (window : Nat)

/-- `spawn_user_process`. -/
def spawn (elf name : List UInt8) (w : World) : World :=
  let r := spawnUserProcess mapTo w.cr3 top elf name w.phys w.kernel
  { w with phys := r.2.1, kernel := r.2.2 }

/-- `sys_fork`, up to the point where interrupts are enabled. -/
def fork (ctx : Option Nat) (w : World) : World :=
  match ctx, forkSource w.kernel.table with
  | some userRsp, some parent =>
    if w.kernel.table.currentPid = 0 then w
    else
      match Hoare.exec (AddressSpace.cloneUserSpace mapTo w.cr3 parent) w.phys with
      | (.error _, p) => { w with phys := p }
      | (.ok child, p) =>
        { w with phys := p, kernel := (w.kernel.forkProcess (some child) userRsp).2 }
  | _, _ => w

/-- `sys_exec`, from the image on.  The arguments are read from the old space
after the load. -/
def sysExec (elf name : List UInt8) (argv rsp : Nat) (w : World) : World :=
  if w.kernel.table.currentPid = 0 then w
  else
    let oldCr3 := ((w.kernel.table.get w.kernel.table.currentPid).map (·.cr3)).getD 0
    let loaded := (Hoare.exec (loadElfIntoNewSpace mapTo w.cr3 elf) w.phys).2
    match Syscalls.execImage mapTo w.cr3 window (byteAt loaded.mem w.cr3) argv oldCr3 elf w.phys with
    | (.error _, p) => { w with phys := p }
    | (.ok (entryPoint, userRsp, pml4), p) =>
      World.switch { w with phys := p }
        ((w.kernel.execReplace top entryPoint userRsp pml4 name).restartCurrent rsp)

/-- One round of the `sys_waitpid` loop.  `ProcessTable::free` frees the space of
the child. -/
def waitpid (pid rsp : Nat) (w : World) : World :=
  match Scheduler.Kernel.waitChild w.kernel.table pid with
  | none => w
  | some i =>
    if (w.kernel.table.processes i).state = .zombie then
      match w.kernel.table.free (w.kernel.table.processes i).pid with
      | some (cr3, t) =>
        { w with
          phys := AddressSpace.deallocProcSpace w.phys cr3
          kernel := { w.kernel with table := t } }
      | none => w
    else w.switch (w.kernel.yieldNow rsp)

/-- A write of the current process to a page that it may write. -/
def store (vaddr : Nat) (b : UInt8) (w : World) : World :=
  match userLeaf w.phys.mem w.cr3 vaddr with
  | some e =>
    if w.kernel.table.currentPid ≠ 0 ∧ writable e then
      { w with phys := ⟨writeBytes w.phys.mem (addr e + vaddr % 4096) [b], w.phys.free⟩ }
    else w
  | none => w

/-- The world after an event. -/
def next (w : World) : Event → World
  | .spawn elf name => w.spawn mapTo top elf name
  | .fork ctx => w.fork mapTo ctx
  | .buildChildStack slot => { w with kernel := w.kernel.buildChildStack top slot }
  | .exec elf name argv rsp => w.sysExec mapTo top window elf name argv rsp
  | .exit status rsp => w.switch (w.kernel.sysExit status rsp)
  | .waitpid pid rsp => w.waitpid pid rsp
  | .kill pid signum =>
    { w with kernel := { w.kernel with table := (w.kernel.table.sysKill pid signum).2 } }
  | .yieldNow rsp => w.switch (w.kernel.yieldNow rsp)
  | .tick held rsp => w.switch (w.kernel.onTimerTick held rsp)
  | .startScheduler => { w with kernel := w.kernel.startScheduler }
  | .store vaddr b => w.store vaddr b

def Step (w : World) (e : Event) (w' : World) : Prop := w' = w.next mapTo top window e

end Calls

/-- The records are those of `sys_waitpid`. -/
theorem waitpid_kernel (pid rsp : Nat) (w : World) :
    (w.waitpid pid rsp).kernel = (w.kernel.sysWaitpid pid rsp).2 := by
  unfold waitpid Scheduler.Kernel.sysWaitpid
  cases Scheduler.Kernel.waitChild w.kernel.table pid with
  | none => rfl
  | some i =>
    simp only
    split
    · cases w.kernel.table.free (w.kernel.table.processes i).pid with
      | none => rfl
      | some r => rfl
    · rfl

/-- With the stack of the child, the event is the call. -/
theorem fork_eq (mapTo : MapTo) (top : Fin MAX_PROCESSES → Nat) (ctx : Option Nat) (w : World) :
    (sysFork mapTo w.cr3 top ctx w.phys w.kernel).2.1 = (w.fork mapTo ctx).phys ∧
      (sysFork mapTo w.cr3 top ctx w.phys w.kernel).2.2.table = (w.fork mapTo ctx).kernel.table := by
  unfold sysFork fork
  cases ctx with
  | none => split <;> exact ⟨rfl, rfl⟩
  | some userRsp =>
    cases forkSource w.kernel.table with
    | none => split <;> exact ⟨rfl, rfl⟩
    | some parent =>
      simp only
      split
      · exact ⟨rfl, rfl⟩
      · rcases Hoare.exec (AddressSpace.cloneUserSpace mapTo w.cr3 parent) w.phys with ⟨r, p⟩
        cases r with
        | error e => exact ⟨rfl, rfl⟩
        | ok child =>
          simp only
          rcases w.kernel.forkProcess (some child) userRsp with ⟨r, k⟩
          cases r with
          | error e => exact ⟨rfl, rfl⟩
          | ok r => exact ⟨rfl, rfl⟩

end World

/-! ## What is claimed of a state -/

/-- The table or page that a path leads to through entries for the user. -/
def userReach (m : Store) (t : Nat) : List Nat → Option Nat
  | [] => some t
  | i :: P =>
    match userReach m t P with
    | none => none
    | some g =>
      if UserEntry (entry m g i) ∧ (huge (entry m g i) → P.length = 3) then
        some (addr (entry m g i))
      else none

/-- A huge page for the user maps the frame. -/
def MapsHuge (m : Store) (t f : Nat) : Prop :=
  ∃ i P g, (∀ j ∈ i :: P, j < 512) ∧ P.length < 3 ∧ userReach m t P = some g ∧
    UserEntry (entry m g i) ∧ huge (entry m g i) = true ∧
    addr (entry m g i) ≤ f ∧ f < addr (entry m g i) + 4096 * 512 ^ (3 - P.length)

/-- The PML4, a table or a page that is reached through entries for the user. -/
def UserFrame (m : Store) (t f : Nat) : Prop :=
  (∃ P, (∀ i ∈ P, i < 512) ∧ P.length ≤ 4 ∧ userReach m t P = some f) ∨ MapsHuge m t f

/-- The slot holds a process that has not exited. -/
def LiveSlot (t : ProcessTable) (i : Fin MAX_PROCESSES) : Prop :=
  (t.processes i).pid ≠ 0 ∧ (t.processes i).state ≠ .zombie

instance (t : ProcessTable) (i : Fin MAX_PROCESSES) : Decidable (LiveSlot t i) :=
  inferInstanceAs (Decidable (_ ∧ _))

/-- The user frames of live processes are apart, and none is free. -/
structure Isolated (w : World) : Prop where
  apart : ∀ i j f, LiveSlot w.kernel.table i → LiveSlot w.kernel.table j → i ≠ j →
    UserFrame w.phys.mem (w.kernel.table.processes i).cr3 f →
    ¬ UserFrame w.phys.mem (w.kernel.table.processes j).cr3 f
  taken : ∀ i f, LiveSlot w.kernel.table i →
    UserFrame w.phys.mem (w.kernel.table.processes i).cr3 f → f ∉ w.phys.free

/-- The machine before the first process.  The stack of free frames is what
`init` leaves: each frame once, at most `MAX_FRAMES`.  The bootloader keeps
frame 0 and the active PML4 to itself, and its entry for the stack is not an
entry of the kernel. -/
structure Boot (w : World) : Prop where
  kernel : w.kernel = .boot
  active : Active w.cr3 w.phys
  notNull : 0 ∉ w.phys.free
  count : w.phys.free.length ≤ MAX_FRAMES

/-- The segments of the file are in the first entry of the PML4. -/
def UserElf (elf : List UInt8) : Prop :=
  ∀ entryPoint segments, parseElfSegments elf = .ok (entryPoint, segments) → UserSegments segments

/-- The event loads only files with segments in the first entry. -/
def Event.UserFiles : Event → Prop
  | .spawn elf _ => UserElf elf
  | .exec elf _ _ _ => UserElf elf
  | _ => True

/-- The PML4 frames of the processes, zombies included. -/
def roots (t : ProcessTable) : Set Nat :=
  {c | ∃ i, (t.processes i).pid ≠ 0 ∧ (t.processes i).cr3 = c}

/-- The frame behind the page at the top of the stack. -/
def argFrame (m : Store) (pml4 : Nat) : Option Nat :=
  (AddressSpace.translate m pml4 (USER_STACK_TOP - 1)).map (· + 1)

/-- When the file is loaded, the frame behind the page at the top of its stack is
no table of the new space or of the space of a process. -/
def SparesTables (mapTo : MapTo) (w : World) (elf : List UInt8) : Prop :=
  ∀ r p f, exec (loadElfIntoNewSpace mapTo w.cr3 elf) w.phys = (.ok r, p) →
    argFrame p.mem r.1 = some f →
    ∀ t ∈ insert r.1 (roots w.kernel.table), ¬ IsTable p.mem t f

/-- The condition on an event. -/
def Event.Spares (mapTo : MapTo) (w : World) : Event → Prop
  | .exec elf _ _ _ => SparesTables mapTo w elf
  | _ => True

/-! ## The invariant -/

/-- The free frames at boot, and the PML4 of the bootloader. -/
structure Stock (stock : List Nat) (boot : Nat) : Prop where
  frame : ∀ f ∈ stock, IsFrame f
  notNull : 0 ∉ stock
  count : stock.length ≤ MAX_FRAMES
  bootFrame : IsFrame boot
  bootOut : boot ∉ stock

/-- The records of the processes.  Each pid that was given is paid for with a
frame that is lost, so the counter does not wrap. -/
structure Records (lost : List Nat) (t : ProcessTable) : Prop where
  next : t.nextPid = lost.length + 1
  distinct : Distinct t
  older : ∀ i, (t.processes i).pid ≠ 0 →
    (t.processes i).pid < t.nextPid ∧ (t.processes i).parentPid < (t.processes i).pid
  separate : ∀ i j, (t.processes i).pid ≠ 0 → (t.processes j).pid ≠ 0 →
    (t.processes i).cr3 = (t.processes j).cr3 → i = j

/-- The active PML4 is that of the current process, or of the bootloader when
there is none. -/
def CurrentSpace (boot : Nat) (w : World) : Prop :=
  w.kernel.table.currentPid = 0 ∧ w.cr3 = boot ∧ ¬ Shared w.phys.mem boot 255 ∨
    ∃ i, w.kernel.table.currentPid ≠ 0 ∧
      w.kernel.table.slotOf w.kernel.table.currentPid = some i ∧
      (w.kernel.table.processes i).cr3 = w.cr3

/-- The invariant of the machine. -/
def Inv (stock : List Nat) (boot : Nat) (w : World) : Prop :=
  ∃ lost, Owned stock lost w.phys (roots w.kernel.table) ∧ Records lost w.kernel.table ∧
    CurrentSpace boot w

open AeroOS.Scheduler (SameSpaces Edited Switched Filled)

section Records

variable {lost : List Nat} {t t' : ProcessTable} {i : Fin MAX_PROCESSES} {parent c f : Nat}

theorem roots_same (h : SameSpaces t t') : roots t' = roots t := by
  ext c
  refine exists_congr fun i => ?_
  rw [h.pid i, h.cr3 i]

theorem Records.same (h : Records lost t) (hs : SameSpaces t t') : Records lost t' where
  next := hs.next.trans h.next
  distinct := fun i j hi hij => h.distinct i j (hs.pid i ▸ hi) (by rw [← hs.pid i, ← hs.pid j, hij])
  older := fun i hi => by
    rw [hs.pid i] at hi
    rw [hs.pid i, hs.parentPid i, hs.next]
    exact h.older i hi
  separate := fun i j hi hj hc => by
    rw [hs.pid i] at hi
    rw [hs.pid j] at hj
    rw [hs.cr3 i, hs.cr3 j] at hc
    exact h.separate i j hi hj hc

theorem Records.nextNew (h : Records lost t) : NextNew t := fun i hi =>
  Nat.ne_of_lt (h.older i hi).1

theorem Records.next_ne (h : Records lost t) : t.nextPid ≠ 0 := by
  rw [h.next]
  exact Nat.succ_ne_zero _

/-- A process that is new. -/
theorem Records.fill (h : Records lost t) (hf : Filled t t' i parent c)
    (hparent : parent < t.nextPid) (hc : c ∉ roots t) (hlen : lost.length + 2 < 2 ^ 32) (f : Nat) :
    Records (f :: lost) t' := by
  have hother : ∀ j, j ≠ i → t'.processes j = t.processes j := hf.others
  have hnext : t'.nextPid = t.nextPid + 1 := by
    rw [hf.next, Nat.mod_eq_of_lt]
    rw [h.next]
    omega
  have hne : ∀ j, j ≠ i → (t'.processes j).pid ≠ 0 →
      (t'.processes j).pid ≠ (t'.processes i).pid := fun j hj hpid => by
    rw [hother j hj] at hpid ⊢
    rw [hf.pid]
    exact h.nextNew j hpid
  refine ⟨?_, fun a b ha hab => ?_, fun j hj => ?_, fun a b ha hb hab => ?_⟩
  · rw [hnext, h.next, List.length_cons]
  · by_cases hai : a = i <;> by_cases hbi : b = i
    · rw [hai, hbi]
    · subst hai
      exact absurd hab.symm (hne b hbi (hab ▸ ha))
    · subst hbi
      exact absurd hab (hne a hai ha)
    · rw [hother a hai] at ha hab
      rw [hother b hbi] at hab
      exact h.distinct a b ha hab
  · rw [hnext]
    by_cases hji : j = i
    · subst hji
      rw [hf.pid, hf.parentPid]
      exact ⟨Nat.lt_succ_self _, hparent⟩
    · rw [hother j hji] at hj ⊢
      obtain ⟨h1, h2⟩ := h.older j hj
      exact ⟨Nat.lt_succ_of_lt h1, h2⟩
  · have hout : ∀ j, j ≠ i → (t'.processes j).pid ≠ 0 → (t'.processes j).cr3 ≠ c :=
      fun j hj hpid he => by
        rw [hother j hj] at hpid he
        exact hc ⟨j, hpid, he⟩
    by_cases hai : a = i <;> by_cases hbi : b = i
    · rw [hai, hbi]
    · subst hai
      exact absurd (hab.symm.trans hf.cr3) (hout b hbi hb)
    · subst hbi
      exact absurd (hab.trans hf.cr3) (hout a hai ha)
    · rw [hother a hai] at ha hab
      rw [hother b hbi] at hb hab
      exact h.separate a b ha hb hab

theorem roots_fill (hf : Filled t t' i parent c) : roots t' ⊆ insert c (roots t) := by
  rintro d ⟨j, hj, rfl⟩
  by_cases hji : j = i
  · subst hji
    exact Or.inl hf.cr3
  · rw [hf.others j hji] at hj ⊢
    exact Or.inr ⟨j, hj, rfl⟩

/-- The slot of a process stays its slot. -/
theorem slotOf_fill (h : Records lost t') (hf : Filled t t' i parent c) {pid : Nat}
    {j : Fin MAX_PROCESSES} (hpid : pid ≠ 0) (hj : t.slotOf pid = some j) :
    t'.slotOf pid = some j ∧ t'.processes j = t.processes j := by
  have hp := ProcessTable.slotOf_pid hj
  have hji : j ≠ i := by
    rintro rfl
    exact hpid (hp.symm.trans hf.empty)
  have he := hf.others j hji
  refine ⟨?_, he⟩
  rw [← he] at hp
  rw [← hp]
  exact h.distinct.slotOf_eq (hp ▸ hpid)

/-- A process of the table without the slot. -/
theorem slot_clear {j : Fin MAX_PROCESSES} (hj : ((t.setSlot i .empty).processes j).pid ≠ 0) :
    j ≠ i ∧ (t.setSlot i .empty).processes j = t.processes j := by
  have hji : j ≠ i := by
    rintro rfl
    have hself : (t.setSlot j .empty).processes j = .empty := Function.update_self ..
    exact hj (congrArg Process.pid hself)
  exact ⟨hji, Function.update_of_ne hji _ _⟩

/-- A process is removed. -/
theorem Records.clear (h : Records lost t) (i : Fin MAX_PROCESSES) :
    Records lost (t.setSlot i .empty) where
  next := h.next
  distinct := fun a b ha hab => by
    obtain ⟨-, hea⟩ := slot_clear ha
    obtain ⟨-, heb⟩ := slot_clear (hab ▸ ha)
    rw [hea] at ha hab
    rw [heb] at hab
    exact h.distinct a b ha hab
  older := fun a ha => by
    obtain ⟨-, hea⟩ := slot_clear ha
    rw [hea] at ha ⊢
    exact h.older a ha
  separate := fun a b ha hb hab => by
    obtain ⟨-, hea⟩ := slot_clear ha
    obtain ⟨-, heb⟩ := slot_clear hb
    rw [hea] at ha hab
    rw [heb] at hb hab
    exact h.separate a b ha hb hab

theorem roots_clear (h : Records lost t) (hi : (t.processes i).pid ≠ 0) :
    roots (t.setSlot i .empty) ⊆ roots t \ {(t.processes i).cr3} := by
  rintro c ⟨j, hj, rfl⟩
  obtain ⟨hji, he⟩ := slot_clear hj
  rw [he] at hj ⊢
  exact ⟨⟨j, hj, rfl⟩, fun hc => hji (h.separate j i hj hi hc)⟩

end Records

section Steps

variable {stock : List Nat} {boot : Nat} {w : World} {p : Phys} (hs : Stock stock boot)
include hs

/-- The active PML4 can be copied from. -/
theorem Inv.active (h : Inv stock boot w) : Active w.cr3 w.phys := by
  obtain ⟨lost, ho, hr, hcur⟩ := h
  have hframe : ∀ f ∈ w.phys.free, IsFrame f := fun f hf => hs.frame f (ho.free hf)
  rcases hcur with ⟨-, hboot, hstack⟩ | ⟨i, hne, hi, hc⟩
  · rw [hboot]
    exact ⟨hframe, ho.freeNodup, hs.bootFrame, fun hf => hs.bootOut (ho.free hf), hstack⟩
  · have hpid : (w.kernel.table.processes i).pid ≠ 0 := by
      rw [ProcessTable.slotOf_pid hi]
      exact hne
    have hroot : w.cr3 ∈ roots w.kernel.table := ⟨i, hpid, hc⟩
    have hspace := ho.space _ hroot
    refine ⟨hframe, ho.freeNodup, hspace.tree.root, (ho.held _ hroot _ (holds_root ..)).2,
      fun hsh => ?_⟩
    obtain ⟨P, e, -, hlast, -, hu⟩ := hspace.stack
    exact Bool.noConfusion (hsh.2.2.symm.trans (hu.2.2 255 hlast).2)

/-- The PML4 of the bootloader is not written while frames are taken. -/
theorem shared_boot (ho : w.phys.free ⊆ stock) (hw : Within w.phys p) :
    Shared p.mem boot 255 ↔ Shared w.phys.mem boot 255 := by
  have he := hw.entry (fun f hf => hs.frame f (ho hf)) hs.bootFrame
    (fun hf => hs.bootOut (ho hf)) (show 255 < 512 by decide)
  rw [Shared, Shared, he]

/-- Frames are taken. -/
theorem Inv.within (h : Inv stock boot w) (hw : Within w.phys p) :
    Inv stock boot { w with phys := p } := by
  obtain ⟨lost, ho, hr, hcur⟩ := h
  refine ⟨lost, ho.within hs.frame hw, hr, hcur.imp_left ?_⟩
  rintro ⟨h0, hboot, hstack⟩
  exact ⟨h0, hboot, mt (shared_boot hs ho.free hw).1 hstack⟩

/-- The scheduler decides. -/
theorem Inv.switch (h : Inv stock boot w) {r : Option Scheduler.Switch × Scheduler.Kernel}
    (hsw : Switched w.kernel r) : Inv stock boot (w.switch r) := by
  obtain ⟨lost, ho, hr, hcur⟩ := h
  obtain ⟨sw, k⟩ := r
  refine ⟨lost, (roots_same hsw.same).symm ▸ ho, hr.same hsw.same, ?_⟩
  cases sw with
  | none =>
    have hstay : k.table.currentPid = w.kernel.table.currentPid := hsw.stays rfl
    refine hcur.imp (fun hb => ⟨hstay.trans hb.1, hb.2⟩) ?_
    rintro ⟨i, hne, hi, hc⟩
    refine ⟨i, hstay.symm ▸ hne, ?_, (hsw.same.cr3 i).trans hc⟩
    exact (hsw.same.slotOf _).trans (hstay.symm ▸ hi)
  | some s =>
    obtain ⟨hne, i, hi, hc⟩ := hsw.loads s rfl
    have hpid : (w.kernel.table.processes i).pid ≠ 0 := by
      rw [ProcessTable.slotOf_pid hi]
      exact hne
    -- the new space is a PML4 of the stock, so it is not 0
    have hc0 : s.newCr3 ≠ 0 := fun h0 => by
      have hheld := ho.held s.newCr3 ⟨i, hpid, hc.symm⟩ _ (holds_root ..)
      exact hs.notNull (h0 ▸ hheld.1)
    refine Or.inr ⟨i, hne, (hsw.same.slotOf _).trans hi, ?_⟩
    show (k.table.processes i).cr3 = if s.newCr3 = 0 then w.cr3 else s.newCr3
    rw [if_neg hc0, hc]
    exact hsw.same.cr3 i

/-- The records are edited. -/
theorem Inv.edit (h : Inv stock boot w) {k : Scheduler.Kernel}
    (he : Edited w.kernel.table k.table) : Inv stock boot { w with kernel := k } :=
  h.switch hs (r := (none, k)) ⟨he.toSameSpaces, fun _ => he.current, fun _ hn => nomatch hn⟩

/-- A process with a new space. -/
theorem Inv.fill (h : Inv stock boot w) {c parent : Nat} (hb : Built w.phys p c)
    {k : Scheduler.Kernel} {i : Fin MAX_PROCESSES}
    (hf : Filled w.kernel.table k.table i parent c)
    (hparent : parent = 0 ∨ parent = w.kernel.table.currentPid) :
    Inv stock boot { w with phys := p, kernel := k } := by
  obtain ⟨lost, ho, hr, hcur⟩ := h
  have hnew : ∀ g, Holds p.mem c g → g ∈ w.phys.free := fun g hg => (hb.taken g hg).1
  have hc : c ∉ roots w.kernel.table := fun hc =>
    (ho.held c hc c (holds_root ..)).2 (hnew c (holds_root ..))
  obtain ⟨f, ho'⟩ := (ho.add hs.frame hb).lose (Set.mem_insert c _) fun g hg hh =>
    ho.lostTaken g hg (hnew g hh)
  have hlen : lost.length + 1 ≤ 32768 := ho'.lost_le.trans hs.count
  have hlt : parent < w.kernel.table.nextPid := by
    rcases hparent with rfl | rfl
    · exact Nat.pos_of_ne_zero hr.next_ne
    · rcases hcur with ⟨h0, -⟩ | ⟨j, hne, hj, -⟩
      · rw [h0]
        exact Nat.pos_of_ne_zero hr.next_ne
      · rw [← ProcessTable.slotOf_pid hj] at hne ⊢
        exact (hr.older j hne).1
  have hr' := hr.fill hf hlt hc (by omega) f
  refine ⟨f :: lost, ho'.mono (roots_fill hf), hr', ?_⟩
  rcases hcur with ⟨h0, hboot, hstack⟩ | ⟨j, hne, hj, hcj⟩
  · exact Or.inl ⟨hf.current.trans h0, hboot, mt (shared_boot hs ho.free hb.within).1 hstack⟩
  · obtain ⟨hj', he⟩ := slotOf_fill hr' hf hne hj
    refine Or.inr ⟨j, hf.current.symm ▸ hne, hf.current.symm ▸ hj', ?_⟩
    show (k.table.processes j).cr3 = w.cr3
    rw [he, hcj]

omit hs in
/-- The current process and its slot. -/
theorem Inv.current (h : Inv stock boot w) (hcur : w.kernel.table.currentPid ≠ 0) :
    ∃ i, w.kernel.table.slotOf w.kernel.table.currentPid = some i ∧
      (w.kernel.table.processes i).pid ≠ 0 ∧ (w.kernel.table.processes i).cr3 = w.cr3 ∧
      w.cr3 ∈ roots w.kernel.table := by
  obtain ⟨-, -, -, ⟨h0, -⟩ | ⟨i, hne, hi, hc⟩⟩ := h
  · exact absurd h0 hcur
  · have hpid : (w.kernel.table.processes i).pid ≠ 0 := by
      rw [ProcessTable.slotOf_pid hi]
      exact hne
    exact ⟨i, hi, hpid, hc, i, hpid, hc⟩

end Steps

end AeroOS.Memory
