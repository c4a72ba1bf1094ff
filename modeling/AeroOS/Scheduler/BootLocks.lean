import Mathlib.Data.List.Infix
import AeroOS.Lib.Sections
import AeroOS.Scheduler.ForkWindow

/-!
# The locks of the boot thread

`start_scheduler` enables the scheduler while interrupts are on, and the boot
thread goes on: it prints two messages and halts.  A tick can switch away from
it at any point, and its context is never resumed.

* The boot thread and the trampoline of each process are code with critical
  sections; ticks come between two operations.  The trampoline runs in the
  interrupt handler, which is not interrupted.
* `tickLocks` are the locks that one tick takes with a blocking `lock()`.
* `Quiet` is the condition: no tick picks a process while the boot thread is
  inside a print to `COM1`.  `unblocked_of_run`: in a run that meets it no context
  waits for a lock that is held.  `exists_blocks_of_not_quiet` is the converse: any
  other tick ends in a wait.
-/

namespace AeroOS.Scheduler

open AeroOS.Proc
open AeroOS.Run AeroOS.Sections

/-- The spin locks of the kernel. -/
inductive KernelLock where
  | com1 | vga | table | sched | kernelStacks
  deriving DecidableEq, Repr

/-- Work between the lock operations. -/
inductive Work where
  /-- `active = true`. -/
  | activate
  deriving DecidableEq, Repr

/-- The contexts: the boot thread, and the kernel code of each slot's process. -/
inductive Ctx where
  | boot
  | proc (slot : Fin MAX_PROCESSES)
  deriving DecidableEq, Repr

/-! ## Code -/

/-- `serial::_print`. -/
def serialPrint : List (Op KernelLock Work) := [.lock .com1, .unlock .com1]

/-- `vga_buffer::_print`. -/
def vgaPrint : List (Op KernelLock Work) := [.lock .vga, .unlock .vga]

/-- `start_scheduler`, then the message of `kernel_main`, up to the halt loop. -/
def bootCode : List (Op KernelLock Work) :=
  [.lock .sched, .work .activate, .unlock .sched] ++ serialPrint ++ serialPrint ++ vgaPrint

/-- `user_trampoline`, up to `enter_usermode`. -/
def userTrampoline : List (Op KernelLock Work) :=
  [.lock .table, .unlock .table] ++ serialPrint

namespace Kernel

/-- The blocking locks of `do_context_switch`.  The processes of the table are listed
when the new one has no context. -/
def switchLocks (held : Locks) (old new : Nat) (k : Kernel) : List KernelLock :=
  .table ::
    match k.table.slotOf new with
    | none => []
    | some newSlot =>
      (if old = 0 then [] else [.table]) ++
        if held.kernelStacks then []
        else if (k.kernelStacks newSlot).initialised then []
        else
          List.replicate MAX_PROCESSES .com1 ++ .table ::
            ((List.finRange MAX_PROCESSES).filter fun i => (k.table.processes i).pid ≠ 0).map
              fun _ => .com1

/-- The blocking locks of `schedule`. -/
def scheduleLocks (held : Locks) (k : Kernel) : List KernelLock :=
  if held.table then []
  else
    match k.findNextReady k.table.currentPid with
    | none => []
    | some next =>
      if next = k.table.currentPid then [.sched] else switchLocks held k.table.currentPid next k

/-- The blocking locks of `deliver_pending_into`: a signal that kills is reported. -/
def deliverLocks (t : ProcessTable) : List KernelLock :=
  match t.get t.currentPid with
  | none => []
  | some p =>
    if p.pendingSignals ≠ 0 ∧ (p.hasPending SIGKILL ∨ p.hasPending SIGTERM) then [.com1] else []

/-- The blocking locks of `on_timer_tick`. -/
def tickLocks (held : Locks) (k : Kernel) : List KernelLock :=
  if held.sched then []
  else if !k.sched.active then []
  else
    let k := { k with sched := tickSlice k.sched }
    if k.sched.currentSlice = 0 then scheduleLocks held k
    else if held.table then []
    else if k.table.currentPid = 0 then []
    else
      deliverLocks k.table ++
        let k := { k with table := k.table.deliverPendingInto }
        match k.table.get k.table.currentPid with
        | some p => if p.state = .zombie then scheduleLocks held k else []
        | none => []

/-- A tick picks a process other than the current one. -/
def Picks (held : Locks) (k : Kernel) : Prop :=
  k.schedules held ∧
    ∃ next, k.findNextReady k.table.currentPid = some next ∧ next ≠ k.table.currentPid

end Kernel

/-! ## Runs -/

/-- The kernel, the context that the CPU runs, and the code that each context has
left.  A process without code is in user mode; the boot thread without code is
halted. -/
structure BootRun where
  kernel : Kernel
  running : Ctx
  contexts : Contexts Ctx KernelLock Work

/-- The running context's next operation, or a timer tick. -/
inductive BootAction where
  | advance
  | tick (rsp : Nat)
  deriving DecidableEq, Repr

namespace BootRun

/-- The boot thread calls `start_scheduler`; no process has run. -/
def start (k : Kernel) : BootRun where
  kernel := k
  running := .boot
  contexts :=
    { code := fun c => match c with
        | .boot => bootCode
        | .proc _ => userTrampoline
      holder := fun _ => none }

/-- The locks that a tick finds held. -/
def held (s : BootRun) : Locks where
  table := (s.contexts.holder .table).isSome
  kernelStacks := (s.contexts.holder .kernelStacks).isSome
  sched := (s.contexts.holder .sched).isSome

/-- Interrupts are enabled in the boot thread and in user mode. -/
def Interruptible (s : BootRun) : Prop :=
  s.running = .boot ∨ s.contexts.code s.running = []

instance (s : BootRun) : Decidable s.Interruptible := inferInstanceAs (Decidable (_ ∨ _))

/-- A tick waits for a lock. -/
def TickBlocks (s : BootRun) : Prop :=
  ∃ l ∈ s.kernel.tickLocks s.held, (s.contexts.holder l).isSome

instance (s : BootRun) : Decidable s.TickBlocks := inferInstanceAs (Decidable (∃ _ ∈ _, _))

/-- The next state.  Who waits for a lock stays where it is. -/
def next (s : BootRun) : BootAction → BootRun
  | .advance =>
    { s with
      kernel :=
        if (s.contexts.code s.running).head? = some (.work .activate) then
          s.kernel.startScheduler
        else s.kernel
      contexts := s.contexts.advance s.running }
  | .tick rsp =>
    if s.Interruptible ∧ ¬ s.TickBlocks then
      match s.kernel.onTimerTick s.held rsp with
      | (none, k) => { s with kernel := k }
      | (some _, k) => { s with kernel := k, running := (k.rsp0.map .proc).getD s.running }
    else s

/-- One step of a run. -/
def Step (s : BootRun) (a : BootAction) (s' : BootRun) : Prop := s' = s.next a

/-- The action takes a lock that is held, with a blocking `lock()`. -/
def Blocks (s : BootRun) : BootAction → Prop
  | .advance => ∃ l, s.contexts.BlocksOn s.running l
  | .tick _ => s.Interruptible ∧ s.TickBlocks

/-- No tick picks a process while the boot thread is inside a print to `COM1`. -/
def Quiet (s : BootRun) : BootAction → Prop
  | .advance => True
  | .tick _ =>
    s.running = .boot → inside (s.contexts.code .boot) = some .com1 → ¬ s.kernel.Picks s.held

end BootRun

/-! ## The locks of a tick -/

namespace Kernel

variable {k : Kernel} {held : Locks}

theorem mem_switchLocks {old new : Nat} {l : KernelLock} (h : l ∈ switchLocks held old new k) :
    l = .table ∨ l = .com1 := by
  unfold switchLocks at h
  cases hslot : k.table.slotOf new with
  | none => simp_all
  | some i =>
    simp only [hslot, List.mem_cons, List.mem_append] at h
    rcases h with h | h | h
    · exact Or.inl h
    · split at h
      · cases h
      · exact Or.inl (List.mem_singleton.1 h)
    · split at h
      · cases h
      · split at h
        · cases h
        · simp only [List.mem_append, List.mem_replicate, List.mem_cons, List.mem_map] at h
          rcases h with ⟨-, h⟩ | h | ⟨-, -, h⟩
          · exact Or.inr h
          · exact Or.inl h
          · exact Or.inr h.symm

/-- `schedule` waits for `COM1` only when it picks another process. -/
theorem mem_scheduleLocks {l : KernelLock} (h : l ∈ scheduleLocks held k) :
    l = .table ∨ l = .sched ∨ l = .com1 ∧
      ∃ next, k.findNextReady k.table.currentPid = some next ∧ next ≠ k.table.currentPid := by
  unfold scheduleLocks at h
  split at h
  · cases h
  · cases hnext : k.findNextReady k.table.currentPid with
    | none => simp [hnext] at h
    | some next =>
      simp only [hnext] at h
      split at h
      · exact Or.inr (Or.inl (List.mem_singleton.1 h))
      · rename_i hne
        rcases mem_switchLocks h with h | h
        · exact Or.inl h
        · exact Or.inr (Or.inr ⟨h, next, rfl, hne⟩)

/-- A tick takes no lock when the scheduler lock is held; in the boot thread it waits
for `COM1` only when it picks a process. -/
theorem mem_tickLocks {l : KernelLock} (h : l ∈ tickLocks held k) :
    held.sched = false ∧ l ≠ .vga ∧ l ≠ .kernelStacks ∧
      (l = .com1 → k.table.currentPid = 0 → k.Picks held) := by
  unfold tickLocks at h
  split at h
  · cases h
  rename_i hsched
  split at h
  · cases h
  rename_i hactive
  simp only at h
  refine ⟨by simpa using hsched, ?_⟩
  split at h
  · rename_i hslice
    have hsch : k.schedules held := ⟨by simpa using hsched, by simpa using hactive, Or.inl hslice⟩
    rcases mem_scheduleLocks h with rfl | rfl | ⟨rfl, hnext⟩
    · simp
    · simp
    · exact ⟨by simp, by simp, fun _ _ => ⟨hsch, hnext⟩⟩
  split at h
  · cases h
  split at h
  · cases h
  rename_i hcur
  have hmem : l = .table ∨ l = .sched ∨ l = .com1 := by
    rcases List.mem_append.1 h with h | h
    · unfold deliverLocks at h
      split at h
      · cases h
      · split at h
        · exact Or.inr (Or.inr (List.mem_singleton.1 h))
        · cases h
    · split at h
      · split at h
        · exact (mem_scheduleLocks h).imp_right (·.imp_right And.left)
        · cases h
      · cases h
  refine ⟨?_, ?_, fun _ h0 => absurd h0 hcur⟩
  · rintro rfl
    simp at hmem
  · rintro rfl
    simp at hmem

/-! ## The outcome of a tick -/

/-- A context switch is completed, or the current process stays. -/
theorem doContextSwitch_outcome (hs : held.sched = false) (rsp old new : Nat) :
    (∃ k', k.doContextSwitch held rsp old new = (none, k') ∧
        k'.table.currentPid = k.table.currentPid) ∨
      ∃ sw k' i, k.doContextSwitch held rsp old new = (some sw, k') ∧ k'.rsp0 = some i := by
  rcases k.doContextSwitch_cases held rsp old new with h |
    ⟨i, -, -, ⟨-, h⟩ | ⟨-, ⟨hheld, -⟩ | ⟨newCr3, h⟩⟩⟩
  · exact Or.inl ⟨k, h, rfl⟩
  · exact Or.inl ⟨_, h, rfl⟩
  · rw [hs] at hheld
    cases hheld
  · exact Or.inr ⟨_, _, i, h, rfl⟩

theorem schedule_outcome (hs : held.sched = false) (rsp : Nat) :
    (∃ k', k.schedule held rsp = (none, k') ∧ k'.table.currentPid = k.table.currentPid) ∨
      (∃ next, k.findNextReady k.table.currentPid = some next ∧ next ≠ k.table.currentPid) ∧
        ∃ sw k' i, k.schedule held rsp = (some sw, k') ∧ k'.rsp0 = some i := by
  unfold schedule
  split
  · exact Or.inl ⟨k, rfl, rfl⟩
  · cases hnext : k.findNextReady k.table.currentPid with
    | none => exact Or.inl ⟨k, rfl, rfl⟩
    | some next =>
      simp only
      split
      · exact Or.inl ⟨_, rfl, rfl⟩
      · rename_i hne
        exact (doContextSwitch_outcome hs rsp k.table.currentPid next).imp_right
          fun h => ⟨⟨next, rfl, hne⟩, h⟩

/-- A tick leaves the current process, or switches; in the boot thread a switch is to a
process that it picks. -/
theorem onTimerTick_outcome (k : Kernel) (held : Locks) (rsp : Nat) :
    (∃ k', k.onTimerTick held rsp = (none, k') ∧ k'.table.currentPid = k.table.currentPid) ∨
      (k.table.currentPid = 0 → k.Picks held) ∧
        ∃ sw k' i, k.onTimerTick held rsp = (some sw, k') ∧ k'.rsp0 = some i := by
  obtain ⟨t, sched, ht, h⟩ := k.onTimerTick_cases held rsp
  have hcur : t.currentPid = k.table.currentPid := by
    rcases ht with rfl | ⟨-, rfl⟩
    · rfl
    · exact ProcessTable.deliverPendingInto_currentPid _
  rcases h with h | ⟨hsch, h⟩
  · exact Or.inl ⟨_, h, hcur⟩
  · rw [h]
    rcases schedule_outcome (k := { k with table := t, sched := sched }) hsch.1 rsp with
      ⟨k', h, hk'⟩ | ⟨hnext, h⟩
    · exact Or.inl ⟨k', h, hk'.trans hcur⟩
    · refine Or.inr ⟨fun h0 => ⟨hsch, ?_⟩, h⟩
      -- the boot thread gets no signals
      have ht' : t = k.table := by
        rcases ht with rfl | ⟨-, rfl⟩
        · rfl
        · exact if_pos h0
      subst ht'
      exact hnext

/-- The tick that ends the slice, with another process ready. -/
theorem tick_of_picks (rsp : Nat) {next : Nat} (hactive : k.sched.active = true)
    (hslice : (tickSlice k.sched).currentSlice = 0)
    (hnext : k.findNextReady k.table.currentPid = some next) (hne : next ≠ k.table.currentPid) :
    let k' := { k with sched := tickSlice k.sched }
    tickLocks .none k = switchLocks .none k.table.currentPid next k' ∧
      k.onTimerTick .none rsp = doContextSwitch .none rsp k.table.currentPid next k' := by
  have hnext' : findNextReady { k with sched := tickSlice k.sched } k.table.currentPid =
      some next := hnext
  refine ⟨?_, ?_⟩
  · simp [tickLocks, scheduleLocks, Locks.none, hactive, hslice, hnext', hne]
  · simp [onTimerTick, schedule, Locks.none, hactive, hslice, hnext', hne]

end Kernel

/-! ## The invariant -/

namespace BootRun

/-- What holds in every run of quiet steps. -/
structure Inv (s : BootRun) : Prop where
  disciplined : s.contexts.Disciplined
  /-- The boot thread is somewhere in its code. -/
  boot : s.contexts.code .boot <:+ bootCode
  proc : ∀ i, s.contexts.code (.proc i) <:+ userTrampoline
  /-- A process that does not run is at the start of its code, or in user mode. -/
  suspended : ∀ i, s.running ≠ .proc i → inside (s.contexts.code (.proc i)) = none
  /-- While the boot thread runs, no process has run. -/
  fresh : s.running = .boot →
    s.kernel.table.currentPid = 0 ∧ ∀ i, s.contexts.code (.proc i) = userTrampoline
  /-- The boot thread was not left inside a print to the serial line. -/
  left : s.running ≠ .boot → inside (s.contexts.code .boot) ≠ some .com1

theorem bootCode_inside {ops : List (Op KernelLock Work)} (h : ops <:+ bootCode) :
    inside ops ≠ some .table ∧ inside ops ≠ some .kernelStacks := by
  have hall : ∀ ops ∈ bootCode.tails,
      inside ops ≠ some .table ∧ inside ops ≠ some .kernelStacks := by decide
  exact hall ops ((List.mem_tails _ _).2 h)

theorem userTrampoline_head {ops : List (Op KernelLock Work)} (h : ops <:+ userTrampoline)
    {l : KernelLock} (hl : ops.head? = some (.lock l)) : l = .table ∨ l = .com1 := by
  have hall : ∀ ops ∈ userTrampoline.tails, ∀ op ∈ ops.head?,
      op = .lock .table ∨ op = .lock .com1 ∨ op = .unlock .table ∨ op = .unlock .com1 := by decide
  simpa using hall ops ((List.mem_tails _ _).2 h) _ hl

theorem inv_start {k : Kernel} (hk : k.table.currentPid = 0) : Inv (start k) where
  disciplined := by
    refine ⟨fun c => ?_, fun l c => ?_⟩
    · cases c with
      | boot => simp [start, bootCode, serialPrint, vgaPrint, InSections, inside]
      | proc i => simp [start, userTrampoline, serialPrint, InSections, inside]
    · cases c with
      | boot => simp [start, bootCode, inside]
      | proc i => simp [start, userTrampoline, inside]
  boot := List.suffix_rfl
  proc _ := List.suffix_rfl
  suspended _ _ := rfl
  fresh _ := ⟨hk, fun _ => rfl⟩
  left h := absurd rfl h

namespace Inv

variable {s : BootRun}

theorem advance (hi : Inv s) : Inv (s.next .advance) where
  disciplined := hi.disciplined.advance s.running
  boot := (s.contexts.advance_code s.running .boot).1.trans hi.boot
  proc i := (s.contexts.advance_code s.running (.proc i)).1.trans (hi.proc i)
  suspended i hne := by
    have hsame := (s.contexts.advance_code s.running (.proc i)).2 (Ne.symm hne)
    exact (congrArg inside hsame).trans (hi.suspended i hne)
  fresh hrun := by
    obtain ⟨hcur, hcode⟩ := hi.fresh hrun
    refine ⟨?_, fun i => ?_⟩
    · simp only [next]
      split <;> exact hcur
    · have hne : Ctx.proc i ≠ s.running := by
        rintro h
        cases h.trans hrun
      exact ((s.contexts.advance_code s.running (.proc i)).2 hne).trans (hcode i)
  left hne h := by
    have hsame := (s.contexts.advance_code s.running .boot).2 (Ne.symm hne)
    exact hi.left hne ((congrArg inside hsame).symm.trans h)

/-- Only the running process is inside a lock among the processes, so a tick finds none
inside. -/
theorem proc_outside (hi : Inv s) (hint : s.Interruptible) (i : Fin MAX_PROCESSES) :
    inside (s.contexts.code (.proc i)) = none := by
  by_cases hrun : s.running = .proc i
  · rcases hint with h | h
    · rw [hrun] at h
      cases h
    · rw [← hrun, h]
      rfl
  · exact hi.suspended i hrun

/-- A lock that is held when a tick comes is held by the boot thread. -/
theorem held_of_tick (hi : Inv s) (hint : s.Interruptible) {l : KernelLock}
    (hl : (s.contexts.holder l).isSome) : inside (s.contexts.code .boot) = some l := by
  obtain ⟨c, hc⟩ := hi.disciplined.isSome_iff.1 hl
  cases c with
  | boot => exact hc
  | proc i =>
    rw [hi.proc_outside hint i] at hc
    cases hc

/-- In a run that keeps the condition a tick does not wait. -/
theorem not_tickBlocks (hi : Inv s) {rsp : Nat} (hq : s.Quiet (.tick rsp))
    (hint : s.Interruptible) : ¬ s.TickBlocks := by
  rintro ⟨l, hl, hheld⟩
  have hboot := hi.held_of_tick hint hheld
  obtain ⟨hsched, hvga, hstack, hpicks⟩ := Kernel.mem_tickLocks hl
  have hno := bootCode_inside hi.boot
  cases l with
  | com1 =>
    by_cases hrun : s.running = .boot
    · exact hq hrun hboot (hpicks rfl (hi.fresh hrun).1)
    · exact hi.left hrun hboot
  | vga => exact hvga rfl
  | table => exact hno.1 hboot
  | sched =>
    rw [held, hheld] at hsched
    cases hsched
  | kernelStacks => exact hno.2 hboot

theorem tick (hi : Inv s) {rsp : Nat} (hq : s.Quiet (.tick rsp)) : Inv (s.next (.tick rsp)) := by
  simp only [next]
  split
  · rename_i h
    obtain ⟨hint, -⟩ := h
    rcases s.kernel.onTimerTick_outcome s.held rsp with
      ⟨k, hk, hcur⟩ | ⟨hpicks, sw, k, i, hk, hrsp0⟩
    · rw [hk]
      exact { hi with fresh := fun hrun => ⟨hcur.trans (hi.fresh hrun).1, (hi.fresh hrun).2⟩ }
    · simp only [hk, hrsp0, Option.map_some, Option.getD_some]
      refine { hi with suspended := ?_, fresh := ?_, left := ?_ }
      · exact fun j _ => hi.proc_outside hint j
      · intro hrun
        cases hrun
      · intro _ hboot
        by_cases hrun : s.running = .boot
        · exact hq hrun hboot (hpicks (hi.fresh hrun).1)
        · exact hi.left hrun hboot
  · exact hi

end Inv

theorem inv_of_run {k : Kernel} (hk : k.table.currentPid = 0) {s : BootRun}
    (hrun : Reaches Step Quiet (start k) s) : Inv s := by
  refine Reaches.invariant (I := Inv) ?_ hrun (inv_start hk)
  rintro s a s' hi hq rfl
  cases a with
  | advance => exact hi.advance
  | tick rsp => exact hi.tick hq

/-- In every run in which no tick picks a process while the boot thread is inside a
print to the serial line, no context waits for a lock that is held. -/
theorem unblocked_of_run {k : Kernel} (hk : k.table.currentPid = 0) {s : BootRun}
    (hrun : Reaches Step Quiet (start k) s) {a : BootAction} (ha : s.Quiet a) : ¬ s.Blocks a := by
  have hi := inv_of_run hk hrun
  cases a with
  | tick rsp => exact fun h => hi.not_tickBlocks ha h.1 h.2
  | advance =>
    rintro ⟨l, hb⟩
    obtain ⟨c, hc, hin⟩ := hi.disciplined.not_self hb
    cases c with
    | proc i =>
      -- a process that does not run is not inside a lock
      rw [hi.suspended i (Ne.symm hc)] at hin
      cases hin
    | boot =>
      -- the boot thread was left, and a process is in its trampoline
      have hl : l = .table ∨ l = .com1 := by
        cases hrun : s.running with
        | boot => exact absurd hrun.symm hc
        | proc i =>
          refine userTrampoline_head (hi.proc i) ?_
          rw [← hrun]
          exact hb.1
      rcases hl with rfl | rfl
      · exact (bootCode_inside hi.boot).1 hin
      · exact hi.left (Ne.symm hc) hin

/-- One process is ready to run. -/
def bootKernel : Kernel :=
  Kernel.boot.exec Kernel.exampleTops (.spawn [] 0x400000 USER_STACK_TOP 0x1000)

/-- The slice ends after `n` operations of the boot thread; two operations follow. -/
def sliceEnd (n : Nat) : List BootAction :=
  List.replicate n .advance ++ List.replicate 5 (.tick 0) ++ [.advance, .advance]

/-- The slice ends when the boot thread has printed its messages; the process is free to
take the serial line. -/
theorem unblocked_of_run_halted :
    let s := (sliceEnd 9).foldl next (start bootKernel)
    s.running = .proc 0 ∧ s.contexts.code (.proc 0) = serialPrint ∧ ¬ s.Blocks .advance := by
  have hok : AllOk next Quiet (start bootKernel) (sliceEnd 9) := by
    simp only [sliceEnd, List.replicate, List.cons_append, List.nil_append, AllOk, Quiet, true_and,
      and_true]
    refine ⟨?_, ?_, ?_, ?_, ?_⟩
    all_goals exact fun _ h => absurd h (by decide +kernel)
  exact ⟨by decide +kernel, by decide +kernel,
    unblocked_of_run rfl (Reaches.foldl hok) (a := .advance) trivial⟩

/-- The slice ends while the boot thread prints that the scheduler has started; the
trampoline of the process waits for the serial line. -/
theorem not_unblocked_print :
    ∃ s, Reaches Step (fun _ _ => True) (start bootKernel) s ∧ s.running = .proc 0 ∧
      s.contexts.holder .com1 = some .boot ∧ s.Blocks .advance := by
  have hok : AllOk next (fun _ _ => True) (start bootKernel) (sliceEnd 4) := by
    simp only [sliceEnd, List.replicate, List.cons_append, List.nil_append, AllOk, and_true]
  exact ⟨_, Reaches.foldl hok, by decide +kernel, by decide +kernel, .com1, by decide +kernel,
    by decide +kernel⟩

/-- A tick that picks a process while the boot thread is inside a print to the serial
line waits for that lock itself, or the trampoline of the process does. -/
theorem exists_blocks_of_not_quiet {k : Kernel} (hk : k.table.currentPid = 0) {s : BootRun}
    (hrun : Reaches Step Quiet (start k) s) {rsp : Nat} (h : ¬ s.Quiet (.tick rsp)) :
    s.Blocks (.tick rsp) ∨ (((s.next (.tick rsp)).next .advance).next .advance).Blocks .advance := by
  have hi := inv_of_run hk hrun
  simp only [Quiet, Classical.not_imp, not_not] at h
  obtain ⟨hboot, hin, hsch, next, hnext, hne⟩ := h
  obtain ⟨h0, hfresh⟩ := hi.fresh hboot
  have hint : s.Interruptible := Or.inl hboot
  refine or_iff_not_imp_left.2 fun hb => ?_
  have hnot : ¬ s.TickBlocks := fun ht => hb ⟨hint, ht⟩
  -- the boot thread holds no other lock
  have hfree {l : KernelLock} (hl : l ≠ .com1) : s.contexts.holder l = none := by
    by_contra hsome
    have := hi.held_of_tick hint (Option.isSome_iff_ne_none.2 hsome)
    exact hl (Option.some.inj (this.symm.trans hin))
  have hcom1 : (s.contexts.holder .com1).isSome := hi.disciplined.isSome_iff.2 ⟨_, hin⟩
  have hheld : s.held = .none := by
    simp [held, hfree, Locks.none]
  rw [hheld] at hsch
  obtain ⟨-, hactive, hslice | ⟨-, hcur, -⟩⟩ := hsch
  swap
  · exact absurd h0 hcur
  obtain ⟨i, hi'⟩ : ∃ i, s.kernel.table.slotOf next = some i := by
    obtain ⟨j, hj, -, -⟩ := Kernel.findNextReady_some hnext
    exact Cells.position_isSome (i := j) (by simpa using hj)
  obtain ⟨hlocks, htick⟩ := Kernel.tick_of_picks rsp hactive hslice hnext hne
  have hinit : (s.kernel.kernelStacks i).initialised = true := by
    by_contra hno
    refine hnot ⟨.com1, ?_, hcom1⟩
    rw [hheld, hlocks]
    simp [Kernel.switchLocks, hi', hno, Locks.none, MAX_PROCESSES]
  have htick : ∃ sw k', s.kernel.onTimerTick .none rsp = (some sw, k') ∧ k'.rsp0 = some i := by
    rw [htick]
    simp [Kernel.doContextSwitch, hi', hinit, Locks.none]
  obtain ⟨sw, k', htick, hrsp0⟩ := htick
  have hnext' : s.next (.tick rsp) = { s with kernel := k', running := .proc i } := by
    simp only [BootRun.next, if_pos (And.intro hint hnot), hheld, htick, hrsp0, Option.map_some,
      Option.getD_some]
  rw [hnext']
  refine ⟨.com1, ?_, ?_⟩
  · simp [BootRun.next, Contexts.advance, hfresh i, userTrampoline, hfree, serialPrint]
  · simp [BootRun.next, Contexts.advance, hfresh i, userTrampoline, hfree, hcom1]

end BootRun

end AeroOS.Scheduler
