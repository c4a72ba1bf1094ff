import AeroOS.Scheduler.Zombies

/-!
# The child of a fork under preemption

`sys_fork` marks the child as ready, enables interrupts, and only then builds
the child's kernel stack.  A `ForkRun` is a fork between that point and its
return, with the timer free to tick at every point.  The parent moves on only
while it is the current process.

* In the window before `KERNEL_STACKS` is locked, a tick can pick a child whose
  stack holds the context of the slot's last process, or none.
* `Quiet` is the condition under which this does not happen, and `ForkRun.Inv`
  the invariant of the runs that meet it.
-/

namespace AeroOS.Scheduler

open AeroOS.Cells
open AeroOS.Proc
open AeroOS.Run

/-- Where the parent is in `sys_fork`. -/
inductive ForkPc where
  /-- Interrupts are enabled, and `KERNEL_STACKS` is not yet locked. -/
  | window
  /-- `KERNEL_STACKS` is locked. -/
  | building
  /-- The child's stack is built and the lock is released. -/
  | built
  /-- The call has returned the child's pid. -/
  | returned
  deriving DecidableEq, Repr

/-- A fork in progress.  `ran` records that the child has been switched to. -/
structure ForkRun where
  kernel : Kernel
  pc : ForkPc
  parent : Nat
  child : Nat
  slot : Fin MAX_PROCESSES
  ran : Bool

/-- A timer tick, or the parent's next step. -/
inductive ForkAction where
  | tick (rsp : Nat)
  | advance
  deriving DecidableEq, Repr

namespace Kernel

variable {k : Kernel} {held : Locks} {rsp child : Nat} {slot : Fin MAX_PROCESSES}

/-- A child in its slot that has not run: it is ready, and not the current
process. -/
structure Waiting (k : Kernel) (child : Nat) (slot : Fin MAX_PROCESSES) : Prop where
  slotOf : k.table.slotOf child = some slot
  not_current : k.table.currentPid ≠ child
  ready : (k.table.processes slot).state = .ready

namespace Waiting

theorem pid (hw : Waiting k child slot) : (k.table.processes slot).pid = child :=
  ProcessTable.slotOf_pid hw.slotOf

/-- An edit of another process. -/
theorem modify (hw : Waiting k child slot) {pid : Nat} (hne : pid ≠ child)
    {f : Process → Process} (hf : ∀ p, (f p).pid = p.pid) :
    Waiting { k with table := k.table.modify pid f } child slot := by
  refine ⟨(ProcessTable.slotOf_modify hf child).trans hw.slotOf, hw.not_current, ?_⟩
  have hs : k.table.slotOf pid ≠ some slot := fun h =>
    hne ((ProcessTable.slotOf_pid h).symm.trans hw.pid)
  simp only [ProcessTable.modify_processes, if_neg hs]
  exact hw.ready

theorem deliver (hw : Waiting k child slot) :
    Waiting { k with table := k.table.deliverPendingInto } child slot := by
  rcases k.table.deliverPendingInto_cases with h | ⟨-, h⟩ <;> rw [h]
  · exact hw
  · exact hw.modify hw.not_current fun p => (ProcessTable.deliverTo_kept p).1

/-- A switch to another process. -/
theorem markSwitch (hw : Waiting k child slot) {new : Nat} (hne : new ≠ child) :
    Waiting { k with table := markSwitch k.table k.table.currentPid new } child slot := by
  have hleave : Waiting { k with table :=
      (if k.table.currentPid = 0 then k.table else k.table.modify k.table.currentPid leave) }
      child slot := by
    split
    · exact hw
    · exact hw.modify hw.not_current Kernel.leave_pid
  have hrun := hleave.modify hne (f := run) fun _ => rfl
  exact ⟨hrun.slotOf, hne, hrun.ready⟩

/-- What a scheduling decision does to a waiting child whose context is set up:
the child is switched to with that context, or it waits on and its context is
kept. -/
theorem schedule (hw : Waiting k child slot) (held : Locks) (rsp : Nat)
    (hinit : (k.kernelStacks slot).initialised = true) (hs : held.sched = false) :
    (∃ newCr3 k', k.schedule held rsp = (some ⟨(k.kernelStacks slot).savedRsp, newCr3⟩, k') ∧
        k'.table.currentPid = child ∧ k'.table.slotOf child = some slot ∧
        (k'.kernelStacks slot).initialised = true) ∨
      Waiting (k.schedule held rsp).2 child slot ∧
        (k.schedule held rsp).2.kernelStacks slot = k.kernelStacks slot := by
  rcases k.schedule_cases held rsp with ⟨sched, h⟩ | ⟨j, hpid, hready, hcur, h⟩
  · rw [h]
    exact Or.inr ⟨⟨hw.slotOf, hw.not_current, hw.ready⟩, rfl⟩
  · rw [h]
    rcases k.doContextSwitch_cases held rsp k.table.currentPid (k.table.processes j).pid with h |
      ⟨i, hi, -, ⟨hno, h⟩ | ⟨-, ⟨hheld, -⟩ | ⟨newCr3, h⟩⟩⟩
    · rw [h]
      exact Or.inr ⟨hw, rfl⟩
    · rw [h]
      refine Or.inr ⟨hw.modify (fun heq => ?_) (fun p => ?_), rfl⟩
      · rw [heq, hw.slotOf, Option.some.injEq] at hi
        subst hi
        rw [hinit] at hno
        cases hno
      · unfold demote
        split <;> rfl
    · rw [hs] at hheld
      cases hheld
    · rw [h]
      by_cases hnew : (k.table.processes j).pid = child
      · have his : i = slot := by
          rw [hnew, hw.slotOf] at hi
          exact (Option.some.inj hi).symm
        subst his
        refine Or.inl ⟨newCr3, _, rfl, hnew, ?_, ?_⟩
        · exact (ProcessTable.slotOf_keptAll (markSwitch_keptAll hpid) child).trans hw.slotOf
        · exact (saveContext_initialised _).trans hinit
      · refine Or.inr ⟨?_, ?_⟩
        · have hm := hw.markSwitch hnew
          exact ⟨hm.slotOf, hm.not_current, hm.ready⟩
        · refine saveContext_of_ne fun hold => hw.not_current ?_
          exact (ProcessTable.slotOf_pid hold).symm.trans hw.pid

end Waiting

theorem schedule_initialised (i : Fin MAX_PROCESSES) :
    ((k.schedule held rsp).2.kernelStacks i).initialised = (k.kernelStacks i).initialised := by
  rcases k.schedule_cases held rsp with ⟨sched, h⟩ | ⟨j, -, -, -, h⟩
  · rw [h]
  · rw [h]
    rcases k.doContextSwitch_cases held rsp k.table.currentPid (k.table.processes j).pid with h |
      ⟨i, -, -, ⟨-, h⟩ | ⟨-, ⟨-, h⟩ | ⟨newCr3, h⟩⟩⟩
    · rw [h]
    · rw [h]
    · rw [h]
    · rw [h]
      exact saveContext_initialised _

/-- With `KERNEL_STACKS` held, `schedule` changes nothing but the slice. -/
theorem schedule_held (k : Kernel) (rsp : Nat) (hs : held.kernelStacks = true) :
    ∃ sched, k.schedule held rsp = (none, { k with sched := sched }) := by
  rcases k.schedule_cases held rsp with ⟨sched, h⟩ | ⟨j, -, -, -, h⟩
  · exact ⟨sched, h⟩
  · rw [h]
    rcases k.doContextSwitch_cases held rsp k.table.currentPid (k.table.processes j).pid with h |
      ⟨i, -, hfree, -⟩
    · exact ⟨k.sched, h⟩
    · rw [hs] at hfree
      cases hfree

end Kernel

namespace ForkRun

/-- The fork at the point where interrupts are enabled. -/
def start (childCr3 : Option Nat) (userRsp : Nat) (k : Kernel) : Option ForkRun :=
  match k.forkProcess childCr3 userRsp with
  | (.ok (child, slot), k') => some ⟨k', .window, k.table.currentPid, child, slot, false⟩
  | (.error _, _) => none

/-- The locks that the parent holds. -/
def held (s : ForkRun) : Locks := ⟨false, s.pc = .building, false⟩

/-- A tick, which may switch to the child. -/
def tick (rsp : Nat) (s : ForkRun) : ForkRun :=
  match s.kernel.onTimerTick s.held rsp with
  | (some _, k) => { s with kernel := k, ran := s.ran || k.table.currentPid == s.child }
  | (none, k) => { s with kernel := k }

/-- The parent's next step, while it is the current process. -/
def advance (T : Fin MAX_PROCESSES → Nat) (s : ForkRun) : ForkRun :=
  if s.kernel.table.currentPid ≠ s.parent then s
  else
    match s.pc with
    | .window => { s with pc := .building }
    | .building => { s with pc := .built, kernel := s.kernel.buildChildStack T s.slot }
    | .built => { s with pc := .returned }
    | .returned => s

def exec (T : Fin MAX_PROCESSES → Nat) (s : ForkRun) : ForkAction → ForkRun
  | .tick rsp => s.tick rsp
  | .advance => s.advance T

def Step (T : Fin MAX_PROCESSES → Nat) (s : ForkRun) (a : ForkAction) (s' : ForkRun) : Prop :=
  s' = s.exec T a

/-- The record in the child's slot. -/
def childRecord (s : ForkRun) : Process := s.kernel.table.processes s.slot

/-- The kernel stack of the child's slot. -/
def childStack (s : ForkRun) : ProcessKernelStack := s.kernel.kernelStacks s.slot

/-- A tick in this state schedules, and the child is one of those it may
pick. -/
def CanPickChild (s : ForkRun) : Prop :=
  s.pc ≠ .building ∧ s.kernel.schedules s.held ∧ s.childRecord.state = .ready

/-- The condition: no tick in the window schedules. -/
def Quiet (s : ForkRun) : ForkAction → Prop
  | .tick _ => s.pc = .window → ¬ s.kernel.schedules s.held
  | .advance => True

/-- The invariant of the runs without a scheduling tick in the window. -/
structure Inv (T : Fin MAX_PROCESSES → Nat) (s : ForkRun) : Prop where
  slotOf : s.kernel.table.slotOf s.child = some s.slot
  /-- Until the stack is built the parent is the current process. -/
  early : s.pc = .window ∨ s.pc = .building →
    s.kernel.table.currentPid = s.parent ∧ s.ran = false
  waiting : s.ran = false → s.kernel.Waiting s.child s.slot
  /-- Once the stack is built it holds this fork's context until the child
  runs. -/
  built : s.pc = .built ∨ s.pc = .returned → s.childStack.initialised = true ∧
    (s.ran = false → s.childStack.savedRsp = Kernel.forkRsp (T s.slot))

namespace Inv

variable {T : Fin MAX_PROCESSES → Nat} {s : ForkRun}

/-- The kernel after the first part of a tick. -/
theorem counted (hi : Inv T s) {t : ProcessTable} {sched : Sched}
    (ht : t = s.kernel.table ∨ t = s.kernel.table.deliverPendingInto) :
    Inv T { s with kernel := { s.kernel with table := t, sched := sched } } := by
  have hcur : t.currentPid = s.kernel.table.currentPid := by
    rcases ht with rfl | rfl
    · rfl
    · exact ProcessTable.deliverPendingInto_currentPid _
  have hslot : t.slotOf s.child = some s.slot := by
    rcases ht with rfl | rfl
    · exact hi.slotOf
    · rw [ProcessTable.slotOf_keptAll s.kernel.table.deliverPendingInto_keptAll]
      exact hi.slotOf
  refine ⟨hslot, fun hpc => ?_, fun hran => ?_, hi.built⟩
  · exact ⟨hcur.trans (hi.early hpc).1, (hi.early hpc).2⟩
  · have hw := hi.waiting hran
    rcases ht with rfl | rfl
    · exact ⟨hw.slotOf, hw.not_current, hw.ready⟩
    · exact ⟨hslot, hw.deliver.not_current, hw.deliver.ready⟩

/-- The step lemma for a tick. -/
theorem tick (hi : Inv T s) {rsp : Nat} (hq : s.Quiet (.tick rsp)) : Inv T (s.tick rsp) := by
  obtain ⟨t, sched, ht, h⟩ := s.kernel.onTimerTick_cases s.held rsp
  have hc : Inv T { s with kernel := { s.kernel with table := t, sched := sched } } :=
    hi.counted (ht.imp_right And.right)
  unfold ForkRun.tick
  rcases h with h | ⟨hsch, h⟩
  · rw [h]
    exact hc
  · rw [h]
    by_cases hb : s.pc = .building
    · -- `do_context_switch` finds `KERNEL_STACKS` locked
      have hlocked : s.held.kernelStacks = true := by simp [held, hb]
      obtain ⟨sched', hs⟩ :=
        ({ s.kernel with table := t, sched := sched } : Kernel).schedule_held rsp hlocked
      rw [hs]
      exact hi.counted (ht.imp_right And.right)
    · have hbuilt : s.pc = .built ∨ s.pc = .returned := by
        cases hpc : s.pc with
        | window => exact absurd hsch (hq hpc)
        | building => exact absurd hpc hb
        | built => exact Or.inl rfl
        | returned => exact Or.inr rfl
      have hnot : ¬ (s.pc = .window ∨ s.pc = .building) := by
        rcases hbuilt with h0 | h0 <;> simp [h0]
      obtain ⟨hinit, hrsp⟩ := hi.built hbuilt
      cases hran : s.ran with
      | true =>
        have hslot : (({ s.kernel with table := t, sched := sched } : Kernel).schedule s.held
            rsp).2.table.slotOf s.child = some s.slot :=
          (ProcessTable.slotOf_keptAll Kernel.schedule_table.keptAll s.child).trans hc.slotOf
        have hini : ((({ s.kernel with table := t, sched := sched } : Kernel).schedule s.held
            rsp).2.kernelStacks s.slot).initialised = true :=
          (Kernel.schedule_initialised s.slot).trans hinit
        rcases hr : ({ s.kernel with table := t, sched := sched } : Kernel).schedule s.held rsp with
          ⟨sw, k'⟩
        rw [hr] at hslot hini
        cases sw with
        | none =>
          exact ⟨hslot, fun h0 => absurd h0 hnot, fun h0 => by simp at h0,
            fun _ => ⟨hini, fun h0 => by simp at h0⟩⟩
        | some sw =>
          exact ⟨hslot, fun h0 => absurd h0 hnot, fun h0 => by simp at h0,
            fun _ => ⟨hini, fun h0 => by simp at h0⟩⟩
      | false =>
        rcases (hc.waiting hran).schedule s.held rsp hinit rfl with
          ⟨newCr3, k', hr, hcur, hslot, hini⟩ | ⟨hw, hkeep⟩
        · rw [hr]
          exact ⟨hslot, fun h0 => absurd h0 hnot, fun h0 => by simp [hcur] at h0,
            fun _ => ⟨hini, fun h0 => by simp [hcur] at h0⟩⟩
        · rcases hr : ({ s.kernel with table := t, sched := sched } : Kernel).schedule s.held rsp
            with ⟨sw, k'⟩
          rw [hr] at hw hkeep
          have hstack : s.pc = .built ∨ s.pc = .returned →
              (k'.kernelStacks s.slot).initialised = true ∧
                (s.ran = false → (k'.kernelStacks s.slot).savedRsp = Kernel.forkRsp (T s.slot)) :=
            fun _ => by
              simp only at hkeep
              rw [hkeep]
              exact ⟨hinit, hrsp⟩
          cases sw with
          | none =>
            exact ⟨hw.slotOf, fun h0 => absurd h0 hnot, fun _ => hw, fun h0 => ⟨(hstack h0).1,
              fun _ => (hstack h0).2 hran⟩⟩
          | some sw =>
            exact ⟨hw.slotOf, fun h0 => absurd h0 hnot, fun _ => hw, fun h0 => ⟨(hstack h0).1,
              fun _ => (hstack h0).2 hran⟩⟩

/-- The step lemma for the parent. -/
theorem advance (hi : Inv T s) : Inv T (s.advance T) := by
  unfold ForkRun.advance
  split
  · exact hi
  · cases hpc : s.pc with
    | window =>
      exact ⟨hi.slotOf, fun _ => hi.early (Or.inl hpc), hi.waiting, fun h => by simp at h⟩
    | building =>
      refine ⟨hi.slotOf, fun h => by simp at h, fun hran => ?_, fun _ => ?_⟩
      · exact ⟨hi.slotOf, (hi.waiting hran).not_current, (hi.waiting hran).ready⟩
      · simp [childStack, Kernel.buildChildStack]
    | built => exact ⟨hi.slotOf, fun h => by simp at h, hi.waiting, fun _ => hi.built (Or.inl hpc)⟩
    | returned => exact hi

end Inv

/-- The state in which interrupts are enabled meets the invariant when the new
pid is not in use. -/
theorem inv_start {T : Fin MAX_PROCESSES → Nat} {childCr3 : Option Nat} {userRsp : Nat}
    {k : Kernel} {s : ForkRun} (hnew : NextNew k.table)
    (hs : start childCr3 userRsp k = some s) : Inv T s := by
  unfold start at hs
  rcases k.forkProcess_cases childCr3 userRsp with ⟨e, he⟩ |
    ⟨parent, c, i, hcur, hp, -, -, hi, ⟨-, he⟩ | ⟨hn, he⟩⟩
  · simp [he] at hs
  · simp [he] at hs
  · rw [he] at hs
    simp only [Option.some.injEq] at hs
    subst hs
    -- the new pid is found in the slot that was filled, and nowhere else
    have hslot : (k.table.fill i k.table.currentPid Kernel.forkName).slotOf k.table.nextPid =
        some i := by
      refine position_eq_some_of_unique (by simp) fun j hj => ?_
      by_contra hji
      simp only [k.table.fill_ne hji, beq_iff_eq] at hj
      exact hnew j (hj ▸ hn) hj
    have hpid : ∀ p, (Kernel.forkRecord parent userRsp c p).pid = p.pid := fun _ => rfl
    obtain ⟨j, hj, -⟩ := ProcessTable.get_eq_some hp
    have hne : k.table.currentPid ≠ k.table.nextPid := by
      rw [← ProcessTable.slotOf_pid hj]
      refine hnew j ?_
      rw [ProcessTable.slotOf_pid hj]
      exact hcur
    have hw : Kernel.Waiting
        { k with
          table := ((k.table.fill i k.table.currentPid Kernel.forkName).modify k.table.nextPid
            (Kernel.forkRecord parent userRsp c)) } k.table.nextPid i := by
      refine ⟨(ProcessTable.slotOf_modify hpid _).trans hslot, hne, ?_⟩
      rw [ProcessTable.modify_processes, hslot, if_pos rfl]
      rfl
    rw [hslot]
    exact ⟨hw.slotOf, fun _ => ⟨rfl, rfl⟩, fun _ => hw, fun h => by simp at h⟩

/-- In every run in which no tick schedules in the window: when the scheduler
can pick the child, the child's stack is built and, until the child runs, holds
the context that this fork built; until it runs the child stays ready; and so it
is ready or has run when the call returns. -/
theorem child_safe_of_run {T : Fin MAX_PROCESSES → Nat} {childCr3 : Option Nat} {userRsp : Nat}
    {k : Kernel} {s₀ s : ForkRun} (hnew : NextNew k.table)
    (hs : start childCr3 userRsp k = some s₀) (hrun : Reaches (Step T) Quiet s₀ s) :
    (∀ rsp, s.Quiet (.tick rsp) → s.CanPickChild →
        s.childStack.initialised = true ∧
          (s.ran = false → s.childStack.savedRsp = Kernel.forkRsp (T s.slot))) ∧
      (s.ran = false → s.childRecord.state = .ready) ∧
      (s.pc = .returned → s.childRecord.state = .ready ∨ s.ran = true) := by
  have hi : Inv T s := by
    refine Reaches.invariant (I := Inv T) ?_ hrun (inv_start hnew hs)
    rintro s a s' hi hq rfl
    cases a with
    | tick rsp => exact hi.tick hq
    | advance => exact hi.advance
  refine ⟨fun rsp hq ⟨hpc, hsch, _⟩ => hi.built ?_, fun hran => (hi.waiting hran).ready,
    fun _ => ?_⟩
  · cases h : s.pc with
    | window => exact absurd hsch (hq h)
    | building => exact absurd h hpc
    | built => exact Or.inl rfl
    | returned => exact Or.inr rfl
  · cases hran : s.ran with
    | false => exact Or.inl (hi.waiting hran).ready
    | true => exact Or.inr rfl

/-- Process 1 runs, with two ticks of its slice left. -/
def beforeFork : Kernel :=
  [.spawn [] 0x400000 USER_STACK_TOP 0x1000, .switchToNext .none 0, .startScheduler,
    .tick .none 0, .tick .none 0, .tick .none 0].foldl (Kernel.exec Kernel.exampleTops) .boot

/-- Process 1 forks; the child is process 2 in slot 1. -/
def forked : ForkRun where
  kernel := (beforeFork.forkProcess (some 0x2000) USER_STACK_TOP).2
  pc := .window
  parent := 1
  child := 2
  slot := 1
  ran := false

theorem start_beforeFork : start (some 0x2000) USER_STACK_TOP beforeFork = some forked := rfl

/-- With both ticks after the stack is built, the second one switches to the
child. -/
theorem child_safe_of_run_built :
    let s := [.advance, .advance, .advance, .tick 0, .tick 0].foldl (exec Kernel.exampleTops) forked
    s.pc = .returned ∧ s.ran = true ∧ (s.childRecord.state = .ready ∨ s.ran = true) := by
  have hnew : NextNew beforeFork.table := fun i => by
    revert i
    decide
  have hrun : Reaches (Step Kernel.exampleTops) Quiet forked
      ([.advance, .advance, .advance, .tick 0, .tick 0].foldl (exec Kernel.exampleTops) forked) :=
    Reaches.foldl ⟨trivial, trivial, trivial, (fun h => by cases h), (fun h => by cases h), trivial⟩
  have h := child_safe_of_run hnew start_beforeFork hrun
  exact ⟨by decide, by decide, h.2.2 (by decide)⟩

/-- With both ticks in the window, the second one picks the child before its
stack is built, and the child is blocked. -/
theorem not_child_safe_window :
    ∃ s, start (some 0x2000) USER_STACK_TOP beforeFork = some forked ∧
      Reaches (Step Kernel.exampleTops) (fun _ _ => True) forked s ∧ s.pc = .returned ∧
      s.childRecord.state = .blocked ∧ s.ran = false := by
  refine ⟨[.tick 0, .tick 0, .advance, .advance, .advance].foldl (exec Kernel.exampleTops) forked,
    start_beforeFork, Reaches.foldl ?_, by decide, by decide, by decide⟩
  exact ⟨trivial, trivial, trivial, trivial, trivial, trivial⟩

end ForkRun

end AeroOS.Scheduler
