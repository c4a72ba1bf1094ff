import AeroOS.Scheduler.PidHistory

/-!
# One running process

`RunsCurrent` says that only the current process is marked as running.  Every
action keeps it as long as the pids in use are distinct, and that holds as long
as no new pid is in use.  A pid counter that has wrapped gives a pid twice, and
then the mark of the current process can be left behind (`Bystanders` and the
run below it).
-/

namespace AeroOS.Scheduler

open AeroOS.Cells
open AeroOS.Proc
open AeroOS.Run

/-- Only the current process is marked as running. -/
def RunsCurrent (t : ProcessTable) : Prop :=
  ∀ i, (t.processes i).state = .running →
    (t.processes i).pid = t.currentPid ∧ (t.processes i).pid ≠ 0

/-- No slot starts to run, and the current process stays. -/
def NoNewRun (t t' : ProcessTable) : Prop :=
  t'.currentPid = t.currentPid ∧ ∀ i, (t'.processes i).state = .running →
    (t.processes i).state = .running ∧ (t'.processes i).pid = (t.processes i).pid

namespace NoNewRun

variable {t t' t'' : ProcessTable}

theorem refl (t : ProcessTable) : NoNewRun t t := ⟨rfl, fun _ h => ⟨h, rfl⟩⟩

theorem trans (h : NoNewRun t t') (h' : NoNewRun t' t'') : NoNewRun t t'' :=
  ⟨h'.1.trans h.1, fun i hi =>
    have hr := h'.2 i hi
    ⟨(h.2 i hr.1).1, hr.2.trans (h.2 i hr.1).2⟩⟩

theorem runsCurrent (h : NoNewRun t t') (hr : RunsCurrent t) : RunsCurrent t' := by
  intro i hi
  obtain ⟨hrun, hpid⟩ := h.2 i hi
  rw [hpid, h.1]
  exact hr i hrun

theorem modify {f : Process → Process} (t : ProcessTable) (pid : Nat)
    (hp : ∀ p, (f p).pid = p.pid) (hs : ∀ p, (f p).state = .running → p.state = .running) :
    NoNewRun t (t.modify pid f) := by
  refine ⟨rfl, fun i => ?_⟩
  rw [ProcessTable.modify_processes]
  split
  · exact fun hi => ⟨hs _ hi, hp _⟩
  · exact fun hi => ⟨hi, rfl⟩

theorem setSlot (t : ProcessTable) (i : Fin MAX_PROCESSES) {p : Process}
    (hp : p.state ≠ .running) : NoNewRun t (t.setSlot i p) := by
  refine ⟨rfl, fun j hj => ?_⟩
  by_cases hji : j = i
  · subst hji
    simp only [ProcessTable.setSlot, Function.update_self] at hj
    exact absurd hj hp
  · simp only [ProcessTable.setSlot, Function.update_of_ne hji] at hj ⊢
    exact ⟨hj, trivial⟩

theorem fill (t : ProcessTable) (i : Fin MAX_PROCESSES) (parent : Nat) (name : List UInt8) :
    NoNewRun t (t.fill i parent name) :=
  setSlot t i (by simp)

theorem alloc (t : ProcessTable) (parent : Nat) (name : List UInt8) :
    NoNewRun t (t.alloc parent name).2 := by
  rcases t.alloc_cases parent name with ⟨-, h⟩ | ⟨i, -, h⟩
  · rw [h]
    exact refl t
  · rw [h]
    exact fill t i parent name

theorem free {pid c : Nat} (h : t.free pid = some (c, t')) : NoNewRun t t' := by
  simp only [ProcessTable.free, Option.map_eq_some_iff, Prod.mk.injEq] at h
  obtain ⟨i, -, -, rfl⟩ := h
  exact setSlot t i (by simp [Process.empty])

theorem reapZombies (t : ProcessTable) : NoNewRun t t.reapZombies.2 := by
  refine ⟨rfl, fun i => ?_⟩
  rw [ProcessTable.reapZombies_processes]
  split
  · exact fun hi => absurd hi (by simp [Process.empty])
  · exact fun hi => ⟨hi, rfl⟩

theorem handleOom (t : ProcessTable) : NoNewRun t t.handleOom.2.2 := by
  rcases t.handleOom_cases with h | h | ⟨i, p, -, -, hp, h⟩
  · rw [h]
    exact refl t
  · rw [h]
    exact reapZombies t
  · rw [h]
    exact (setSlot t i (by simp [hp])).trans (reapZombies _)

theorem markExit (t : ProcessTable) (pid : Nat) (code : Int) :
    NoNewRun t (t.markExit pid code).2 := by
  rcases t.markExit_cases pid code with h | h <;> rw [h]
  · exact refl t
  · exact modify t pid (fun _ => rfl) (fun _ h => by simp at h)

theorem sendSignal (t : ProcessTable) (pid signum : Nat) :
    NoNewRun t (t.sendSignal pid signum).2 := by
  rcases t.sendSignal_cases pid signum with h | h <;> rw [h]
  · exact refl t
  · exact modify t pid (fun _ => rfl) (fun _ h => h)

theorem signal (t : ProcessTable) (pid signum : Nat) : NoNewRun t (t.signal pid signum).2 := by
  rcases t.signal_cases pid signum with h | ⟨-, -, -, h⟩ | h <;> rw [h]
  · exact refl t
  · exact modify t pid (fun _ => rfl) (fun _ h => by simp [Process.killed] at h)
  · exact sendSignal t pid signum

theorem sysKill (t : ProcessTable) (pid signum : Nat) : NoNewRun t (t.sysKill pid signum).2 := by
  rcases t.sysKill_cases pid signum with h | ⟨-, h⟩ <;> rw [h]
  · exact refl t
  · exact signal t pid signum

theorem deliverPendingInto (t : ProcessTable) : NoNewRun t t.deliverPendingInto := by
  rcases t.deliverPendingInto_cases with h | ⟨-, h⟩ <;> rw [h]
  · exact refl t
  · refine modify t _ (fun p => (ProcessTable.deliverTo_kept p).1) (fun p h => ?_)
    rcases (ProcessTable.deliverTo_kept p).2.2 with hs | hs
    · rwa [hs] at h
    · rw [hs] at h
      cases h

theorem demote (t : ProcessTable) (pid : Nat) : NoNewRun t (t.modify pid Kernel.demote) := by
  refine modify t pid (fun p => ?_) (fun p h => ?_)
  · unfold Kernel.demote
    split <;> rfl
  · unfold Kernel.demote at h
    split at h
    · cases h
    · exact h

end NoNewRun

/-- After a switch from the current process, the new process is the only one
marked as running. -/
theorem markSwitch_running {t : ProcessTable} (hd : Distinct t) (hr : RunsCurrent t)
    {new : Nat} {s : Fin MAX_PROCESSES} (hs : t.slotOf new = some s) (j : Fin MAX_PROCESSES) :
    ((Kernel.markSwitch t t.currentPid new).processes j).state = .running ↔ j = s := by
  have hslot : ∀ u, (u = t ∨ u = t.modify t.currentPid Kernel.leave) → u.slotOf new = some s := by
    rintro u (rfl | rfl)
    · exact hs
    · rw [ProcessTable.slotOf_modify Kernel.leave_pid, hs]
  have hleft : ∀ u, (u = (if t.currentPid = 0 then t else t.modify t.currentPid Kernel.leave)) →
      (u.processes j).state ≠ .running := by
    rintro u rfl hj
    split at hj
    · rename_i h0
      exact (hr j hj).2 ((hr j hj).1.trans h0)
    · rw [ProcessTable.modify_processes] at hj
      split at hj
      · unfold Kernel.leave at hj
        split at hj
        · cases hj
        · exact absurd hj (by assumption)
      · rename_i hne
        obtain ⟨hcur, h0⟩ := hr j hj
        rw [← hcur, hd.slotOf_eq h0] at hne
        exact hne rfl
  unfold Kernel.markSwitch
  simp only [ProcessTable.setCurrent]
  rw [ProcessTable.modify_processes, hslot _ (by split <;> simp)]
  by_cases hjs : s = j
  · subst hjs
    simp [Kernel.run]
  · have hne : ¬ some s = some j := fun h => hjs (Option.some.inj h)
    rw [if_neg hne]
    exact ⟨fun h => absurd h (hleft _ rfl), fun h => absurd h.symm hjs⟩

theorem markSwitch_slot {t : ProcessTable} {old new : Nat} (hnew : new ≠ 0)
    {s : Fin MAX_PROCESSES} (hs : t.slotOf new = some s) :
    ((Kernel.markSwitch t old new).processes s).pid = new := by
  have hk : KeptAll t (Kernel.markSwitch t old new) := Kernel.markSwitch_keptAll hnew
  rw [(hk.2 s).pid]
  exact ProcessTable.slotOf_pid hs

theorem Resched.runsCurrent {t t' : ProcessTable} {new : Nat}
    (h : Resched t t.currentPid new t') (hnew : new ≠ 0) (hd : Distinct t)
    (hr : RunsCurrent t) : RunsCurrent t' := by
  cases h with
  | idle => exact hr
  | demoted => exact (NoNewRun.demote t new).runsCurrent hr
  | switched s hs =>
    intro j hj
    have hjs := (markSwitch_running hd hr hs j).1 hj
    subst hjs
    rw [markSwitch_slot hnew hs]
    exact ⟨rfl, hnew⟩

theorem Picked.runsCurrent {t t' : ProcessTable} (h : Picked t t') (hd : Distinct t)
    (hr : RunsCurrent t) : RunsCurrent t' := by
  cases h with
  | idle => exact hr
  | picked j pid _ resched => exact resched.runsCurrent pid hd hr

namespace Kernel

variable {k : Kernel} {T : Fin MAX_PROCESSES → Nat}

theorem spawnUserProcess_noNewRun {name : List UInt8} {entry stackTop cr3 : Nat} :
    NoNewRun k.table (k.spawnUserProcess T name entry stackTop cr3).2.table := by
  have hn := NoNewRun.alloc k.table 0 name
  unfold spawnUserProcess
  rcases hr : k.table.alloc 0 name with ⟨pid, t⟩
  rw [hr] at hn
  simp only
  split
  · exact hn
  · exact hn.trans (NoNewRun.modify t pid (fun _ => rfl) (fun _ h => by simp at h))

theorem forkProcess_noNewRun {childCr3 : Option Nat} {userRsp : Nat} :
    NoNewRun k.table (k.forkProcess childCr3 userRsp).2.table := by
  rcases k.forkProcess_cases childCr3 userRsp with ⟨e, he⟩ |
    ⟨parent, c, i, -, -, -, -, -, ⟨-, he⟩ | ⟨-, he⟩⟩
  · rw [he]
    exact NoNewRun.refl _
  · rw [he]
    exact NoNewRun.fill _ _ _ _
  · rw [he]
    exact (NoNewRun.fill _ _ _ _).trans
      (NoNewRun.modify _ _ (fun _ => rfl) (fun _ h => by simp [forkRecord] at h))

/-- The step lemma. -/
theorem exec_runsCurrent {a : Action} (hd : Distinct k.table) (hr : RunsCurrent k.table) :
    RunsCurrent (k.exec T a).table := by
  have hexit : ∀ status rsp, RunsCurrent (k.sysExit status rsp).2.table := fun status rsp =>
    Picked.runsCurrent (switchToNext_table (k := { k with
        table := (k.table.markExit k.table.currentPid status).2 }))
      (hd.pidsKept (markExit_pidsKept k.table _ status))
      ((NoNewRun.markExit k.table _ status).runsCurrent hr)
  cases a with
  | alloc parentPid name => exact (NoNewRun.alloc k.table parentPid name).runsCurrent hr
  | free pid =>
    simp only [exec]
    cases h : k.table.free pid with
    | none => exact hr
    | some r => exact (NoNewRun.free h).runsCurrent hr
  | markExit pid code => exact (NoNewRun.markExit k.table pid code).runsCurrent hr
  | sendSignal pid signum => exact (NoNewRun.sendSignal k.table pid signum).runsCurrent hr
  | reapZombies => exact (NoNewRun.reapZombies k.table).runsCurrent hr
  | handleOom => exact (NoNewRun.handleOom k.table).runsCurrent hr
  | deliverPending => exact (NoNewRun.deliverPendingInto k.table).runsCurrent hr
  | spawn => exact spawnUserProcess_noNewRun.runsCurrent hr
  | fork => exact forkProcess_noNewRun.runsCurrent hr
  | buildChildStack slot => exact hr
  | execReplace entry userRsp cr3 name =>
    exact (NoNewRun.modify (f := execRecord entry userRsp cr3 name) k.table _ (fun _ => rfl)
      (fun _ h => by simp [execRecord] at h)).runsCurrent hr
  | restartCurrent rsp =>
    rcases restartCurrent_table k rsp with h | ⟨hcur, h⟩
    · simp only [exec]
      rw [h]
      exact hr
    · exact h.runsCurrent hcur hd hr
  | exit status rsp => exact hexit status rsp
  | pageFault rsp => exact hexit 139 rsp
  | kill pid signum => exact (NoNewRun.sysKill k.table pid signum).runsCurrent hr
  | waitpid pid rsp =>
    rcases k.sysWaitpid_table pid rsp with ⟨i, c, t, -, -, hfree, -, ht⟩ | ⟨-, h⟩
    · simp only [exec, ht]
      exact (NoNewRun.free hfree).runsCurrent hr
    · exact h.runsCurrent hd hr
  | yieldNow rsp => exact yieldNow_table.runsCurrent hd hr
  | schedule held rsp => exact schedule_table.runsCurrent hd hr
  | switchToNext held rsp => exact switchToNext_table.runsCurrent hd hr
  | tick held rsp =>
    obtain ⟨t, ht, hp⟩ := onTimerTick_table k held rsp
    rcases ht with rfl | ⟨-, rfl⟩
    · exact hp.runsCurrent hd hr
    · exact hp.runsCurrent (hd.pidsKept
          (ProcessTable.deliverPendingInto_keptAll k.table).survives.pidsKept)
        ((NoNewRun.deliverPendingInto k.table).runsCurrent hr)
  | startScheduler => exact hr

/-- No action gives a pid that is in use. -/
def FreshPids (k : Kernel) (a : Action) : Prop := a.allocates = true → NextNew k.table

/-- The run lemma. -/
theorem distinct_runsCurrent_of_run (hrun : Reaches (Step T) FreshPids boot k) :
    Distinct k.table ∧ RunsCurrent k.table := by
  refine Reaches.invariant (I := fun k => Distinct k.table ∧ RunsCurrent k.table) ?_ hrun ?_
  · rintro k a k' ⟨hd, hr⟩ hok rfl
    exact ⟨exec_distinct hd hok, exec_runsCurrent hd hr⟩
  · exact ⟨fun _ _ h => absurd rfl h, fun i h => by cases h⟩

/-- In every run that gives no pid that is in use, at most one slot is marked as
running, it holds the current process, and a completed context switch leaves
the new process as the only one that is. -/
theorem singleRunning_of_run (hrun : Reaches (Step T) FreshPids boot k) :
    (∀ i j, (k.table.processes i).state = .running → (k.table.processes j).state = .running →
        i = j) ∧
      (∀ i, (k.table.processes i).state = .running →
        (k.table.processes i).pid = k.table.currentPid) ∧
      ∀ held rsp new sw k', new ≠ 0 →
        k.doContextSwitch held rsp k.table.currentPid new = (some sw, k') →
        k'.table.currentPid = new ∧ ∃ i, (k'.table.processes i).pid = new ∧
          ∀ j, (k'.table.processes j).state = .running ↔ j = i := by
  obtain ⟨hd, hr⟩ := distinct_runsCurrent_of_run hrun
  refine ⟨fun i j hi hj => ?_, fun i hi => (hr i hi).1, ?_⟩
  · exact hd i j (hr i hi).2 ((hr i hi).1.trans (hr j hj).1.symm)
  · intro held rsp new sw k' hnew h
    obtain ⟨s, hs, -, -, ht⟩ := doContextSwitch_switched h
    rw [ht]
    exact ⟨rfl, s, markSwitch_slot hnew hs, markSwitch_running hd hr hs⟩

/-- Stack tops of a table of 32 KiB stacks. -/
def exampleTops (i : Fin MAX_PROCESSES) : Nat := 0x8000 * (i.val + 1)

/-- A spawned process is switched to. -/
theorem singleRunning_of_run_spawn :
    let k := (boot.exec exampleTops (.spawn [] 0x400000 USER_STACK_TOP 0x1000)).exec exampleTops
      (.switchToNext .none 0)
    k.table.currentPid = 1 ∧ ∀ i, (k.table.processes i).state = .running →
      (k.table.processes i).pid = k.table.currentPid := by
  refine ⟨by decide, (singleRunning_of_run (T := exampleTops) ?_).2.1⟩
  exact ((Reaches.refl boot).snoc (fun _ i hi => absurd rfl hi) rfl).snoc (fun h => by cases h) rfl

/-! ## A pid counter that wraps

Process 2 forks, kills the child and waits for it, over and over.  The counter
wraps to 0 and then passes 1; the next child gets the pid of process 2 itself.
-/

/-- Process 2 runs in slot 1, process 3 is ready in slot 2, and only slot 0 is
otherwise in use. -/
structure Bystanders (k : Kernel) : Prop where
  current : k.table.currentPid = 2
  pid1 : (k.table.processes 1).pid = 2
  running1 : (k.table.processes 1).state = .running
  cr3 : (k.table.processes 1).cr3 ≠ 0
  pid2 : (k.table.processes 2).pid = 3
  ready2 : (k.table.processes 2).state = .ready
  initialised2 : (k.kernelStacks 2).initialised = true
  rest : ∀ i, 3 ≤ i.val → (k.table.processes i).pid = 0

namespace Bystanders

variable {k' : Kernel} {n : Nat}

/-- Only slot 0 is changed. -/
theorem congr (h : Bystanders k) (hs : ∀ j, j ≠ 0 → k'.table.processes j = k.table.processes j)
    (hc : k'.table.currentPid = k.table.currentPid) (hk : k'.kernelStacks = k.kernelStacks) :
    Bystanders k' := by
  have h1 := hs 1 (by decide)
  have h2 := hs 2 (by decide)
  refine ⟨hc.trans h.current, ?_, ?_, ?_, ?_, ?_, ?_, fun i hi => ?_⟩
  · rw [h1, h.pid1]
  · rw [h1, h.running1]
  · rw [h1]
    exact h.cr3
  · rw [h2, h.pid2]
  · rw [h2, h.ready2]
  · rw [hk]
    exact h.initialised2
  · rw [hs i (fun h0 => by simp [h0] at hi)]
    exact h.rest i hi

/-- A slot that holds a pid other than 0 is one of the first three. -/
theorem slot_cases (h : Bystanders k) {i : Fin MAX_PROCESSES}
    (hi : (k.table.processes i).pid ≠ 0) : i = 0 ∨ i = 1 ∨ i = 2 := by
  have hlt : i.val < 3 := by
    by_contra hge
    exact hi (h.rest i (by omega))
  have : i.val = 0 ∨ i.val = 1 ∨ i.val = 2 := by omega
  rcases this with h0 | h0 | h0
  · exact Or.inl (Fin.ext h0)
  · exact Or.inr (Or.inl (Fin.ext h0))
  · exact Or.inr (Or.inr (Fin.ext h0))

theorem slotOf_two (h : Bystanders k) (h0 : (k.table.processes 0).pid ≠ 2) :
    k.table.slotOf 2 = some 1 := by
  refine position_eq_some_of_unique (by simp [h.pid1]) fun j hj => ?_
  simp only [beq_iff_eq] at hj
  rcases h.slot_cases (i := j) (by simp [hj]) with rfl | rfl | rfl
  · exact absurd hj h0
  · rfl
  · simp [h.pid2] at hj

theorem slotOf_three (h : Bystanders k) (h0 : (k.table.processes 0).pid ≠ 3) :
    k.table.slotOf 3 = some 2 := by
  refine position_eq_some_of_unique (by simp [h.pid2]) fun j hj => ?_
  simp only [beq_iff_eq] at hj
  rcases h.slot_cases (i := j) (by simp [hj]) with rfl | rfl | rfl
  · exact absurd hj h0
  · simp [h.pid1] at hj
  · rfl

theorem slotOf_zero (h : (k.table.processes 0).pid = n) : k.table.slotOf n = some 0 :=
  position_zero (by simp [h])

/-- A fork fills slot 0. -/
theorem fork (h : Bystanders k) (h0 : (k.table.processes 0).pid = 0)
    (hn : k.table.nextPid ≠ 0) :
    let k' := k.exec T (.fork (some 0x1000) 0)
    Bystanders k' ∧ (k'.table.processes 0).pid = k.table.nextPid ∧
      (k'.table.processes 0).parentPid = 2 ∧ (k'.table.processes 0).state = .ready ∧
      k'.table.nextPid = (k.table.nextPid + 1) % 2 ^ 32 := by
  have hget : k.table.get k.table.currentPid = some (k.table.processes 1) := by
    simp [ProcessTable.get, h.current, h.slotOf_two (by simp [h0])]
  rcases k.forkProcess_cases (some 0x1000) 0 with ⟨e, he⟩ |
    ⟨parent, c, i, -, hp, -, hc, hi, ⟨hz, -⟩ | ⟨-, he⟩⟩
  · have hcur : k.table.currentPid ≠ 0 := by simp [h.current]
    simp [forkProcess, hcur, hget, h.cr3, ProcessTable.alloc, slotOf_zero h0, hn] at he
  · exact absurd hz hn
  · have hi0 : i = 0 := by
      rw [slotOf_zero h0] at hi
      exact (Option.some.inj hi).symm
    subst hi0
    have hslot : (k.table.fill 0 k.table.currentPid forkName).slotOf k.table.nextPid = some 0 :=
      position_zero (by simp)
    have hk : k.exec T (.fork (some 0x1000) 0) =
        { k with
          table := ((k.table.fill 0 k.table.currentPid forkName).modify k.table.nextPid
            (forkRecord parent 0 c)) } := by
      simp only [exec, he]
    simp only [hk]
    refine ⟨h.congr (fun j hj => ?_) rfl rfl, ?_, ?_, ?_, rfl⟩
    · rw [ProcessTable.modify_processes, hslot, if_neg (fun hj0 => hj (Option.some.inj hj0).symm),
        k.table.fill_ne hj]
    all_goals
      rw [ProcessTable.modify_processes, hslot, if_pos rfl, ProcessTable.fill_self]
      simp [forkRecord, h.current]

/-- The child is killed. -/
theorem kill (h : Bystanders k) (h0 : (k.table.processes 0).pid = n) (hn : n ≠ 0)
    (hs : (k.table.processes 0).state = .ready) :
    let k' := k.exec T (.kill n SIGKILL)
    Bystanders k' ∧ (k'.table.processes 0).pid = n ∧
      (k'.table.processes 0).parentPid = (k.table.processes 0).parentPid ∧
      (k'.table.processes 0).state = .zombie ∧ k'.table.nextPid = k.table.nextPid := by
  have hslot := slotOf_zero h0
  have hk : k.exec T (.kill n SIGKILL) =
      { k with
        table := (k.table.modify n fun p => { p.killed SIGKILL with signalMask := 0 }) } := by
    simp [exec, ProcessTable.sysKill, ProcessTable.signal, ProcessTable.get, hslot, hs, hn,
      SIGKILL]
  simp only [hk]
  refine ⟨h.congr (fun j hj => ?_) rfl rfl, ?_, ?_, ?_, rfl⟩
  · rw [ProcessTable.modify_processes, hslot, if_neg (fun hj0 => hj (Option.some.inj hj0).symm)]
  all_goals
    rw [ProcessTable.modify_processes, hslot, if_pos rfl]
    simp [Process.killed, h0]

/-- The child is waited for. -/
theorem wait (h : Bystanders k) (h0 : (k.table.processes 0).pid = n) (hn : n ≠ 0)
    (hp : (k.table.processes 0).parentPid = 2) (hs : (k.table.processes 0).state = .zombie) :
    let k' := k.exec T (.waitpid n 0)
    Bystanders k' ∧ (k'.table.processes 0).pid = 0 ∧ k'.table.nextPid = k.table.nextPid := by
  have hwait : waitChild k.table n = some 0 := position_zero (by simp [h0, hn, hp, h.current])
  have hk : k.exec T (.waitpid n 0) = { k with table := k.table.setSlot 0 .empty } := by
    simp [exec, sysWaitpid, hwait, hs, h0, ProcessTable.free, slotOf_zero h0]
  simp only [hk]
  refine ⟨h.congr (fun j hj => ?_) rfl rfl, ?_, rfl⟩
  · simp [ProcessTable.setSlot, Function.update_of_ne hj]
  · simp [ProcessTable.setSlot, Process.empty]

/-- One round of fork, kill and wait. -/
theorem round (h : Bystanders k) (h0 : (k.table.processes 0).pid = 0)
    (hn : k.table.nextPid ≠ 0) :
    ∃ k', Reaches (Step T) (fun _ _ => True) k k' ∧ Bystanders k' ∧
      (k'.table.processes 0).pid = 0 ∧ k'.table.nextPid = (k.table.nextPid + 1) % 2 ^ 32 := by
  obtain ⟨b1, p1, pp1, s1, n1⟩ := h.fork (T := T) h0 hn
  obtain ⟨b2, p2, pp2, s2, n2⟩ := b1.kill (T := T) p1 hn s1
  obtain ⟨b3, p3, n3⟩ := b2.wait (T := T) p2 hn (pp2.trans pp1) s2
  refine ⟨_, ?_, b3, p3, ?_⟩
  · exact (((Reaches.refl k).snoc trivial rfl).snoc trivial rfl).snoc trivial rfl
  · rw [n3, n2, n1]

/-- Rounds until the counter is `m`. -/
theorem rounds (h : Bystanders k) (h0 : (k.table.processes 0).pid = 0)
    (hn : k.table.nextPid ≠ 0) (m : Nat) (hm : k.table.nextPid + m < 2 ^ 32) :
    ∃ k', Reaches (Step T) (fun _ _ => True) k k' ∧ Bystanders k' ∧
      (k'.table.processes 0).pid = 0 ∧ k'.table.nextPid = k.table.nextPid + m := by
  induction m with
  | zero => exact ⟨k, Reaches.refl k, h, h0, rfl⟩
  | succ m ih =>
    obtain ⟨k1, r1, b1, p1, n1⟩ := ih (by omega)
    obtain ⟨k2, r2, b2, p2, n2⟩ := b1.round (T := T) p1 (by omega)
    refine ⟨k2, r1.trans r2, b2, p2, ?_⟩
    rw [n2, n1, Nat.mod_eq_of_lt (by omega)]
    rfl

/-- With the counter at 0, `alloc` marks slot 0 but answers 0. -/
theorem fork_wrapped (h : Bystanders k) (h0 : (k.table.processes 0).pid = 0)
    (hn : k.table.nextPid = 0) :
    let k' := k.exec T (.fork (some 0x1000) 0)
    Bystanders k' ∧ (k'.table.processes 0).pid = 0 ∧ k'.table.nextPid = 1 := by
  have hget : k.table.get k.table.currentPid = some (k.table.processes 1) := by
    simp [ProcessTable.get, h.current, h.slotOf_two (by simp [h0])]
  have hk : k.exec T (.fork (some 0x1000) 0) =
      { k with table := k.table.fill 0 k.table.currentPid forkName } := by
    have hcur : k.table.currentPid ≠ 0 := by simp [h.current]
    simp [exec, forkProcess, hcur, hget, h.cr3, ProcessTable.alloc, slotOf_zero h0, hn,
      ProcessTable.fill]
  simp only [hk]
  refine ⟨h.congr (fun j hj => k.table.fill_ne hj _ _) rfl rfl, ?_, ?_⟩
  · simp [hn]
  · simp [hn]

/-- With process 2's pid in slot 0 as well, a switch to process 3 leaves the
mark in slot 1. -/
theorem schedule (h : Bystanders k) (h0 : (k.table.processes 0).pid = 2) :
    let k' := k.exec T (.schedule .none 0)
    (k'.table.processes 1).state = .running ∧ (k'.table.processes 2).state = .running := by
  have hnext : k.findNextReady k.table.currentPid = some 3 := by
    have hscan : scanAfter (fun p : Process => decide (p.pid ≠ 0 ∧ p.state = .ready)) 0
        k.table.processes = some 2 :=
      scanAfter_second (by decide) (by simp [h.running1])
        (decide_eq_true ⟨fun hz => absurd (h.pid2.symm.trans hz) (by decide), h.ready2⟩)
    simp only [findNextReady, h.current, slotOf_zero h0, Option.getD_some, hscan, Option.map_some,
      h.pid2]
  have hk : (k.exec T (.schedule .none 0)).table = markSwitch k.table 2 3 := by
    simp only [exec, Kernel.schedule, hnext]
    simp [Locks.none, h.current, doContextSwitch, h.slotOf_three (by simp [h0]), h.initialised2]
  simp only [hk]
  have hleave : ∀ p, (leave p).pid = p.pid := by
    intro p
    unfold leave
    split <;> rfl
  have hslot : (k.table.modify 2 leave).slotOf 3 = some 2 := by
    rw [ProcessTable.slotOf_modify hleave, h.slotOf_three (by simp [h0])]
  constructor
  · simp only [markSwitch, ProcessTable.setCurrent]
    rw [if_neg (by decide), ProcessTable.modify_processes, hslot, if_neg (by decide),
      ProcessTable.modify_processes, slotOf_zero h0, if_neg (by decide)]
    exact h.running1
  · simp only [markSwitch, ProcessTable.setCurrent]
    rw [if_neg (by decide), ProcessTable.modify_processes, hslot, if_pos rfl]
    rfl

end Bystanders

/-- Slot 0 is used and freed, and processes 2 and 3 are spawned; process 2
runs. -/
def wrapStart : Kernel :=
  [.alloc 0 [], .spawn [] 0x400000 USER_STACK_TOP 0x1000,
      .spawn [] 0x400000 USER_STACK_TOP 0x2000, .switchToNext .none 0, .kill 1 SIGKILL,
      .reapZombies].foldl (exec exampleTops) boot

theorem bystanders_wrapStart : Bystanders wrapStart where
  current := by decide
  pid1 := by decide
  running1 := by decide
  cr3 := by decide
  pid2 := by decide
  ready2 := by decide
  initialised2 := by decide
  rest := by decide

/-- Without the condition on new pids, two slots can be marked as running. -/
theorem not_singleRunning_wrapped :
    ∃ k, Reaches (Step exampleTops) (fun _ _ => True) boot k ∧
      (k.table.processes 1).state = .running ∧ (k.table.processes 2).state = .running := by
  have hnext : wrapStart.table.nextPid = 4 := by decide
  obtain ⟨k1, r1, b1, p1, n1⟩ := bystanders_wrapStart.rounds (T := exampleTops) (by decide)
    (by decide) (2 ^ 32 - 5) (by rw [hnext]; decide)
  -- the last pid before the counter wraps
  obtain ⟨k2, r2, b2, p2, n2⟩ := b1.round (T := exampleTops) p1 (by rw [n1, hnext]; decide)
  rw [n1, hnext] at n2
  obtain ⟨b3, p3, n3⟩ := b2.fork_wrapped (T := exampleTops) p2 n2
  obtain ⟨k4, r4, b4, p4, n4⟩ := b3.round (T := exampleTops) p3 (by rw [n3]; decide)
  rw [n3] at n4
  obtain ⟨b5, p5, -, -, -⟩ := b4.fork (T := exampleTops) p4 (by rw [n4]; decide)
  rw [n4] at p5
  have hrun := b5.schedule (T := exampleTops) p5
  refine ⟨_, ?_, hrun.1, hrun.2⟩
  have hstart : Reaches (Step exampleTops) (fun _ _ => True) boot wrapStart :=
    Reaches.foldl ⟨trivial, trivial, trivial, trivial, trivial, trivial, trivial⟩
  exact (((((hstart.trans r1).trans r2).snoc trivial rfl).trans r4).snoc trivial rfl).snoc
    trivial rfl

end Kernel

end AeroOS.Scheduler
