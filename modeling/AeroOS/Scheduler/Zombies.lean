import AeroOS.Scheduler.Orphans

/-!
# Dead processes

A zombie keeps its state and its exit code until its slot is freed, as long as
the current process does not end or replace itself after it has died
(`CurrentAlive`).  `Remains t t'` is what one step does to the zombies, and
`zombie_of_run` is the run lemma.
-/

namespace AeroOS.Scheduler

open AeroOS.Cells
open AeroOS.Proc
open AeroOS.Run

/-- The same dead process, with the same exit code. -/
def SameDead (p q : Process) : Prop :=
  q.pid = p.pid ∧ q.state = .zombie ∧ q.exitCode = p.exitCode

/-- Every zombie remains as it died. -/
def Remains (t t' : ProcessTable) : Prop :=
  ∀ i, (t.processes i).pid ≠ 0 → (t.processes i).state = .zombie →
    SameDead (t.processes i) (t'.processes i)

namespace Remains

variable {t t' t'' : ProcessTable}

theorem refl (t : ProcessTable) : Remains t t := fun _ _ hz => ⟨rfl, hz, rfl⟩

theorem trans (h : Remains t t') (h' : Remains t' t'') : Remains t t'' := by
  intro i hi hz
  obtain ⟨hp, hs, hc⟩ := h i hi hz
  obtain ⟨hp', hs', hc'⟩ := h' i (hp ▸ hi) hs
  exact ⟨hp'.trans hp, hs', hc'.trans hc⟩

/-- An edit that leaves zombies as they are. -/
theorem modify {f : Process → Process} (t : ProcessTable) (pid : Nat)
    (hf : ∀ p, p.state = .zombie → SameDead p (f p)) : Remains t (t.modify pid f) := by
  intro i _ hz
  rw [ProcessTable.modify_processes]
  split
  · exact hf _ hz
  · exact ⟨rfl, hz, rfl⟩

/-- An edit of a process that is not a zombie. -/
theorem modify_of_alive {f : Process → Process} {pid : Nat}
    (halive : ∀ p, t.get pid = some p → p.state ≠ .zombie) : Remains t (t.modify pid f) := by
  intro i _ hz
  rw [ProcessTable.modify_processes]
  split
  · rename_i hi
    exact absurd hz (halive _ (by simp [ProcessTable.get, hi]))
  · exact ⟨rfl, hz, rfl⟩

theorem fill {i : Fin MAX_PROCESSES} (hi : (t.processes i).pid = 0) (parent : Nat)
    (name : List UInt8) : Remains t (t.fill i parent name) := by
  intro j hj hz
  have hji : j ≠ i := by
    rintro rfl
    exact hj hi
  rw [t.fill_ne hji]
  exact ⟨rfl, hz, rfl⟩

theorem alloc (t : ProcessTable) (parent : Nat) (name : List UInt8) :
    Remains t (t.alloc parent name).2 := by
  rcases t.alloc_cases parent name with ⟨-, h⟩ | ⟨i, hi, h⟩
  · rw [h]
    exact refl t
  · rw [h]
    exact fill (ProcessTable.slotOf_pid hi) parent name

theorem markExit {pid : Nat} (code : Int)
    (halive : ∀ p, t.get pid = some p → p.state ≠ .zombie) :
    Remains t (t.markExit pid code).2 := by
  rcases t.markExit_cases pid code with h | h <;> rw [h]
  · exact refl t
  · exact modify_of_alive halive

theorem sendSignal (t : ProcessTable) (pid signum : Nat) :
    Remains t (t.sendSignal pid signum).2 := by
  rcases t.sendSignal_cases pid signum with h | h <;> rw [h]
  · exact refl t
  · exact modify t pid fun _ hz => ⟨rfl, hz, rfl⟩

/-- A termination signal is refused by a zombie. -/
theorem signal (t : ProcessTable) (pid signum : Nat) : Remains t (t.signal pid signum).2 := by
  rcases t.signal_cases pid signum with h | ⟨p, hp, hz, h⟩ | h <;> rw [h]
  · exact refl t
  · refine modify_of_alive fun q hq => ?_
    obtain rfl := Option.some.inj (hp.symm.trans hq)
    exact hz
  · exact sendSignal t pid signum

theorem sysKill (t : ProcessTable) (pid signum : Nat) : Remains t (t.sysKill pid signum).2 := by
  rcases t.sysKill_cases pid signum with h | ⟨-, h⟩ <;> rw [h]
  · exact refl t
  · exact signal t pid signum

/-- A pending signal other than the termination signals changes no state. -/
theorem deliverPendingInto
    (hpend : ∀ p, t.get t.currentPid = some p → p.state = .zombie →
      p.hasPending SIGKILL = false ∧ p.hasPending SIGTERM = false) :
    Remains t t.deliverPendingInto := by
  rcases t.deliverPendingInto_cases with h | ⟨-, h⟩ <;> rw [h]
  · exact refl t
  · intro i _ hz
    rw [ProcessTable.modify_processes]
    split
    · rename_i hi
      obtain ⟨hk, ht⟩ := hpend _ (by simp [ProcessTable.get, hi]) hz
      unfold ProcessTable.deliverTo
      split
      · exact ⟨rfl, hz, rfl⟩
      · rw [hk, ht]
        exact ⟨rfl, hz, rfl⟩
    · exact ⟨rfl, hz, rfl⟩

theorem demote (t : ProcessTable) (pid : Nat) : Remains t (t.modify pid Kernel.demote) := by
  refine modify t pid fun p hz => ?_
  have hne : p.state ≠ .ready := by simp [hz]
  rw [Kernel.demote, if_neg hne]
  exact ⟨rfl, hz, rfl⟩

theorem leave (t : ProcessTable) (pid : Nat) : Remains t (t.modify pid Kernel.leave) := by
  refine modify t pid fun p hz => ?_
  have hne : p.state ≠ .running := by simp [hz]
  rw [Kernel.leave, if_neg hne]
  exact ⟨rfl, hz, rfl⟩

end Remains

/-- `leave` makes no zombie and revives none. -/
theorem leave_state (p : Process) : (Kernel.leave p).state = .zombie ↔ p.state = .zombie := by
  unfold Kernel.leave
  split
  · rename_i h
    simp [h]
  · exact Iff.rfl

/-- A switch to a process that is not a zombie. -/
theorem Remains.markSwitch {t : ProcessTable} (old : Nat) {new : Nat}
    (halive : ∀ p, t.get new = some p → p.state ≠ .zombie) :
    Remains t (Kernel.markSwitch t old new) := by
  have hrun : ∀ u : ProcessTable, (∀ p, u.get new = some p → p.state ≠ .zombie) →
      Remains u ((u.modify new Kernel.run).setCurrent new) := fun u hu => by
    exact Remains.modify_of_alive hu
  unfold Kernel.markSwitch
  split
  · exact hrun t halive
  · refine (Remains.leave t old).trans (hrun _ fun p hp hz => ?_)
    obtain ⟨i, hi, rfl⟩ := ProcessTable.get_eq_some hp
    rw [ProcessTable.slotOf_modify Kernel.leave_pid] at hi
    refine halive (t.processes i) (by simp [ProcessTable.get, hi]) ?_
    rw [ProcessTable.modify_processes] at hz
    split at hz
    · exact (leave_state _).1 hz
    · exact hz

theorem Resched.remains {t t' : ProcessTable} {old new : Nat} (h : Resched t old new t')
    (halive : ∀ p, t.get new = some p → p.state ≠ .zombie) : Remains t t' := by
  cases h with
  | idle => exact Remains.refl t
  | demoted => exact Remains.demote t new
  | switched i _ => exact Remains.markSwitch old halive

/-- The scheduler picks a ready process. -/
theorem Picked.remains {t t' : ProcessTable} (h : Picked t t') (hd : Distinct t) :
    Remains t t' := by
  cases h with
  | idle => exact Remains.refl t
  | picked j pid ready resched =>
    refine resched.remains fun p hp hz => ?_
    rw [ProcessTable.get, hd.slotOf_eq pid, Option.map_some, Option.some.injEq] at hp
    rw [← hp, ready] at hz
    cases hz

namespace Kernel

variable {k : Kernel} {T : Fin MAX_PROCESSES → Nat}

/-- The current process is not a zombie. -/
def CurrentAlive (k : Kernel) : Prop :=
  ∀ p, k.table.get k.table.currentPid = some p → p.state ≠ .zombie

/-- A current process that is a zombie has no termination signal pending. -/
def NoPendingDeath (k : Kernel) : Prop :=
  ∀ p, k.table.get k.table.currentPid = some p → p.state = .zombie →
    p.hasPending SIGKILL = false ∧ p.hasPending SIGTERM = false

/-- The condition on an action: new pids are not in use; a process that has died
does not exit, fault or exec, and no second termination signal is pending for
it. -/
def DiesOnce (k : Kernel) : Action → Prop
  | .markExit pid _ => ∀ p, k.table.get pid = some p → p.state ≠ .zombie
  | .exit .. | .pageFault .. | .execReplace .. | .restartCurrent .. => k.CurrentAlive
  | .deliverPending => k.NoPendingDeath
  | .tick held _ => k.delivers held → k.NoPendingDeath
  | .alloc .. | .spawn .. | .fork .. => NextNew k.table
  | _ => True

/-- The action frees slot `i`. -/
def Frees (k : Kernel) (i : Fin MAX_PROCESSES) : Action → Prop
  | .free pid => k.table.slotOf pid = some i
  | .waitpid pid _ => ∃ j, waitChild k.table pid = some j ∧
      (k.table.processes j).state = .zombie ∧ k.table.slotOf (k.table.processes j).pid = some i
  | .reapZombies | .handleOom => (k.table.processes i).state = .zombie
  | _ => False

/-- A new process takes an empty slot, and the record that is then written is
its own. -/
theorem remains_fill {i : Fin MAX_PROCESSES} (hi : (k.table.processes i).pid = 0)
    (hn : k.table.nextPid ≠ 0) (hnew : NextNew k.table) (parent : Nat) (name : List UInt8)
    (f : Process → Process) :
    Remains k.table ((k.table.fill i parent name).modify k.table.nextPid f) := by
  refine (Remains.fill hi parent name).trans (Remains.modify_of_alive fun p hp hz => ?_)
  obtain ⟨j, hj, rfl⟩ := ProcessTable.get_eq_some hp
  have hpid := ProcessTable.slotOf_pid hj
  by_cases hji : j = i
  · subst hji
    simp at hz
  · rw [k.table.fill_ne hji] at hpid
    exact hnew j (hpid ▸ hn) hpid

theorem spawnUserProcess_remains (hnew : NextNew k.table) {name : List UInt8}
    {entry stackTop cr3 : Nat} :
    Remains k.table (k.spawnUserProcess T name entry stackTop cr3).2.table := by
  unfold spawnUserProcess
  rcases k.table.alloc_cases 0 name with ⟨-, he⟩ | ⟨i, hi, he⟩
  · simp only [he]
    exact Remains.refl _
  · simp only [he]
    split
    · exact Remains.fill (ProcessTable.slotOf_pid hi) 0 name
    · rename_i hn
      exact remains_fill (ProcessTable.slotOf_pid hi) hn hnew 0 name _

theorem forkProcess_remains (hnew : NextNew k.table) {childCr3 : Option Nat} {userRsp : Nat} :
    Remains k.table (k.forkProcess childCr3 userRsp).2.table := by
  rcases k.forkProcess_cases childCr3 userRsp with ⟨e, he⟩ |
    ⟨parent, c, i, -, -, -, -, hi, ⟨-, he⟩ | ⟨hn, he⟩⟩
  · rw [he]
    exact Remains.refl _
  · rw [he]
    exact Remains.fill (ProcessTable.slotOf_pid hi) _ _
  · rw [he]
    exact remains_fill (ProcessTable.slotOf_pid hi) hn hnew _ _ _

theorem sysExit_remains (hd : Distinct k.table) (halive : k.CurrentAlive) (status : Int)
    (rsp : Nat) : Remains k.table (k.sysExit status rsp).2.table :=
  (Remains.markExit status halive).trans
    ((switchToNext_table (k := { k with
        table := (k.table.markExit k.table.currentPid status).2 })).remains
      (hd.pidsKept (markExit_pidsKept k.table _ status)))

theorem onTimerTick_remains (hd : Distinct k.table) {held : Locks}
    (hpend : k.delivers held → k.NoPendingDeath) (rsp : Nat) : Remains k.table (k.onTimerTick held rsp).2.table := by
  obtain ⟨t, ht, hp⟩ := onTimerTick_table k held rsp
  rcases ht with rfl | ⟨hdel, rfl⟩
  · exact hp.remains hd
  · exact (Remains.deliverPendingInto (hpend hdel)).trans (hp.remains (hd.pidsKept
      (ProcessTable.deliverPendingInto_keptAll k.table).survives.pidsKept))

/-- A slot other than the one that is freed. -/
theorem free_ne {t t' : ProcessTable} {pid c : Nat} (h : t.free pid = some (c, t'))
    {i : Fin MAX_PROCESSES} (hi : t.slotOf pid ≠ some i) : t'.processes i = t.processes i := by
  simp only [ProcessTable.free, Option.map_eq_some_iff, Prod.mk.injEq] at h
  obtain ⟨j, hj, -, rfl⟩ := h
  have hij : i ≠ j := by
    rintro rfl
    exact hi hj
  simp [ProcessTable.setSlot, Function.update_of_ne hij]

/-- The step lemma: a zombie whose slot is not freed remains. -/
theorem exec_remains {a : Action} (hd : Distinct k.table) (hok : k.DiesOnce a)
    {i : Fin MAX_PROCESSES} (hi : (k.table.processes i).pid ≠ 0)
    (hz : (k.table.processes i).state = .zombie) (hf : ¬ k.Frees i a) :
    SameDead (k.table.processes i) ((k.exec T a).table.processes i) := by
  have hsame : SameDead (k.table.processes i) (k.table.processes i) := ⟨rfl, hz, rfl⟩
  cases a with
  | alloc parentPid name => exact Remains.alloc k.table parentPid name i hi hz
  | free pid =>
    simp only [exec]
    cases h : k.table.free pid with
    | none => exact hsame
    | some r =>
      rw [free_ne h hf]
      exact hsame
  | markExit pid code => exact Remains.markExit code hok i hi hz
  | sendSignal pid signum => exact Remains.sendSignal k.table pid signum i hi hz
  | reapZombies => exact absurd hz hf
  | handleOom => exact absurd hz hf
  | deliverPending => exact Remains.deliverPendingInto hok i hi hz
  | spawn => exact spawnUserProcess_remains hok i hi hz
  | fork => exact forkProcess_remains hok i hi hz
  | buildChildStack slot => exact hsame
  | execReplace entry userRsp cr3 name => exact Remains.modify_of_alive hok i hi hz
  | restartCurrent rsp =>
    rcases restartCurrent_table k rsp with h | ⟨-, h⟩
    · simp only [exec]
      rw [h]
      exact hsame
    · exact h.remains hok i hi hz
  | exit status rsp => exact sysExit_remains hd hok status rsp i hi hz
  | pageFault rsp => exact sysExit_remains hd hok 139 rsp i hi hz
  | kill pid signum => exact Remains.sysKill k.table pid signum i hi hz
  | waitpid pid rsp =>
    rcases k.sysWaitpid_table pid rsp with ⟨j, c, t, hj, hjz, hfree, -, ht⟩ | ⟨-, hp⟩
    · simp only [exec, ht]
      rw [free_ne hfree fun h => hf ⟨j, hj, hjz, h⟩]
      exact hsame
    · exact hp.remains hd i hi hz
  | yieldNow rsp => exact yieldNow_table.remains hd i hi hz
  | schedule held rsp => exact schedule_table.remains hd i hi hz
  | switchToNext held rsp => exact switchToNext_table.remains hd i hi hz
  | tick held rsp => exact onTimerTick_remains hd hok rsp i hi hz
  | startScheduler => exact hsame

theorem freshPids_of_diesOnce {a : Action} (h : k.DiesOnce a) : FreshPids k a := by
  intro ha
  cases a with
  | alloc | spawn | fork => exact h
  | _ => simp [Action.allocates] at ha

/-- In every run that meets the condition, a zombie keeps its state and its exit
code as long as its slot is not freed. -/
theorem zombie_of_run {k' : Kernel} (hrun : Reaches (Step T) DiesOnce boot k)
    (i : Fin MAX_PROCESSES) (hi : (k.table.processes i).pid ≠ 0)
    (hz : (k.table.processes i).state = .zombie)
    (hrun' : Reaches (Step T) (fun k a => k.DiesOnce a ∧ ¬ k.Frees i a) k k') :
    (k'.table.processes i).pid = (k.table.processes i).pid ∧
      (k'.table.processes i).state = .zombie ∧
      (k'.table.processes i).exitCode = (k.table.processes i).exitCode := by
  have hdist : Distinct k.table := by
    refine Reaches.invariant (I := fun k => Distinct k.table) ?_ hrun fun _ _ h => absurd rfl h
    rintro k a k' hd hok rfl
    exact exec_distinct hd (freshPids_of_diesOnce hok)
  refine (Reaches.invariant (I := fun k' => Distinct k'.table ∧
    SameDead (k.table.processes i) (k'.table.processes i)) ?_ hrun' ⟨hdist, rfl, hz, rfl⟩).2
  rintro k1 a k2 ⟨hd, hp, hs, hc⟩ ⟨hok, hf⟩ rfl
  obtain ⟨hp', hs', hc'⟩ := exec_remains (T := T) hd hok (hp ▸ hi) hs hf
  exact ⟨exec_distinct hd (freshPids_of_diesOnce hok), hp'.trans hp, hs', hc'.trans hc⟩

/-- Process 1 runs and kills process 2. -/
def killRun : List Action :=
  [.spawn [] 0x400000 USER_STACK_TOP 0x1000, .spawn [] 0x400000 USER_STACK_TOP 0x2000,
    .switchToNext .none 0, .startScheduler, .kill 2 SIGKILL]

/-- The exit code of process 2 stays through a tick. -/
theorem zombie_of_run_tick :
    let k := killRun.foldl (exec exampleTops) boot
    let k' := k.exec exampleTops (.tick .none 0)
    (k.table.processes 1).exitCode = 137 ∧ (k'.table.processes 1).state = .zombie ∧
      (k'.table.processes 1).exitCode = (k.table.processes 1).exitCode := by
  have hrun : Reaches (Step exampleTops) DiesOnce boot (killRun.foldl (exec exampleTops) boot) :=
    Reaches.foldl ⟨fun i => by revert i; decide, fun i => by revert i; decide, trivial, trivial,
      trivial, trivial⟩
  have hstate : ((killRun.foldl (exec exampleTops) boot).table.get
      (killRun.foldl (exec exampleTops) boot).table.currentPid).map (·.state) = some .running := by
    decide
  have htick : Reaches (Step exampleTops) (fun k a => k.DiesOnce a ∧ ¬ k.Frees 1 a)
      (killRun.foldl (exec exampleTops) boot)
      ((killRun.foldl (exec exampleTops) boot).exec exampleTops (.tick .none 0)) := by
    refine (Reaches.refl _).snoc (e := .tick .none 0) ⟨fun _ p hp hz => ?_, id⟩ rfl
    rw [hp, Option.map_some, Option.some.injEq, hz] at hstate
    cases hstate
  have h := zombie_of_run hrun 1 (by decide) (by decide) htick
  exact ⟨by decide, h.2.1, h.2.2⟩

/-- Process 1 kills itself and then calls `exec`: it is ready again. -/
theorem not_zombie_exec :
    let k := [.spawn [] 0x400000 USER_STACK_TOP 0x1000, .switchToNext .none 0,
      .kill 1 SIGKILL].foldl (exec exampleTops) boot
    let k' := k.exec exampleTops (.execReplace 0x400000 USER_STACK_TOP 0x2000 [])
    Reaches (Step exampleTops) (fun _ _ => True) boot k ∧
      (k.table.processes 0).pid = 1 ∧ (k.table.processes 0).state = .zombie ∧
      (k'.table.processes 0).pid = 1 ∧ (k'.table.processes 0).state = .ready :=
  ⟨Reaches.foldl ⟨trivial, trivial, trivial, trivial⟩, by decide, by decide, by decide, by decide⟩

end Kernel

end AeroOS.Scheduler
