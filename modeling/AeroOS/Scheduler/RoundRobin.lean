import AeroOS.Scheduler.SwitchLocks
import AeroOS.Scheduler.Zombies

/-!
# Round robin

`find_next_ready` scans the slots after the current process, going round.  For a
process that stays ready, `toGo` counts the slots that lie between the current
process and it; each switch that chooses another process takes the count down.

* `nextSlot_closer`: one choice.
* `toGo_step`: one action of the system.  Only a choice changes the current
  process, so the count never goes up.
* `toGo_run`: the choices of a run.
-/

namespace AeroOS.Scheduler

open AeroOS.Cells
open AeroOS.Proc
open AeroOS.Run

/-- The slot after which `find_next_ready` scans. -/
def scanStart (t : ProcessTable) (after : Nat) : Fin MAX_PROCESSES := (t.slotOf after).getD 0

/-- The slot that `find_next_ready` finds. -/
def nextSlot (t : ProcessTable) (after : Nat) : Option (Fin MAX_PROCESSES) :=
  scanAfter (fun p => p.pid ≠ 0 ∧ p.state = .ready) (scanStart t after) t.processes

theorem findNextReady_eq (k : Kernel) (after : Nat) :
    k.findNextReady after = (nextSlot k.table after).map fun j => (k.table.processes j).pid := rfl

variable {t t' : ProcessTable} {q j : Fin MAX_PROCESSES} {pid after : Nat}

/-- The process with the pid waits in slot `q`. -/
structure Waits (q : Fin MAX_PROCESSES) (pid : Nat) (t : ProcessTable) : Prop where
  holds : (t.processes q).pid = pid
  nonzero : pid ≠ 0
  ready : (t.processes q).state = .ready

theorem nextSlot_sat (h : nextSlot t after = some j) :
    (t.processes j).pid ≠ 0 ∧ (t.processes j).state = .ready := by
  simpa using scanAfter_sat h

/-- A choice of another process is a step towards the one that waits. -/
theorem nextSlot_closer (hq : Waits q pid t) (h : nextSlot t after = some j) (hne : j ≠ q) :
    cyclicDist (scanStart t after) j + cyclicDist j q = cyclicDist (scanStart t after) q := by
  have hmatch : (decide ((t.processes q).pid ≠ 0 ∧ (t.processes q).state = .ready)) = true := by
    rw [hq.holds, hq.ready]
    exact decide_eq_true ⟨hq.nonzero, rfl⟩
  refine cyclicDist_add (Nat.lt_of_le_of_ne (scanAfter_first h hmatch) fun he => hne ?_)
  exact cyclicDist_inj he

/-- The slots from the current process to slot `q`, going round; all of them when
there is no current process. -/
def toGo (q : Fin MAX_PROCESSES) (t : ProcessTable) : Nat :=
  if t.currentPid = 0 then MAX_PROCESSES
  else
    match t.slotOf t.currentPid with
    | some i => cyclicDist i q
    | none => MAX_PROCESSES

theorem toGo_pos (q : Fin MAX_PROCESSES) (t : ProcessTable) : 0 < toGo q t := by
  unfold toGo
  split
  · decide
  · split
    · exact cyclicDist_pos ..
    · decide

theorem toGo_le (q : Fin MAX_PROCESSES) (t : ProcessTable) : toGo q t ≤ MAX_PROCESSES := by
  unfold toGo
  split
  · exact le_rfl
  · split
    · exact cyclicDist_le ..
    · exact le_rfl

theorem toGo_of_slot {i : Fin MAX_PROCESSES} (h0 : t.currentPid ≠ 0)
    (hi : t.slotOf t.currentPid = some i) : toGo q t = cyclicDist i q := by
  simp only [toGo, if_neg h0, hi]

/-- The scan starts no farther away. -/
theorem scanStart_le_toGo (q : Fin MAX_PROCESSES) (t : ProcessTable) :
    cyclicDist (scanStart t t.currentPid) q ≤ toGo q t := by
  by_cases h0 : t.currentPid = 0
  · simp only [toGo, if_pos h0]
    exact cyclicDist_le ..
  · cases hi : t.slotOf t.currentPid with
    | none =>
      simp only [toGo, if_neg h0, hi]
      exact cyclicDist_le ..
    | some i =>
      rw [toGo_of_slot h0 hi, scanStart, hi]
      exact le_rfl

/-- Tables with the same pids and the same current process. -/
def SamePids (t t' : ProcessTable) : Prop :=
  t'.currentPid = t.currentPid ∧ ∀ i, (t'.processes i).pid = (t.processes i).pid

theorem SamePids.toGo (h : SamePids t t') (q : Fin MAX_PROCESSES) : toGo q t' = toGo q t := by
  have hslot : t'.slotOf t.currentPid = t.slotOf t.currentPid :=
    position_congr fun i => by rw [h.2 i]
  simp only [Scheduler.toGo, h.1, hslot]

/-- The current process stays, in its slot. -/
theorem toGo_keep (hcur : t'.currentPid = t.currentPid) (hd : Distinct t')
    (hkeep : t.currentPid ≠ 0 → ∀ i, t.slotOf t.currentPid = some i →
      (t'.processes i).pid = t.currentPid) : toGo q t' ≤ toGo q t := by
  by_cases h0 : t.currentPid = 0
  · simp only [toGo, hcur, if_pos h0, le_refl]
  · cases hi : t.slotOf t.currentPid with
    | none =>
      rw [show toGo q t = MAX_PROCESSES by simp only [toGo, if_neg h0, hi]]
      exact toGo_le q t'
    | some i =>
      have hpid := hkeep h0 i hi
      have hi' : t'.slotOf t'.currentPid = some i := by
        rw [hcur, ← hpid]
        exact hd.slotOf_eq (hpid ▸ h0)
      rw [toGo_of_slot h0 hi, toGo_of_slot (hcur ▸ h0) hi']

namespace Kernel

variable {k : Kernel} {T : Fin MAX_PROCESSES → Nat}

/-- The switch that an action completes to a process that `find_next_ready` has
chosen. -/
def chosen (k : Kernel) : Action → Option Switch
  | .exit status rsp => (k.sysExit status rsp).1
  | .pageFault rsp => (k.userPageFault rsp).1
  | .waitpid pid rsp =>
    match (k.sysWaitpid pid rsp).1 with
    | .waiting => (k.yieldNow rsp).1
    | _ => none
  | .yieldNow rsp => (k.yieldNow rsp).1
  | .schedule held rsp => (k.schedule held rsp).1
  | .switchToNext held rsp => (k.switchToNext held rsp).1
  | .tick held rsp => (k.onTimerTick held rsp).1
  | _ => none

/-- 1 for a choice. -/
def cost (s : Option Switch) : Nat := if s.isSome then 1 else 0

/-- The choices of a run. -/
def choices (T : Fin MAX_PROCESSES → Nat) : Kernel → List Action → Nat
  | _, [] => 0
  | k, a :: l => cost (k.chosen a) + choices T (k.exec T a) l

/-! ## One choice -/

/-- A decision of the scheduler: nothing, or a switch to the slot found. -/
def Decided (k : Kernel) (r : Option Switch × Kernel) : Prop :=
  r.1 = none ∧ r.2.table = k.table ∨ ∃ j held rsp, nextSlot k.table k.table.currentPid = some j ∧
    r = k.doContextSwitch held rsp k.table.currentPid (k.table.processes j).pid

theorem schedule_decided (held : Locks) (rsp : Nat) : Decided k (k.schedule held rsp) := by
  unfold schedule
  split
  · exact Or.inl ⟨rfl, rfl⟩
  · rw [findNextReady_eq]
    cases hj : nextSlot k.table k.table.currentPid with
    | none => exact Or.inl ⟨rfl, rfl⟩
    | some j =>
      simp only [Option.map_some]
      split
      · exact Or.inl ⟨rfl, rfl⟩
      · exact Or.inr ⟨j, held, rsp, hj, rfl⟩

theorem switchToNext_decided (held : Locks) (rsp : Nat) : Decided k (k.switchToNext held rsp) := by
  unfold switchToNext
  split
  · exact Or.inl ⟨rfl, rfl⟩
  · rw [findNextReady_eq]
    cases hj : nextSlot k.table k.table.currentPid with
    | none => exact Or.inl ⟨rfl, rfl⟩
    | some j =>
      simp only [Option.map_some]
      split
      · exact Or.inl ⟨rfl, rfl⟩
      · exact Or.inr ⟨j, held, rsp, hj, rfl⟩

theorem yieldNow_decided (rsp : Nat) : Decided k (k.yieldNow rsp) := by
  unfold yieldNow
  split
  · exact Or.inl ⟨rfl, rfl⟩
  · exact schedule_decided ..

/-- After a switch to slot `j` the scan starts there. -/
theorem toGo_markSwitch (hd : Distinct k.table) (hj : (k.table.processes j).pid ≠ 0) (old : Nat) :
    toGo q (markSwitch k.table old (k.table.processes j).pid) = cyclicDist j q := by
  refine toGo_of_slot hj ?_
  rw [ProcessTable.slotOf_keptAll (markSwitch_keptAll hj)]
  exact hd.slotOf_eq hj

/-- A decision that leaves the process waiting takes the count down when it is a
choice, and never up. -/
theorem Decided.toGo {r : Option Switch × Kernel} (h : Decided k r) (hd : Distinct k.table)
    (hq : Waits q pid k.table) (hq' : Waits q pid r.2.table) :
    toGo q r.2.table + cost r.1 ≤ toGo q k.table := by
  rcases h with ⟨hnone, htable⟩ | ⟨j, held, rsp, hj, rfl⟩
  · rw [hnone, htable]
    exact le_rfl
  have hpid : (k.table.processes j).pid ≠ 0 := (nextSlot_sat hj).1
  have hslot := hd.slotOf_eq hpid
  have hmark : (k.doContextSwitch held rsp k.table.currentPid (k.table.processes j).pid).2.table =
      markSwitch k.table k.table.currentPid (k.table.processes j).pid →
        cyclicDist j q + 1 ≤ Scheduler.toGo q k.table := fun htable => by
    have hne : j ≠ q := by
      rintro rfl
      have hready := hq'.ready
      rw [htable, markSwitch_processes] at hready
      simp [hslot, run] at hready
    have hcloser := nextSlot_closer hq hj hne
    have hle := scanStart_le_toGo q k.table
    have hpos := cyclicDist_pos (scanStart k.table k.table.currentPid) j
    omega
  rcases k.doContextSwitch_cases held rsp k.table.currentPid (k.table.processes j).pid with he |
    ⟨i, -, -, ⟨-, he⟩ | ⟨-, ⟨-, he⟩ | ⟨newCr3, he⟩⟩⟩
  · rw [he]
    exact le_rfl
  · rw [he]
    have hsame : SamePids k.table (k.table.modify (k.table.processes j).pid demote) :=
      ⟨rfl, fun i => ((demote_keptAll hpid).2 i).pid⟩
    exact le_of_eq (hsame.toGo q)
  · rw [he] at hmark ⊢
    show Scheduler.toGo q (markSwitch _ _ _) + 0 ≤ _
    rw [toGo_markSwitch hd hpid]
    have := hmark rfl
    omega
  · rw [he] at hmark ⊢
    show Scheduler.toGo q (markSwitch _ _ _) + 1 ≤ _
    rw [toGo_markSwitch hd hpid]
    exact hmark rfl

/-! ## One action -/

/-- What comes before a decision keeps the pids, and kills at most. -/
structure Prepared (t t' : ProcessTable) : Prop where
  same : SamePids t t'
  state : ∀ i, (t'.processes i).state = (t.processes i).state ∨ (t'.processes i).state = .zombie

theorem Prepared.refl (t : ProcessTable) : Prepared t t := ⟨⟨rfl, fun _ => rfl⟩, fun _ => Or.inl rfl⟩

theorem Prepared.distinct (h : Prepared t t') (hd : Distinct t) : Distinct t' :=
  hd.pidsKept fun i _ => h.same.2 i

/-- A process that waits in the end waited before the decision. -/
theorem Prepared.waits {t'' : ProcessTable} (h : Prepared t t')
    (hq : Waits q pid t) (hr : Remains t' t'') (hq' : Waits q pid t'') : Waits q pid t' where
  holds := (h.same.2 q).trans hq.holds
  nonzero := hq.nonzero
  ready := by
    rcases h.state q with he | hz
    · rw [he, hq.ready]
    · have hdead := (hr q (by rw [h.same.2 q, hq.holds]; exact hq.nonzero) hz).2.1
      rw [hq'.ready] at hdead
      cases hdead

theorem markExit_prepared (t : ProcessTable) (pid : Nat) (code : Int) :
    Prepared t (t.markExit pid code).2 := by
  rcases t.markExit_cases pid code with h | h <;> rw [h]
  · exact .refl t
  · refine ⟨⟨rfl, fun i => ?_⟩, fun i => ?_⟩
    · simp only [ProcessTable.modify_processes]
      split <;> rfl
    · simp only [ProcessTable.modify_processes]
      split
      · exact Or.inr rfl
      · exact Or.inl rfl

theorem deliverPendingInto_prepared (t : ProcessTable) : Prepared t t.deliverPendingInto := by
  rcases t.deliverPendingInto_cases with h | ⟨-, h⟩ <;> rw [h]
  · exact .refl t
  · refine ⟨⟨rfl, fun i => ?_⟩, fun i => ?_⟩
    · rw [ProcessTable.modify_processes]
      split
      · exact (ProcessTable.deliverTo_kept _).1
      · rfl
    · rw [ProcessTable.modify_processes]
      split
      · exact (ProcessTable.deliverTo_kept _).2.2
      · exact Or.inl rfl

/-- A decision after a preparation. -/
theorem Decided.toGo_prepared {r : Option Switch × Kernel} {t : ProcessTable}
    (h : Decided k r) (hprep : Prepared t k.table) (hr : Picked k.table r.2.table)
    (hd : Distinct t) (hq : Waits q pid t) (hq' : Waits q pid r.2.table) :
    Scheduler.toGo q r.2.table + cost r.1 ≤ Scheduler.toGo q t := by
  have hd' := hprep.distinct hd
  rw [← hprep.same.toGo q]
  exact h.toGo hd' (hprep.waits hq (hr.remains hd') hq') hq'

/-- The slot of the current process is not freed. -/
def KeepsCurrent (T : Fin MAX_PROCESSES → Nat) (k : Kernel) (a : Action) : Prop :=
  k.table.currentPid ≠ 0 → ∀ i, k.table.slotOf k.table.currentPid = some i →
    ((k.exec T a).table.processes i).pid = k.table.currentPid

theorem restartCurrent_current (rsp : Nat) :
    (k.restartCurrent rsp).2.table.currentPid = k.table.currentPid := by
  rcases restartCurrent_table k rsp with h | ⟨-, h⟩
  · rw [h]
  · generalize (k.restartCurrent rsp).2.table = t' at h
    cases h <;> rfl

/-- A round of `waitpid` decides when it waits. -/
theorem waitpid_toGo {wpid rsp : Nat} (hd : Distinct k.table)
    (hstay : (k.sysWaitpid wpid rsp).2.table.currentPid = k.table.currentPid →
      toGo q (k.sysWaitpid wpid rsp).2.table ≤ toGo q k.table)
    (hq : Waits q pid k.table) (hq' : Waits q pid (k.sysWaitpid wpid rsp).2.table) :
    toGo q (k.sysWaitpid wpid rsp).2.table + cost (k.chosen (.waitpid wpid rsp)) ≤
      toGo q k.table := by
  simp only [chosen]
  rcases k.sysWaitpid_table wpid rsp with ⟨i, c, t, -, -, hfree, hres, ht⟩ | ⟨hres, -⟩
  · rw [hres]
    exact hstay (ht ▸ (NoNewRun.free hfree).1)
  · unfold sysWaitpid at *
    cases hw : waitChild k.table wpid with
    | none =>
      simp only [hw] at hres ⊢
      exact le_rfl
    | some i =>
      simp only [hw] at hres hq' ⊢
      by_cases hz : (k.table.processes i).state = .zombie
      · rw [if_pos hz] at hres
        exact absurd rfl (hres _ _)
      · simp only [if_neg hz] at hq' ⊢
        exact (yieldNow_decided rsp).toGo hd hq hq'

/-- A tick decides when the slice is used up or the current process is dead. -/
theorem tick_toGo {held : Locks} {rsp : Nat} (hd : Distinct k.table) (hq : Waits q pid k.table)
    (hq' : Waits q pid (k.onTimerTick held rsp).2.table) :
    toGo q (k.onTimerTick held rsp).2.table + cost (k.onTimerTick held rsp).1 ≤
      toGo q k.table := by
  obtain ⟨t, sched, ht, h⟩ := k.onTimerTick_cases held rsp
  have hprep : Prepared k.table t := by
    rcases ht with rfl | ⟨-, rfl⟩
    · exact .refl _
    · exact deliverPendingInto_prepared _
  rcases h with h | ⟨-, h⟩
  · rw [h]
    exact le_of_eq (hprep.same.toGo q)
  · rw [h] at hq' ⊢
    exact (schedule_decided (k := { k with table := t, sched := sched }) held rsp).toGo_prepared
      hprep schedule_table hd hq hq'

/-- The step lemma: while the process waits, an action that chooses another one
takes the count down, and no action takes it up. -/
theorem toGo_step {a : Action} (hd : Distinct k.table) (hnew : FreshPids k a)
    (hkeep : KeepsCurrent T k a) (hq : Waits q pid k.table)
    (hq' : Waits q pid (k.exec T a).table) :
    toGo q (k.exec T a).table + cost (k.chosen a) ≤ toGo q k.table := by
  have hstay : (k.exec T a).table.currentPid = k.table.currentPid →
      toGo q (k.exec T a).table ≤ toGo q k.table := fun hcur =>
    toGo_keep hcur (exec_distinct hd hnew) hkeep
  have hexit : ∀ status rsp, Waits q pid (k.sysExit status rsp).2.table →
      toGo q (k.sysExit status rsp).2.table + cost (k.sysExit status rsp).1 ≤ toGo q k.table :=
    fun status rsp hq' => (switchToNext_decided _ rsp).toGo_prepared
      (markExit_prepared k.table _ status) switchToNext_table hd hq hq'
  cases a with
  | alloc parentPid name => exact hstay (NoNewRun.alloc k.table parentPid name).1
  | free pid =>
    refine hstay ?_
    simp only [exec]
    cases h : k.table.free pid with
    | none => rfl
    | some r => exact (NoNewRun.free h).1
  | markExit pid code => exact hstay (NoNewRun.markExit k.table pid code).1
  | sendSignal pid signum => exact hstay (NoNewRun.sendSignal k.table pid signum).1
  | reapZombies => exact hstay rfl
  | handleOom => exact hstay (NoNewRun.handleOom k.table).1
  | deliverPending => exact hstay (NoNewRun.deliverPendingInto k.table).1
  | spawn => exact hstay spawnUserProcess_noNewRun.1
  | fork => exact hstay forkProcess_noNewRun.1
  | buildChildStack | execReplace | startScheduler => exact hstay rfl
  | restartCurrent rsp => exact hstay (restartCurrent_current rsp)
  | exit status rsp => exact hexit status rsp hq'
  | pageFault rsp => exact hexit 139 rsp hq'
  | kill pid signum => exact hstay (NoNewRun.sysKill k.table pid signum).1
  | waitpid wpid rsp => exact waitpid_toGo hd hstay hq hq'
  | yieldNow rsp => exact (yieldNow_decided rsp).toGo hd hq hq'
  | schedule held rsp => exact (schedule_decided held rsp).toGo hd hq hq'
  | switchToNext held rsp => exact (switchToNext_decided held rsp).toGo hd hq hq'
  | tick held rsp => exact tick_toGo hd hq hq'

/-! ## Runs -/

/-- The condition on an action: a new pid is not in use, the slot of the current
process is not freed, and the process still waits afterwards. -/
structure WaitStep (T : Fin MAX_PROCESSES → Nat) (q : Fin MAX_PROCESSES) (pid : Nat) (k : Kernel)
    (a : Action) : Prop where
  fresh : FreshPids k a
  keeps : KeepsCurrent T k a
  waits : Waits q pid (k.exec T a).table

/-- The run lemma. -/
theorem toGo_run {l : List Action} (hd : Distinct k.table) (hq : Waits q pid k.table)
    (hl : AllOk (exec T) (WaitStep T q pid) k l) :
    toGo q (l.foldl (exec T) k).table + choices T k l ≤ toGo q k.table := by
  induction l generalizing k with
  | nil => exact le_rfl
  | cons a l ih =>
    obtain ⟨hok, hrest⟩ := hl
    have hstep := toGo_step hd hok.fresh hok.keeps hq hok.waits
    have hih := ih (exec_distinct hd hok.fresh) hok.waits hrest
    rw [List.foldl_cons, choices]
    omega

/-- Each choice of another process is nearer to the process that waits, for every
table; and in a run in which the process waits, others are chosen at most 31
times, whatever else happens. -/
theorem roundRobin (T : Fin MAX_PROCESSES → Nat) :
    (∀ t after q pid j, Waits q pid t → nextSlot t after = some j → j ≠ q →
      cyclicDist j q < cyclicDist (scanStart t after) q) ∧
    ∀ k q pid l, Distinct k.table → Waits q pid k.table →
      AllOk (exec T) (WaitStep T q pid) k l → choices T k l ≤ 31 := by
  refine ⟨fun t after q pid j hq hj hne => ?_, fun k q pid l hd hq hl => ?_⟩
  · have hcloser := nextSlot_closer hq hj hne
    have hpos := cyclicDist_pos (scanStart t after) j
    omega
  · have hrun := toGo_run hd hq hl
    have hpos := toGo_pos q (l.foldl (exec T) k).table
    have hle : toGo q k.table ≤ 32 := toGo_le q k.table
    omega

/-- A process in a table of examples. -/
def proc (pid : Nat) (state : ProcessState) : Process :=
  { ProcessTable.fresh pid 0 [] with state := state }

/-- Process 2 in slot 1, two processes with pid 3 in the slots 0 and 2, and
process 9 in slot 3. -/
def twins (first : Process) (state : ProcessState) (current next : Nat) (s : Fin MAX_PROCESSES) :
    Kernel where
  table := {
    processes := fun i =>
      if i = 0 then first
      else if i = 1 then proc 2 state
      else if i = 2 then proc 3 .ready
      else if i = 3 then proc 9 .ready
      else .empty
    nextPid := next
    currentPid := current }
  kernelStacks _ := ⟨0, true⟩
  sched := ⟨5, 5, true⟩
  rsp0 := some s

/-- Stack tops that put a new context at 0. -/
abbrev lowTops : Fin MAX_PROCESSES → Nat := fun _ => 56

variable {first : Process} {state : ProcessState} {current next : Nat} {s : Fin MAX_PROCESSES}

theorem twins_slot2 (h : first.pid ≠ 2) :
    (twins first state current next s).table.slotOf 2 = some 1 := by
  refine position_eq_some_iff.2 ⟨rfl, fun j hj => ?_⟩
  have hlt : j.val < 1 := hj
  have hj0 : j = 0 := Fin.ext (by omega : j.val = 0)
  rw [hj0]
  exact beq_eq_false_iff_ne.2 h

theorem roundRobin_one :
    cyclicDist (2 : Fin MAX_PROCESSES) 3 < cyclicDist (scanStart (twins .empty .running 2 10 1).table 2) 3 ∧
    choices lowTops (twins .empty .running 2 10 1) [.schedule .none 0] = 1 ∧
      choices lowTops (twins .empty .running 2 10 1) [.schedule .none 0] ≤ 31 := by
  have hwaits : Waits 3 9 (twins .empty .running 2 10 1).table := ⟨rfl, by decide, rfl⟩
  have hstep : WaitStep lowTops 3 9 (twins .empty .running 2 10 1) (.schedule .none 0) := {
    fresh := nofun
    keeps := fun _ i hi => by
      obtain rfl := Option.some.inj ((twins_slot2 (by decide)).symm.trans hi)
      rfl
    waits := ⟨rfl, by decide, rfl⟩ }
  have hdistinct : Distinct (twins .empty .running 2 10 1).table := by
    unfold Distinct
    decide +kernel
  exact ⟨(roundRobin lowTops).1 _ 2 3 9 2 hwaits rfl (by decide), rfl,
    (roundRobin lowTops).2 _ 3 9 _ hdistinct hwaits ⟨hstep, trivial⟩⟩

/-- The counter has wrapped to 3, which is in use. -/
abbrev twinsStart : Kernel := twins .empty .running 2 3 1
abbrev twins2 : Kernel := twins (proc 3 .ready) .running 2 4 1
abbrev twins3 : Kernel := twins (proc 3 .running) .ready 3 4 0

theorem twins_slot3 (h : first.pid = 3) :
    (twins first state current next s).table.slotOf 3 = some 0 :=
  position_zero (beq_iff_eq.2 h)

/-- The context that is saved is the one that was there. -/
theorem twins_save (old : Nat) :
    (twins first state current next s).saveContext old 0 = fun _ => ⟨0, true⟩ := by
  unfold saveContext
  split
  · rename_i j _
    funext i
    by_cases hi : i = j
    · rw [hi, Function.update_self]
      rfl
    · rw [Function.update_of_ne hi]
      rfl
  · rfl

/-- The table, by its slots. -/
theorem twins_table {t : ProcessTable} (h0 : t.processes 0 = first)
    (h1 : t.processes 1 = proc 2 state)
    (hrest : ∀ j, j ≠ 0 → j ≠ 1 → t.processes j = twinsStart.table.processes j) :
    t = (twins first state t.currentPid t.nextPid s).table := by
  have hprocs : t.processes = (twins first state t.currentPid t.nextPid s).table.processes := by
    funext j
    by_cases hj0 : j = 0
    · rw [hj0, h0]
      rfl
    · by_cases hj1 : j = 1
      · rw [hj1, h1]
        rfl
      · rw [hrest j hj0 hj1]
        simp only [twins, if_neg hj0, if_neg hj1]
  cases t
  simp only at hprocs
  rw [hprocs]
  rfl

theorem twins_spawn : twinsStart.exec lowTops (.spawn [] 0 0 0) = twins2 := by
  have htable : (twinsStart.exec lowTops (.spawn [] 0 0 0)).table = twins2.table := by
    refine twins_table rfl rfl fun j h0 h1 => ?_
    have hslot : (twinsStart.table.alloc 0 []).2.slotOf 3 = some 0 := position_zero rfl
    show ((twinsStart.table.alloc 0 []).2.modify 3 _).processes j = _
    rw [ProcessTable.modify_processes, hslot, if_neg (by simpa using Ne.symm h0)]
    show Function.update twinsStart.table.processes 0 _ j = _
    rw [Function.update_of_ne h0]
  have hstacks : (twinsStart.exec lowTops (.spawn [] 0 0 0)).kernelStacks = fun _ => ⟨0, true⟩ := by
    show Function.update twinsStart.kernelStacks 0 (twinsStart.kernelStacks 0) = _
    exact Function.update_eq_self 0 _
  have hrun : twinsStart.exec lowTops (.spawn [] 0 0 0) =
      ⟨(twinsStart.exec lowTops (.spawn [] 0 0 0)).table,
        (twinsStart.exec lowTops (.spawn [] 0 0 0)).kernelStacks, ⟨5, 5, true⟩, some 1⟩ := rfl
  rw [hrun, htable, hstacks]
  rfl

theorem twins_schedule2 : twins2.schedule .none 0 = (some ⟨0, 0⟩, twins3) := by
  have hrun : twins2.schedule .none 0 = (some ⟨0, 0⟩, ⟨markSwitch twins2.table 2 3,
      twins2.saveContext 2 0, ⟨5, 5, true⟩, some 0⟩) := rfl
  have htable : markSwitch twins2.table 2 3 = twins3.table := by
    refine twins_table ?_ ?_ fun j h0 h1 => ?_ <;>
      rw [markSwitch_processes, twins_slot2 (by decide), twins_slot3 rfl]
    · rfl
    · rfl
    · simp [twins, h0, h1, Ne.symm h0, Ne.symm h1]
  rw [hrun, htable, twins_save]
  rfl

theorem twins_schedule3 : twins3.schedule .none 0 = (some ⟨0, 0⟩, twins2) := by
  have hrun : twins3.schedule .none 0 = (some ⟨0, 0⟩, ⟨markSwitch twins3.table 3 2,
      twins3.saveContext 3 0, ⟨5, 5, true⟩, some 1⟩) := rfl
  have htable : markSwitch twins3.table 3 2 = twins2.table := by
    refine twins_table ?_ ?_ fun j h0 h1 => ?_ <;>
      rw [markSwitch_processes, twins_slot2 (by decide), twins_slot3 rfl]
    · rfl
    · rfl
    · simp [twins, h0, h1, Ne.symm h0, Ne.symm h1]
  rw [hrun, htable, twins_save]
  rfl

/-- The two kernels between which the schedule goes back and forth. -/
def pair : Bool → Kernel
  | true => twins2
  | false => twins3

theorem pair_exec (b : Bool) :
    (pair b).exec lowTops (.schedule .none 0) = pair !b := by
  cases b
  · exact congrArg Prod.snd twins_schedule3
  · exact congrArg Prod.snd twins_schedule2

theorem pair_chosen (b : Bool) : cost ((pair b).chosen (.schedule .none 0)) = 1 := by
  cases b
  · exact congrArg (cost ·.1) twins_schedule3
  · exact congrArg (cost ·.1) twins_schedule2

theorem pair_waits (b : Bool) : Waits 3 9 (pair b).table := by
  cases b <;> exact ⟨rfl, by decide, rfl⟩

theorem pair_keepsCurrent (b : Bool) : KeepsCurrent lowTops (pair b) (.schedule .none 0) := by
  intro _ i hi
  have hpids : ((pair !b).table.processes i).pid = ((pair b).table.processes i).pid := by
    by_cases h0 : i = 0
    · cases b <;> rw [h0] <;> rfl
    · by_cases h1 : i = 1
      · cases b <;> rw [h1] <;> rfl
      · cases b <;> simp [pair, twins, h0, h1]
  rw [pair_exec, hpids]
  exact ProcessTable.slotOf_pid hi

/-- The hypotheses of the claim on one action of the run. -/
def Undisturbed (T : Fin MAX_PROCESSES → Nat) (q : Fin MAX_PROCESSES) (pid : Nat) (k : Kernel)
    (a : Action) : Prop :=
  KeepsCurrent T k a ∧ Waits q pid (k.exec T a).table

theorem pair_run (n : Nat) (b : Bool) :
    AllOk (exec lowTops) (Undisturbed lowTops 3 9) (pair b) (List.replicate n (.schedule .none 0)) ∧
      choices lowTops (pair b) (List.replicate n (.schedule .none 0)) = n := by
  induction n generalizing b with
  | zero => exact ⟨trivial, rfl⟩
  | succ n ih =>
    obtain ⟨hok, hchoices⟩ := ih !b
    rw [List.replicate_succ, AllOk, choices, pair_exec, pair_chosen, hchoices]
    exact ⟨⟨⟨pair_keepsCurrent b, by rw [pair_exec]; exact pair_waits _⟩, hok⟩, Nat.add_comm 1 n⟩

/-- Two processes with one pid take turns with a third, and the process behind
them is never chosen. -/
theorem not_roundRobin : ¬ ∀ (k : Kernel) q pid l, Distinct k.table → Waits q pid k.table →
    AllOk (exec lowTops) (Undisturbed lowTops q pid) k l → choices lowTops k l ≤ 31 := by
  intro h
  have hdistinct : Distinct twinsStart.table := by
    unfold Distinct
    decide +kernel
  have hspawn : Undisturbed lowTops 3 9 twinsStart (.spawn [] 0 0 0) := by
    refine ⟨fun _ i hi => ?_, ?_⟩
    · rw [twins_spawn]
      obtain rfl := Option.some.inj ((twins_slot2 (by decide)).symm.trans hi)
      rfl
    · rw [twins_spawn]
      exact pair_waits true
  obtain ⟨hok, hchoices⟩ := pair_run 32 true
  have hle := h twinsStart 3 9 (.spawn [] 0 0 0 :: List.replicate 32 (.schedule .none 0)) hdistinct
    ⟨rfl, by decide, rfl⟩ ⟨hspawn, by rw [twins_spawn]; exact hok⟩
  rw [choices, twins_spawn, show choices lowTops twins2 _ = 32 from hchoices] at hle
  exact absurd hle (by omega)

end Kernel

end AeroOS.Scheduler
