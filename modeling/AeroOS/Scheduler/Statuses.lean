import AeroOS.Scheduler.Zombies

/-!
# Exit statuses

A `Ledger` is a history with the exit statuses of the processes that have died and
those that `waitpid` has returned.

* `Kernel.zombie_step`: in one action a zombie remains as it died, or its parent
  collects it.
* `Ledger.Inv`: what has died has been collected, or is a zombie in the table.
* `status_of_run`: no status is lost, changed or returned twice.
* `status_of_exit`: what `waitpid` returns is what the process passed to `exit`.

An action that runs out of memory, or frees a slot without `waitpid`, drops what
is in the zombies; the runs here have none.
-/

namespace AeroOS.Scheduler

open AeroOS.Cells
open AeroOS.Proc
open AeroOS.Run

/-- The action frees zombies that nobody waits for. -/
def Action.Reclaims : Action → Prop
  | .free _ | .reapZombies | .handleOom => True
  | _ => False

namespace Kernel

/-- The child and the status that an action returns from `waitpid`. -/
def collected (k : Kernel) : Action → Option (Nat × Int)
  | .waitpid pid rsp =>
    match (k.sysWaitpid pid rsp).1 with
    | .reaped child code => some (child, code)
    | _ => none
  | _ => none

/-- Pids and statuses of the processes that are zombies in `t'`, but not in `t`. -/
def deaths (t t' : ProcessTable) : List (Nat × Int) :=
  ((List.finRange MAX_PROCESSES).filter fun i =>
      (t'.processes i).state = .zombie ∧ (t.processes i).state ≠ .zombie).map
    fun i => ((t'.processes i).pid, (t'.processes i).exitCode)

theorem mem_deaths {t t' : ProcessTable} {x : Nat × Int} :
    x ∈ deaths t t' ↔ ∃ i, ((t'.processes i).state = .zombie ∧ (t.processes i).state ≠ .zombie) ∧
      ((t'.processes i).pid, (t'.processes i).exitCode) = x := by
  simp [deaths]

/-- The processes that die in one action are different. -/
theorem deaths_nodup {t t' : ProcessTable} (hd : Distinct t') (hfree : FreeIff t') :
    ((deaths t t').map Prod.fst).Nodup := by
  rw [deaths, List.map_map]
  refine List.Nodup.map_on (fun i hi j _ hij => ?_) ((List.nodup_finRange _).filter _)
  have hz : (t'.processes i).state = .zombie := (of_decide_eq_true (List.mem_filter.1 hi).2).1
  refine hd i j (fun h0 => ?_) hij
  rw [(hfree i).2 h0] at hz
  cases hz

variable {k : Kernel} {T : Fin MAX_PROCESSES → Nat} {a : Action}

theorem collected_fst (k : Kernel) (a : Action) :
    (k.collected a).map Prod.fst = k.waited a := by
  cases a with
  | waitpid pid rsp =>
    simp only [collected, waited]
    cases (k.sysWaitpid pid rsp).1 <;> rfl
  | _ => rfl

/-- What `waitpid` returns is in a zombie. -/
theorem collected_some {x : Nat × Int} (h : k.collected a = some x) :
    ∃ i, (k.table.processes i).state = .zombie ∧
      ((k.table.processes i).pid, (k.table.processes i).exitCode) = x := by
  cases a with
  | waitpid pid rsp =>
    simp only [collected] at h
    rcases k.sysWaitpid_table pid rsp with ⟨i, c, t, -, hz, -, hres, -⟩ | ⟨hres, -⟩
    · simp only [hres, Option.some.injEq] at h
      exact ⟨i, hz, h⟩
    · cases hw : (k.sysWaitpid pid rsp).1 with
      | reaped child code => exact absurd hw (hres child code)
      | waiting => simp [hw] at h
      | noChild => simp [hw] at h
  | _ => simp [collected] at h

/-- The step lemma: a zombie remains, or its parent collects it. -/
theorem zombie_step (hd : Distinct k.table) (hok : k.DiesOnce a) (hre : ¬ a.Reclaims)
    {i : Fin MAX_PROCESSES} (hi : (k.table.processes i).pid ≠ 0)
    (hz : (k.table.processes i).state = .zombie) :
    SameDead (k.table.processes i) ((k.exec T a).table.processes i) ∨
      k.collected a = some ((k.table.processes i).pid, (k.table.processes i).exitCode) ∧
        ((k.exec T a).table.processes i).state ≠ .zombie := by
  by_cases hf : k.Frees i a
  · right
    cases a with
    | waitpid pid rsp =>
      obtain ⟨j, hj, hjz, hslot⟩ := hf
      have hpid := ProcessTable.slotOf_pid hslot
      obtain rfl : i = j := hd i j hi hpid
      simp only [collected, exec]
      rcases k.sysWaitpid_table pid rsp with ⟨n, c, t, hn, -, hfree, hres, ht⟩ | ⟨hres, -⟩
      · obtain rfl := Option.some.inj (hj.symm.trans hn)
        rw [hres, ht]
        simp only [ProcessTable.free, hd.slotOf_eq hi, Option.map_some, Option.some.injEq,
          Prod.mk.injEq] at hfree
        rw [← hfree.2]
        simp [ProcessTable.setSlot, Process.empty]
      · refine absurd ?_ (hres (k.table.processes i).pid (k.table.processes i).exitCode)
        simp only [sysWaitpid, hj, hjz, if_true]
    | free | reapZombies | handleOom => exact absurd trivial hre
    | _ => exact absurd hf id
  · exact Or.inl (exec_remains hd hok hi hz hf)

/-- A process that exits dies with its status. -/
theorem exit_died {i : Fin MAX_PROCESSES} (hd : Distinct k.table) (hcur : k.table.currentPid ≠ 0)
    (hi : k.table.slotOf k.table.currentPid = some i)
    (halive : (k.table.processes i).state ≠ .zombie) (status : Int) (rsp : Nat) :
    (k.table.currentPid, status) ∈ deaths k.table (k.exec T (.exit status rsp)).table := by
  have hpid := ProcessTable.slotOf_pid hi
  let t := (k.table.markExit k.table.currentPid status).2
  have ht : t.processes i =
      { k.table.processes i with state := .zombie, exitCode := status } := by
    show (k.table.markExit k.table.currentPid status).2.processes i = _
    rw [ProcessTable.markExit, ProcessTable.get, hi]
    simp [ProcessTable.modify_processes, hi]
  -- the scheduler picks a ready process, so the zombie stays
  have hsame : SameDead (t.processes i) ((k.exec T (.exit status rsp)).table.processes i) :=
    (switchToNext_table (k := { k with table := t })).remains
      (hd.pidsKept (markExit_pidsKept k.table _ status)) i (by rw [ht, hpid]; exact hcur)
      (by rw [ht])
  rw [ht] at hsame
  exact mem_deaths.2 ⟨i, ⟨hsame.2.1, halive⟩, congrArg₂ Prod.mk (hsame.1.trans hpid) hsame.2.2⟩

theorem currentAlive_of_running
    (h : (k.table.get k.table.currentPid).map (·.state) = some .running) : k.CurrentAlive := by
  intro p hp hz
  rw [hp, Option.map_some, Option.some.injEq, hz] at h
  cases h

end Kernel

/-- A history with the exit statuses. -/
structure Ledger where
  history : History
  died : List (Nat × Int)
  collected : List (Nat × Int)

namespace Ledger

def boot : Ledger := ⟨.boot, [], []⟩

abbrev kernel (l : Ledger) : Kernel := l.history.kernel

/-- The ledger after an action. -/
def next (top : Fin MAX_PROCESSES → Nat) (l : Ledger) (a : Action) : Ledger where
  history := l.history.next top a
  died := Kernel.deaths l.kernel.table (l.kernel.exec top a).table ++ l.died
  collected := (l.kernel.collected a).toList ++ l.collected

def Step (top : Fin MAX_PROCESSES → Nat) (l : Ledger) (a : Action) (l' : Ledger) : Prop :=
  l' = l.next top a

/-- The condition on an action: pids are not 0, processes die once, and zombies are
left to `waitpid`. -/
def Lawful (l : Ledger) (a : Action) : Prop :=
  a.nonzero l.kernel ∧ l.kernel.DiesOnce a ∧ ¬ a.Reclaims

variable {T : Fin MAX_PROCESSES → Nat} {l l' : Ledger} {a : Action}

/-- What has died has been collected, or is a zombie. -/
structure Inv (l : Ledger) : Prop where
  history : l.history.Inv
  zombie : ∀ i, (l.kernel.table.processes i).state = .zombie →
    ((l.kernel.table.processes i).pid, (l.kernel.table.processes i).exitCode) ∈ l.died
  died : ∀ x ∈ l.died, x ∈ l.collected ∨ ∃ i, (l.kernel.table.processes i).state = .zombie ∧
    ((l.kernel.table.processes i).pid, (l.kernel.table.processes i).exitCode) = x
  collected : ∀ x ∈ l.collected, x ∈ l.died
  nodup : (l.died.map Prod.fst).Nodup
  waited : l.collected.map Prod.fst = l.history.waited

theorem Inv.boot : Inv boot where
  history := .boot
  zombie := fun _ hz => nomatch hz
  died := fun _ hx => absurd hx List.not_mem_nil
  collected := fun _ hx => absurd hx List.not_mem_nil
  nodup := List.nodup_nil
  waited := rfl

/-- The pid of a zombie is not 0. -/
theorem Inv.pid_ne (h : Inv l) {i : Fin MAX_PROCESSES}
    (hz : (l.kernel.table.processes i).state = .zombie) : (l.kernel.table.processes i).pid ≠ 0 := by
  intro h0
  rw [(h.history.free_iff i).2 h0] at hz
  cases hz

/-- The step lemma. -/
theorem Inv.step (h : Inv l) (hok : l.Lawful a)
    (hcount : (l.next T a).history.given.length < 2 ^ 32 - 1) : Inv (l.next T a) := by
  obtain ⟨hnz, honce, hre⟩ := hok
  have hnext := h.history.step hnz hcount
  have hwaited : (l.next T a).collected.map Prod.fst = (l.next T a).history.waited := by
    show List.map Prod.fst ((l.kernel.collected a).toList ++ l.collected) =
      (l.kernel.waited a).toList ++ l.history.waited
    rw [List.map_append, h.waited, ← Kernel.collected_fst]
    cases l.kernel.collected a <;> rfl
  have hzombie (i : Fin MAX_PROCESSES) (hz : (l.kernel.table.processes i).state = .zombie) :=
    Kernel.zombie_step (T := T) h.history.distinct honce hre (h.pid_ne hz) hz
  have hdied (x : Nat × Int) (hx : x ∈ l.died) : x ∈ (l.next T a).collected ∨
      ∃ i, (l.kernel.table.processes i).state = .zombie ∧
        ((l.next T a).kernel.table.processes i).state = .zombie ∧
        (((l.next T a).kernel.table.processes i).pid,
          ((l.next T a).kernel.table.processes i).exitCode) = x := by
    rcases h.died x hx with hc | ⟨i, hz, rfl⟩
    · exact Or.inl (List.mem_append_right _ hc)
    · rcases hzombie i hz with ⟨hp, hs, hc⟩ | ⟨hc, -⟩
      · exact Or.inr ⟨i, hz, hs, congrArg₂ Prod.mk hp hc⟩
      · exact Or.inl (List.mem_append_left _ (Option.mem_toList.2 hc))
  refine ⟨hnext, fun i hz => ?_, fun x hx => ?_, fun x hx => ?_, ?_, hwaited⟩
  · by_cases hold : (l.kernel.table.processes i).state = .zombie
    · rcases hzombie i hold with ⟨hp, -, hc⟩ | ⟨-, hno⟩
      · exact List.mem_append_right _ (congrArg₂ Prod.mk hp hc ▸ h.zombie i hold)
      · exact absurd hz hno
    · exact List.mem_append_left _ (Kernel.mem_deaths.2 ⟨i, ⟨hz, hold⟩, rfl⟩)
  · rcases List.mem_append.1 hx with hx | hx
    · obtain ⟨i, ⟨hz, -⟩, rfl⟩ := Kernel.mem_deaths.1 hx
      exact Or.inr ⟨i, hz, rfl⟩
    · exact (hdied x hx).imp_right fun ⟨i, _, hz, hi⟩ => ⟨i, hz, hi⟩
  · refine List.mem_append_right _ ?_
    rcases List.mem_append.1 hx with hx | hx
    · obtain ⟨i, hz, rfl⟩ := Kernel.collected_some (Option.mem_toList.1 hx)
      exact h.zombie i hz
    · exact h.collected x hx
  · show (List.map Prod.fst (Kernel.deaths _ _ ++ l.died)).Nodup
    rw [List.map_append]
    refine (Kernel.deaths_nodup hnext.distinct hnext.free_iff).append h.nodup ?_
    -- a process that dies now has a pid, so it was not collected, and was not a zombie
    intro p hnew hp
    obtain ⟨x, hx, rfl⟩ := List.mem_map.1 hp
    obtain ⟨y, hy, hxy⟩ := List.mem_map.1 hnew
    obtain ⟨i, ⟨hz, hold⟩, rfl⟩ := Kernel.mem_deaths.1 hy
    rcases hdied x hx with hc | ⟨j, hjz, hjs, rfl⟩
    · exact (hnext.waited_gone x.1 (hwaited ▸ List.mem_map_of_mem hc)).2 i hxy
    · refine hold ?_
      have hpid : ((l.next T a).kernel.table.processes i).pid ≠ 0 := fun h0 => by
        rw [(hnext.free_iff i).2 h0] at hz
        cases hz
      obtain rfl : i = j := hnext.distinct i j hpid hxy
      exact hjz

/-- The run lemma. -/
theorem inv_of_run (h : Inv l) (hrun : Reaches (Step T) Lawful l l')
    (hcount : l'.history.given.length < 2 ^ 32 - 1) : Inv l' := by
  refine Reaches.invariant (I := fun l => l.history.given.length < 2 ^ 32 - 1 → Inv l) ?_ hrun
    (fun _ => h) hcount
  intro l a l' hi hok hstep hc
  subst hstep
  refine (hi (Nat.lt_of_le_of_lt ?_ hc)).step hok hc
  simp [next, History.next]

theorem table_distinct_of_run (hrun : Reaches (Step T) Lawful boot l) : Distinct l.kernel.table :=
  hrun.invariant (I := fun l => Distinct l.kernel.table)
    (fun _ _ _ hd hok hstep =>
      hstep ▸ Kernel.exec_distinct hd (Kernel.freshPids_of_diesOnce hok.2.1))
    fun _ _ h => absurd rfl h

/-- In every run that gives fewer than `2 ^ 32 - 1` pids, each process dies once, its
status is returned from `waitpid` at most once and as it was, and what has not been
returned is in a zombie. -/
theorem status_of_run (hrun : Reaches (Step T) Lawful boot l)
    (hcount : l.history.given.length < 2 ^ 32 - 1) :
    (l.died.map Prod.fst).Nodup ∧ (l.collected.map Prod.fst).Nodup ∧
      (∀ x, x ∈ l.died ↔ x ∈ l.collected ∨
        ∃ i, (l.kernel.table.processes i).state = .zombie ∧
          ((l.kernel.table.processes i).pid, (l.kernel.table.processes i).exitCode) = x) ∧
      ∀ x ∈ l.collected, ∀ i, (l.kernel.table.processes i).pid ≠ x.1 := by
  have h := inv_of_run .boot hrun hcount
  refine ⟨h.nodup, h.waited ▸ h.history.waited_nodup, fun x => ⟨h.died x, ?_⟩, fun x hx => ?_⟩
  · rintro (hx | ⟨i, hz, rfl⟩)
    · exact h.collected x hx
    · exact h.zombie i hz
  · exact (h.history.waited_gone x.1 (h.waited ▸ List.mem_map_of_mem hx)).2

/-- Process 1 runs and forks; process 2 runs. -/
def exampleChild : Ledger :=
  [.spawn [] 0x400000 USER_STACK_TOP 0x1000, .switchToNext .none 0, .fork (some 0x2000) 0,
    .buildChildStack 1, .yieldNow 0].foldl (next Kernel.exampleTops) boot

theorem exampleChild_reaches :
    Reaches (Step Kernel.exampleTops) Lawful boot exampleChild :=
  .foldl ⟨⟨trivial, fun i => by revert i; decide, id⟩, ⟨trivial, trivial, id⟩,
    ⟨trivial, fun i => by revert i; decide, id⟩, ⟨trivial, trivial, id⟩,
    ⟨trivial, trivial, id⟩, trivial⟩

theorem exampleChild_exit (rsp : Nat) : exampleChild.Lawful (.exit 7 rsp) :=
  ⟨show exampleChild.kernel.table.currentPid ≠ 0 by decide,
    Kernel.currentAlive_of_running (by decide), id⟩

theorem exampleChild_wait : Reaches (Step Kernel.exampleTops) Lawful
    (exampleChild.next Kernel.exampleTops (.exit 7 0))
    ((exampleChild.next Kernel.exampleTops (.exit 7 0)).next Kernel.exampleTops
      (.waitpid ANY_CHILD 0)) :=
  (Reaches.refl _).snoc (e := .waitpid ANY_CHILD 0) ⟨trivial, trivial, id⟩ rfl

/-- Process 2 exits with 7, and process 1 waits for it. -/
theorem status_of_run_wait :
    let l := (exampleChild.next Kernel.exampleTops (.exit 7 0)).next Kernel.exampleTops
      (.waitpid ANY_CHILD 0)
    l.collected = [(2, 7)] ∧ ∀ x, x ∈ l.died ↔ x ∈ l.collected ∨
      ∃ i, (l.kernel.table.processes i).state = .zombie ∧
        ((l.kernel.table.processes i).pid, (l.kernel.table.processes i).exitCode) = x :=
  ⟨by decide, (status_of_run ((exampleChild_reaches.snoc (exampleChild_exit 0) rfl).trans
    exampleChild_wait) (by decide)).2.2.1⟩

/-- What has died stays in the ledger. -/
theorem died_of_run {x : Nat × Int} (hx : x ∈ l.died) (hrun : Reaches (Step T) Lawful l l') :
    x ∈ l'.died :=
  hrun.invariant (I := fun l => x ∈ l.died)
    (fun _ _ _ hx _ hstep => hstep ▸ List.mem_append_right _ hx) hx

end Ledger

end AeroOS.Scheduler
