import AeroOS.Scheduler.Effects

/-!
# Pids over a run

A `History` is a kernel state with the pids given to new processes and the pids
returned by `waitpid` so far.  Pids are given in order, so they are distinct
until the `u32` counter wraps: `History.Inv` says that the counter is one more
than the number of pids given, and `History.Inv.next` is its step lemma.
-/

namespace AeroOS.Scheduler

open AeroOS.Cells
open AeroOS.Proc
open AeroOS.Run

/-- A kernel state with what was given and what was waited for. -/
structure History where
  kernel : Kernel
  given : List Nat
  waited : List Nat

namespace History

def boot : History := ⟨.boot, [], []⟩

/-- The history after an action. -/
def next (top : Fin MAX_PROCESSES → Nat) (h : History) (a : Action) : History where
  kernel := h.kernel.exec top a
  given := (h.kernel.given top a).toList ++ h.given
  waited := (h.kernel.waited a).toList ++ h.waited

def Step (top : Fin MAX_PROCESSES → Nat) (h : History) (a : Action) (h' : History) : Prop :=
  h' = h.next top a

end History

namespace Kernel

variable {k : Kernel} {T : Fin MAX_PROCESSES → Nat}

theorem spawnUserProcess_given {name : List UInt8} {entry stackTop cr3 pid : Nat}
    (h : (k.spawnUserProcess T name entry stackTop cr3).1 = some pid) :
    pid = k.table.nextPid ∧
      (k.spawnUserProcess T name entry stackTop cr3).2.table.nextPid =
        (k.table.nextPid + 1) % 2 ^ 32 := by
  unfold spawnUserProcess at h ⊢
  rcases k.table.alloc_cases 0 name with ⟨-, he⟩ | ⟨i, -, he⟩
  · simp [he] at h
  · simp only [he] at h ⊢
    split_ifs at h with h0
    rw [if_neg h0]
    exact ⟨by simpa using h.symm, rfl⟩

theorem spawnUserProcess_not_given {name : List UInt8} {entry stackTop cr3 : Nat}
    (hnext : k.table.nextPid ≠ 0)
    (h : (k.spawnUserProcess T name entry stackTop cr3).1 = none) :
    (k.spawnUserProcess T name entry stackTop cr3).2.table.nextPid = k.table.nextPid := by
  unfold spawnUserProcess at h ⊢
  rcases k.table.alloc_cases 0 name with ⟨-, he⟩ | ⟨i, -, he⟩
  · simp [he]
  · simp [he, hnext] at h

/-- The outcomes of `sys_fork` before the child's stack is built. -/
theorem forkProcess_cases (k : Kernel) (childCr3 : Option Nat) (userRsp : Nat) :
    (∃ e, k.forkProcess childCr3 userRsp = (.error e, k)) ∨
      ∃ parent c i, k.table.currentPid ≠ 0 ∧ k.table.get k.table.currentPid = some parent ∧
        parent.cr3 ≠ 0 ∧ childCr3 = some c ∧ k.table.slotOf 0 = some i ∧
        let t := k.table.fill i k.table.currentPid forkName
        (k.table.nextPid = 0 ∧
            k.forkProcess childCr3 userRsp = (.error ENOMEM, { k with table := t }) ∨
          k.table.nextPid ≠ 0 ∧
            k.forkProcess childCr3 userRsp =
              (.ok (k.table.nextPid, (t.slotOf k.table.nextPid).getD 0),
                { k with table := t.modify k.table.nextPid (forkRecord parent userRsp c) })) := by
  unfold forkProcess
  by_cases hcur : k.table.currentPid = 0
  · exact Or.inl ⟨ENOSYS, by simp [hcur]⟩
  · simp only [if_neg hcur]
    cases hg : k.table.get k.table.currentPid with
    | none => exact Or.inl ⟨ENOSYS, rfl⟩
    | some parent =>
      simp only
      by_cases hc : parent.cr3 = 0
      · exact Or.inl ⟨ENOSYS, by simp [hc]⟩
      · simp only [if_neg hc]
        cases childCr3 with
        | none => exact Or.inl ⟨ENOMEM, rfl⟩
        | some c =>
          rcases k.table.alloc_cases k.table.currentPid forkName with ⟨-, he⟩ | ⟨i, hi, he⟩
          · exact Or.inl ⟨ENOMEM, by simp [he]⟩
          · refine Or.inr ⟨parent, c, i, hcur, rfl, hc, rfl, hi, ?_⟩
            simp only [he]
            by_cases h0 : k.table.nextPid = 0
            · exact Or.inl ⟨h0, by rw [if_pos h0]⟩
            · exact Or.inr ⟨h0, by rw [if_neg h0]⟩

/-- A pid that is given is the next pid, and the counter moves on. -/
theorem given_some {a : Action} {pid : Nat} (h : k.given T a = some pid) :
    pid = k.table.nextPid ∧ (k.exec T a).table.nextPid = (k.table.nextPid + 1) % 2 ^ 32 := by
  cases a with
  | alloc parentPid name =>
    simp only [given, exec] at h ⊢
    rcases k.table.alloc_cases parentPid name with ⟨-, he⟩ | ⟨i, -, he⟩
    · simp [he] at h
    · simp only [he] at h ⊢
      split_ifs at h with h0
      exact ⟨by simpa using h.symm, rfl⟩
  | spawn name entry stackTop cr3 => exact spawnUserProcess_given h
  | fork childCr3 userRsp =>
    simp only [given, exec] at h ⊢
    rcases k.forkProcess_cases childCr3 userRsp with ⟨e, he⟩ |
      ⟨parent, c, i, -, -, -, -, -, ⟨-, he⟩ | ⟨-, he⟩⟩
    · simp [he] at h
    · simp [he] at h
    · simp only [he] at h ⊢
      exact ⟨by simpa using h.symm, rfl⟩
  | _ => simp [given] at h

/-- Where no pid is given, the counter stays. -/
theorem given_none {a : Action} (hnz : a.nonzero k) (hnext : k.table.nextPid ≠ 0)
    (h : k.given T a = none) : (k.exec T a).table.nextPid = k.table.nextPid := by
  cases ha : a.allocates with
  | false => exact (exec_survives ha hnz).1
  | true =>
    cases a with
    | alloc parentPid name =>
      simp only [given, exec] at h ⊢
      rcases k.table.alloc_cases parentPid name with ⟨-, he⟩ | ⟨i, -, he⟩
      · simp [he]
      · simp [he, hnext] at h
    | spawn name entry stackTop cr3 => exact spawnUserProcess_not_given hnext h
    | fork childCr3 userRsp =>
      simp only [given, exec] at h ⊢
      rcases k.forkProcess_cases childCr3 userRsp with ⟨e, he⟩ |
        ⟨parent, c, i, -, -, -, -, -, ⟨h0, -⟩ | ⟨-, he⟩⟩
      · rw [he]
      · exact absurd h0 hnext
      · simp [he] at h
    | _ => simp [Action.allocates] at ha

/-- A child that `waitpid` returns was in the table, and is then in it no
more. -/
theorem waited_some {a : Action} {pid : Nat} (hd : Distinct k.table)
    (h : k.waited a = some pid) :
    pid ≠ 0 ∧ (∃ i, (k.table.processes i).pid = pid) ∧
      ∀ i, ((k.exec T a).table.processes i).pid ≠ pid := by
  cases a with
  | waitpid arg rsp =>
    simp only [waited, exec] at h ⊢
    rcases k.sysWaitpid_table arg rsp with ⟨i, c, t, hi, -, hfree, hres, ht⟩ | ⟨hres, -⟩
    · simp only [hres, Option.some.injEq] at h
      subst h
      have hsat := position_sat hi
      simp only [ne_eq, decide_eq_true_eq] at hsat
      refine ⟨hsat.1, ⟨i, rfl⟩, fun j => ?_⟩
      rw [ht]
      simp only [ProcessTable.free, hd.slotOf_eq hsat.1, Option.map_some, Option.some.injEq,
        Prod.mk.injEq] at hfree
      rw [← hfree.2]
      by_cases hj : j = i
      · subst hj
        simp only [ProcessTable.setSlot, Function.update_self, Process.empty]
        exact fun h0 => hsat.1 h0.symm
      · simp only [ProcessTable.setSlot, Function.update_of_ne hj]
        exact fun hp => hj (hd i j hsat.1 hp.symm).symm
    · cases hw : (k.sysWaitpid arg rsp).1 with
      | reaped child code => exact absurd hw (hres child code)
      | waiting => simp [hw] at h
      | noChild => simp [hw] at h
  | _ => simp [waited] at h

end Kernel

namespace History

variable {T : Fin MAX_PROCESSES → Nat} {h : History}

/-- The invariant while the counter has not wrapped. -/
structure Inv (h : History) : Prop where
  next : h.kernel.table.nextPid = h.given.length + 1
  distinct : Distinct h.kernel.table
  free_iff : FreeIff h.kernel.table
  below : ∀ i, (h.kernel.table.processes i).pid < h.kernel.table.nextPid
  given_below : ∀ p ∈ h.given, p < h.kernel.table.nextPid
  given_nodup : h.given.Nodup
  waited_below : ∀ p ∈ h.waited, p < h.kernel.table.nextPid
  waited_gone : ∀ p ∈ h.waited, p ≠ 0 ∧ ∀ i, (h.kernel.table.processes i).pid ≠ p
  waited_nodup : h.waited.Nodup

theorem Inv.boot : Inv boot where
  next := rfl
  distinct := fun _ _ hi => absurd rfl hi
  free_iff := fun _ => ⟨fun _ => rfl, fun _ => rfl⟩
  below := fun _ => Nat.zero_lt_one
  given_below := fun _ hp => absurd hp List.not_mem_nil
  given_nodup := List.nodup_nil
  waited_below := fun _ hp => absurd hp List.not_mem_nil
  waited_gone := fun _ hp => absurd hp List.not_mem_nil
  waited_nodup := List.nodup_nil

namespace Inv

theorem nextNew (hi : Inv h) : NextNew h.kernel.table := fun i _ =>
  Nat.ne_of_lt (hi.below i)

theorem next_ne (hi : Inv h) : h.kernel.table.nextPid ≠ 0 := by
  rw [hi.next]
  exact Nat.succ_ne_zero _

/-- The counter and the pids given after an action. -/
theorem next_given {a : Action} (hi : Inv h) (hnz : a.nonzero h.kernel)
    (hcount : (h.next T a).given.length < 2 ^ 32 - 1) :
    (h.next T a).kernel.table.nextPid = (h.next T a).given.length + 1 := by
  cases hg : h.kernel.given T a with
  | none =>
    have := Kernel.given_none hnz hi.next_ne hg
    simp only [History.next, hg, Option.toList, List.nil_append] at hcount ⊢
    rw [this, hi.next]
  | some pid =>
    obtain ⟨-, hn⟩ := Kernel.given_some hg
    simp only [History.next, hg, Option.toList, List.cons_append, List.nil_append,
      List.length_cons] at hcount ⊢
    rw [hn, hi.next]
    exact Nat.mod_eq_of_lt (by omega)

/-- Every pid in use after an action was in use before, or is the next pid. -/
theorem pid_next {a : Action} (hnz : a.nonzero h.kernel)
    (i : Fin MAX_PROCESSES) (hp : ((h.next T a).kernel.table.processes i).pid ≠ 0) :
    ((h.next T a).kernel.table.processes i).pid = (h.kernel.table.processes i).pid ∨
      ((h.next T a).kernel.table.processes i).pid = h.kernel.table.nextPid := by
  rcases Kernel.exec_life (T := T) hnz with hs | ⟨j, -, pid, -, -, others, -⟩
  · exact Or.inl (hs.pid_eq hp)
  · by_cases hij : i = j
    · subst hij
      exact Or.inr pid
    · exact Or.inl (others i hij).pid

/-- The step lemma. -/
theorem step {a : Action} (hi : Inv h) (hnz : a.nonzero h.kernel)
    (hcount : (h.next T a).given.length < 2 ^ 32 - 1) : Inv (h.next T a) := by
  have hnext := hi.next_given hnz hcount
  have hmono : h.kernel.table.nextPid ≤ (h.next T a).kernel.table.nextPid := by
    rw [hnext, hi.next]
    simp [History.next]
  have hlife := Kernel.exec_life (T := T) hnz
  refine ⟨hnext, hi.distinct.life hlife hi.nextNew, hi.free_iff.life hlife hi.next_ne, ?_, ?_, ?_,
    ?_, ?_, ?_⟩
  · intro i
    by_cases h0 : ((h.next T a).kernel.table.processes i).pid = 0
    · rw [h0, hnext]
      exact Nat.succ_pos _
    · rcases hlife with hs | ⟨j, -, pid, -, -, others, hn⟩
      · have := hi.below i
        rw [← hs.pid_eq h0] at this
        exact Nat.lt_of_lt_of_le this hmono
      · have hlt : h.kernel.table.nextPid < (h.next T a).kernel.table.nextPid := by
          refine Nat.lt_of_le_of_ne hmono fun heq => ?_
          have hmod : (h.next T a).kernel.table.nextPid =
            (h.kernel.table.nextPid + 1) % 2 ^ 32 := hn
          omega
        rcases pid_next hnz i h0 with hp | hp
        · rw [hp]
          exact Nat.lt_trans (hi.below i) hlt
        · rw [hp]
          exact hlt
  · intro p hp
    cases hg : h.kernel.given T a with
    | none =>
      simp only [History.next, hg, Option.toList, List.nil_append] at hp
      exact Nat.lt_of_lt_of_le (hi.given_below p hp) hmono
    | some pid =>
      obtain ⟨rfl, hn⟩ := Kernel.given_some hg
      have hlt : h.kernel.table.nextPid < (h.next T a).kernel.table.nextPid := by
        rw [hnext, hi.next]
        simp [History.next, hg]
      simp only [History.next, hg, Option.toList, List.cons_append, List.nil_append,
        List.mem_cons] at hp
      rcases hp with rfl | hp
      · exact hlt
      · exact Nat.lt_of_lt_of_le (hi.given_below p hp) hmono
  · cases hg : h.kernel.given T a with
    | none => simpa [History.next, hg] using hi.given_nodup
    | some pid =>
      obtain ⟨rfl, -⟩ := Kernel.given_some hg
      simp only [History.next, hg, Option.toList, List.cons_append, List.nil_append]
      exact List.nodup_cons.2 ⟨fun hm => Nat.lt_irrefl _ (hi.given_below _ hm), hi.given_nodup⟩
  · intro p hp
    cases hw : h.kernel.waited a with
    | none =>
      simp only [History.next, hw, Option.toList, List.nil_append] at hp
      exact Nat.lt_of_lt_of_le (hi.waited_below p hp) hmono
    | some pid =>
      obtain ⟨-, ⟨i, hpid⟩, -⟩ := Kernel.waited_some (T := T) hi.distinct hw
      simp only [History.next, hw, Option.toList, List.cons_append, List.nil_append,
        List.mem_cons] at hp
      rcases hp with rfl | hp
      · rw [← hpid]
        exact Nat.lt_of_lt_of_le (hi.below i) hmono
      · exact Nat.lt_of_lt_of_le (hi.waited_below p hp) hmono
  · have hold : ∀ p ∈ h.waited, p ≠ 0 ∧
        ∀ i, ((h.next T a).kernel.table.processes i).pid ≠ p := by
      intro p hp
      refine ⟨(hi.waited_gone p hp).1, fun i hpi => ?_⟩
      rcases pid_next hnz i (hpi ▸ (hi.waited_gone p hp).1) with he | he
      · exact (hi.waited_gone p hp).2 i (he.symm.trans hpi)
      · have := hi.waited_below p hp
        omega
    intro p hp
    cases hw : h.kernel.waited a with
    | none =>
      simp only [History.next, hw, Option.toList, List.nil_append] at hp
      exact hold p hp
    | some pid =>
      simp only [History.next, hw, Option.toList, List.cons_append, List.nil_append,
        List.mem_cons] at hp
      rcases hp with rfl | hp
      · obtain ⟨h0, -, hgone⟩ := Kernel.waited_some (T := T) hi.distinct hw
        exact ⟨h0, hgone⟩
      · exact hold p hp
  · cases hw : h.kernel.waited a with
    | none => simpa [History.next, hw] using hi.waited_nodup
    | some pid =>
      obtain ⟨-, ⟨i, hpid⟩, -⟩ := Kernel.waited_some (T := T) hi.distinct hw
      simp only [History.next, hw, Option.toList, List.cons_append, List.nil_append]
      exact List.nodup_cons.2 ⟨fun hm => (hi.waited_gone _ hm).2 i hpid, hi.waited_nodup⟩

end Inv

/-- The run lemma: the invariant holds until `2 ^ 32 - 1` pids are given. -/
theorem inv_of_run
    (hrun : Reaches (Step T) (fun h a => a.nonzero h.kernel) History.boot h)
    (hcount : h.given.length < 2 ^ 32 - 1) : Inv h := by
  refine Reaches.invariant (I := fun h => h.given.length < 2 ^ 32 - 1 → Inv h) ?_ hrun
    (fun _ => Inv.boot) hcount
  intro h a h' hi hnz hstep hc
  subst hstep
  refine (hi ?_).step hnz hc
  refine Nat.lt_of_le_of_lt ?_ hc
  simp [History.next]

/-- In every run that gives fewer than `2 ^ 32 - 1` pids, the pids in use are
distinct, not 0 and below the counter, a slot is free exactly when its pid is 0,
no pid is given twice, and `waitpid` returns no pid twice. -/
theorem wellFormed_of_run
    (hrun : Reaches (Step T) (fun h a => a.nonzero h.kernel) History.boot h)
    (hcount : h.given.length < 2 ^ 32 - 1) :
    (∀ i j, (h.kernel.table.processes i).state ≠ .free →
        (h.kernel.table.processes i).pid = (h.kernel.table.processes j).pid → i = j) ∧
      (∀ i, (h.kernel.table.processes i).state ≠ .free →
        (h.kernel.table.processes i).pid ≠ 0 ∧
          (h.kernel.table.processes i).pid < h.kernel.table.nextPid) ∧
      (∀ i, (h.kernel.table.processes i).state = .free ↔ (h.kernel.table.processes i).pid = 0) ∧
      h.given.Nodup ∧ h.waited.Nodup := by
  have hi := inv_of_run hrun hcount
  have hne : ∀ i, (h.kernel.table.processes i).state ≠ .free →
      (h.kernel.table.processes i).pid ≠ 0 := fun i hs h0 => hs ((hi.free_iff i).2 h0)
  exact ⟨fun i j hs => hi.distinct i j (hne i hs), fun i hs => ⟨hne i hs, hi.below i⟩,
    hi.free_iff, hi.given_nodup, hi.waited_nodup⟩

/-- A process is made, exits and is waited for. -/
theorem wellFormed_of_run_wait :
    let h := ((boot.next (fun _ => 0) (.alloc 0 [])).next (fun _ => 0) (.markExit 1 7)).next
      (fun _ => 0) (.waitpid ANY_CHILD 0)
    h.given = [1] ∧ h.waited = [1] ∧ h.given.Nodup ∧ h.waited.Nodup ∧
      ∀ i, (h.kernel.table.processes i).state = .free ↔ (h.kernel.table.processes i).pid = 0 := by
  have hrun : Reaches (Step fun _ => 0) (fun h a => a.nonzero h.kernel) boot
      (((boot.next (fun _ => 0) (.alloc 0 [])).next (fun _ => 0) (.markExit 1 7)).next
        (fun _ => 0) (.waitpid ANY_CHILD 0)) :=
    (((Reaches.refl boot).snoc (e := .alloc 0 []) trivial rfl).snoc (e := .markExit 1 7)
      Nat.one_ne_zero rfl).snoc (e := .waitpid ANY_CHILD 0) trivial rfl
  have h := wellFormed_of_run hrun (by decide)
  exact ⟨by decide, by decide, h.2.2.2.1, h.2.2.2.2, h.2.2.1⟩

end History

end AeroOS.Scheduler
