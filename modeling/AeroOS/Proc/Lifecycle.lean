import AeroOS.Proc.Signal

/-!
# What the table operations do to a slot

A slot is kept, emptied, or filled with a new process.

* `Kept p q`: the slot still holds the same process; its state changes only if
  the slot is in use, and not to free.
* `Survives t t'`: every slot is kept or emptied.
* `Life t t'`: the table survives, or one empty slot is filled with the next pid.
* `alloc_cases`, `signal_cases` and their like: what each operation can do, from which the
  invariants of the scheduler are proved.
* `Distinct` and `WellFormed`: the invariants that these changes keep as long as
  the next pid is new.
-/

namespace AeroOS.Proc

open AeroOS.Cells

/-- The slot still holds the same process. -/
structure Kept (p q : Process) : Prop where
  pid : q.pid = p.pid
  parentPid : q.parentPid = p.parentPid
  state : q.state = p.state ∨ p.pid ≠ 0 ∧ q.state ≠ .free

/-- An empty slot. -/
def Vacant (p : Process) : Prop := p.pid = 0 ∧ p.state = .free

theorem Vacant.empty : Vacant .empty := ⟨rfl, rfl⟩

namespace Kept

theorem refl (p : Process) : Kept p p := ⟨rfl, rfl, Or.inl rfl⟩

theorem trans {p q r : Process} (h : Kept p q) (h' : Kept q r) : Kept p r := by
  refine ⟨h'.pid.trans h.pid, h'.parentPid.trans h.parentPid, ?_⟩
  rcases h'.state with hs' | ⟨hq, hs'⟩
  · rw [hs']
    exact h.state
  · exact Or.inr ⟨h.pid ▸ hq, hs'⟩

theorem vacant {p q : Process} (h : Kept p q) (hp : Vacant p) : Vacant q := by
  refine ⟨h.pid.trans hp.1, ?_⟩
  rcases h.state with hs | ⟨hne, _⟩
  · exact hs.trans hp.2
  · exact absurd hp.1 hne

end Kept

/-- Every slot is kept. -/
def KeptAll (t t' : ProcessTable) : Prop :=
  t'.nextPid = t.nextPid ∧ ∀ i, Kept (t.processes i) (t'.processes i)

theorem KeptAll.refl (t : ProcessTable) : KeptAll t t := ⟨rfl, fun _ => Kept.refl _⟩

theorem KeptAll.trans {t t' t'' : ProcessTable} (h : KeptAll t t') (h' : KeptAll t' t'') :
    KeptAll t t'' :=
  ⟨h'.1.trans h.1, fun i => (h.2 i).trans (h'.2 i)⟩

/-- Every slot is kept or emptied. -/
def Survives (t t' : ProcessTable) : Prop :=
  t'.nextPid = t.nextPid ∧ ∀ i, Kept (t.processes i) (t'.processes i) ∨ Vacant (t'.processes i)

theorem KeptAll.survives {t t' : ProcessTable} (h : KeptAll t t') : Survives t t' :=
  ⟨h.1, fun i => Or.inl (h.2 i)⟩

/-- Later changes that keep every slot do not matter. -/
theorem Survives.trans_kept {t t' t'' : ProcessTable} (h : Survives t t') (h' : KeptAll t' t'') :
    Survives t t'' :=
  ⟨h'.1.trans h.1, fun i =>
    (h.2 i).imp (fun hk => hk.trans (h'.2 i)) (fun hv => (h'.2 i).vacant hv)⟩

/-- What a table operation can do: the table survives, or one empty slot gets
the next pid and parent `parent`. -/
inductive Life (t t' : ProcessTable) (parent : Nat) : Prop where
  | survives (h : Survives t t')
  | born (i : Fin MAX_PROCESSES) (empty : (t.processes i).pid = 0)
      (pid : (t'.processes i).pid = t.nextPid) (parentPid : (t'.processes i).parentPid = parent)
      (state : (t'.processes i).state ≠ .free)
      (others : ∀ j, j ≠ i → Kept (t.processes j) (t'.processes j))
      (next : t'.nextPid = (t.nextPid + 1) % 2 ^ 32)

theorem Life.trans_kept {t t' t'' : ProcessTable} {parent : Nat} (h : Life t t' parent)
    (h' : KeptAll t' t'') : Life t t'' parent := by
  cases h with
  | survives h => exact .survives (h.trans_kept h')
  | born i empty pid parentPid state others next =>
    refine .born i empty ((h'.2 i).pid.trans pid) ((h'.2 i).parentPid.trans parentPid) ?_
      (fun j hj => (others j hj).trans (h'.2 j)) (h'.1.trans next)
    rcases (h'.2 i).state with hs | ⟨_, hs⟩
    · rwa [hs]
    · exact hs

namespace ProcessTable

variable {t : ProcessTable} {pid : Nat} {f : Process → Process}

@[simp] theorem modify_nextPid (t : ProcessTable) (pid : Nat) (f : Process → Process) :
    (t.modify pid f).nextPid = t.nextPid := rfl

@[simp] theorem modify_currentPid (t : ProcessTable) (pid : Nat) (f : Process → Process) :
    (t.modify pid f).currentPid = t.currentPid := rfl

theorem setCurrent_keptAll (t : ProcessTable) (pid : Nat) : KeptAll t (t.setCurrent pid) :=
  ⟨rfl, fun _ => Kept.refl _⟩

/-- A slot after `modify`. -/
theorem modify_processes (t : ProcessTable) (pid : Nat) (f : Process → Process)
    (j : Fin MAX_PROCESSES) :
    (t.modify pid f).processes j =
      if t.slotOf pid = some j then f (t.processes j) else t.processes j :=
  modifyFirst_apply _ _ _ _

theorem slotOf_pid {i : Fin MAX_PROCESSES} (h : t.slotOf pid = some i) :
    (t.processes i).pid = pid := by
  simpa using position_sat h

theorem slotOf_eq_none : t.slotOf pid = none ↔ ∀ i, (t.processes i).pid ≠ pid := by
  simp [slotOf, position_eq_none]

theorem get_eq_some {p : Process} (h : t.get pid = some p) :
    ∃ i, t.slotOf pid = some i ∧ t.processes i = p := by
  simpa [get] using h

/-- An edit that keeps the pids keeps the lookups. -/
theorem slotOf_modify (hp : ∀ p, (f p).pid = p.pid) (q : Nat) :
    (t.modify pid f).slotOf q = t.slotOf q := by
  refine position_congr fun i => ?_
  rw [modify_processes]
  split
  · rw [hp]
  · rfl

/-- Tables with the same pids answer lookups alike. -/
theorem slotOf_keptAll {t' : ProcessTable} (h : KeptAll t t') (q : Nat) :
    t'.slotOf q = t.slotOf q :=
  position_congr fun i => by rw [(h.2 i).pid]

/-- An edit of the process with a pid other than 0 that does not free it. -/
theorem modify_keptAll (hpid : pid ≠ 0) (hp : ∀ p, (f p).pid = p.pid)
    (hpp : ∀ p, (f p).parentPid = p.parentPid)
    (hs : ∀ p, (f p).state = p.state ∨ (f p).state ≠ .free) : KeptAll t (t.modify pid f) := by
  refine ⟨rfl, fun i => ?_⟩
  rw [modify_processes]
  split
  · rename_i hi
    refine ⟨hp _, hpp _, (hs _).imp_right fun h => ⟨?_, h⟩⟩
    rw [slotOf_pid hi]
    exact hpid
  · exact Kept.refl _

/-- An edit that keeps the state needs no condition on the pid. -/
theorem modify_keptAll_of_state (hp : ∀ p, (f p).pid = p.pid)
    (hpp : ∀ p, (f p).parentPid = p.parentPid) (hs : ∀ p, (f p).state = p.state) :
    KeptAll t (t.modify pid f) := by
  refine ⟨rfl, fun i => ?_⟩
  rw [modify_processes]
  split
  · exact ⟨hp _, hpp _, Or.inl (hs _)⟩
  · exact Kept.refl _

/-- The table with a new process in slot `i`. -/
def fill (t : ProcessTable) (i : Fin MAX_PROCESSES) (parent : Nat) (name : List UInt8) :
    ProcessTable :=
  { t.setSlot i (fresh t.nextPid parent name) with nextPid := (t.nextPid + 1) % 2 ^ 32 }

/-- The two outcomes of `alloc`. -/
theorem alloc_cases (t : ProcessTable) (parent : Nat) (name : List UInt8) :
    t.slotOf 0 = none ∧ t.alloc parent name = (0, t) ∨
      ∃ i, t.slotOf 0 = some i ∧ t.alloc parent name = (t.nextPid, t.fill i parent name) := by
  unfold alloc
  cases h : t.slotOf 0 with
  | none => exact Or.inl ⟨rfl, rfl⟩
  | some i => exact Or.inr ⟨i, rfl, rfl⟩

@[simp] theorem fresh_pid (pid parent : Nat) (name : List UInt8) :
    (fresh pid parent name).pid = pid := rfl

@[simp] theorem fresh_parentPid (pid parent : Nat) (name : List UInt8) :
    (fresh pid parent name).parentPid = parent := rfl

@[simp] theorem fresh_state (pid parent : Nat) (name : List UInt8) :
    (fresh pid parent name).state = .blocked := rfl

@[simp] theorem fill_nextPid (t : ProcessTable) (i : Fin MAX_PROCESSES) (parent : Nat)
    (name : List UInt8) : (t.fill i parent name).nextPid = (t.nextPid + 1) % 2 ^ 32 := rfl

@[simp] theorem fill_currentPid (t : ProcessTable) (i : Fin MAX_PROCESSES) (parent : Nat)
    (name : List UInt8) : (t.fill i parent name).currentPid = t.currentPid := rfl

@[simp] theorem fill_self (t : ProcessTable) (i : Fin MAX_PROCESSES) (parent : Nat)
    (name : List UInt8) :
    (t.fill i parent name).processes i = fresh t.nextPid parent name := by
  simp [fill, setSlot]

theorem fill_ne (t : ProcessTable) {i j : Fin MAX_PROCESSES} (hj : j ≠ i) (parent : Nat)
    (name : List UInt8) : (t.fill i parent name).processes j = t.processes j := by
  simp [fill, setSlot, Function.update_of_ne hj]

theorem alloc_life (t : ProcessTable) (parent : Nat) (name : List UInt8) :
    Life t (t.alloc parent name).2 parent := by
  rcases t.alloc_cases parent name with ⟨-, h⟩ | ⟨i, hi, h⟩
  · rw [h]
    exact .survives (KeptAll.refl t).survives
  · rw [h]
    refine .born i (slotOf_pid hi) (by simp) (by simp) (by simp) (fun j hj => ?_) rfl
    rw [t.fill_ne hj]
    exact Kept.refl _

theorem setSlot_empty_survives (t : ProcessTable) (i : Fin MAX_PROCESSES) :
    Survives t (t.setSlot i .empty) := by
  refine ⟨rfl, fun j => ?_⟩
  by_cases hj : j = i
  · subst hj
    exact Or.inr (by simp [setSlot, Vacant.empty])
  · simp only [setSlot, Function.update_of_ne hj]
    exact Or.inl (Kept.refl _)

theorem free_survives {c : Nat} {t' : ProcessTable} (h : t.free pid = some (c, t')) :
    Survives t t' := by
  simp only [free, Option.map_eq_some_iff, Prod.mk.injEq] at h
  obtain ⟨i, -, -, rfl⟩ := h
  exact t.setSlot_empty_survives i

theorem reapZombies_processes (t : ProcessTable) (i : Fin MAX_PROCESSES) :
    t.reapZombies.2.processes i =
      if (t.processes i).state = .zombie then .empty else t.processes i := rfl

theorem reapZombies_survives (t : ProcessTable) : Survives t t.reapZombies.2 := by
  refine ⟨rfl, fun i => ?_⟩
  rw [reapZombies_processes]
  split
  · exact Or.inr Vacant.empty
  · exact Or.inl (Kept.refl _)

/-- What `mark_exit` can do to the table. -/
theorem markExit_cases (t : ProcessTable) (pid : Nat) (code : Int) :
    (t.markExit pid code).2 = t ∨ (t.markExit pid code).2 =
      t.modify pid fun p => { p with state := .zombie, exitCode := code } := by
  unfold markExit
  cases t.get pid with
  | none => exact Or.inl rfl
  | some _ => exact Or.inr rfl

/-- What `send_signal` of the table can do to it. -/
theorem sendSignal_cases (t : ProcessTable) (pid signum : Nat) :
    (t.sendSignal pid signum).2 = t ∨ (t.sendSignal pid signum).2 = t.modify pid fun p =>
      { p with
        pendingSignals := p.pendingSignals ||| (1#32 <<< ((signum + 255) % 256 % 32)) } := by
  unfold sendSignal
  cases t.get pid with
  | none => exact Or.inl rfl
  | some p =>
    simp only
    split
    · exact Or.inl rfl
    · exact Or.inr rfl

/-- What `signal::send_signal` can do: the termination signals are refused by a zombie. -/
theorem signal_cases (t : ProcessTable) (pid signum : Nat) :
    (t.signal pid signum).2 = t ∨
      (∃ p, t.get pid = some p ∧ p.state ≠ .zombie ∧ (t.signal pid signum).2 =
        t.modify pid fun p => { p.killed signum with signalMask := 0 }) ∨
      (t.signal pid signum).2 = (t.sendSignal pid signum).2 := by
  unfold signal
  split
  · cases t.get pid with
    | none => exact Or.inl rfl
    | some p =>
      simp only
      split
      · exact Or.inl rfl
      · rename_i hs
        exact Or.inr (Or.inl ⟨p, rfl, fun hz => hs (Or.inr hz), rfl⟩)
  · exact Or.inr (Or.inr rfl)

/-- What `sys_kill` can do. -/
theorem sysKill_cases (t : ProcessTable) (pid signum : Nat) :
    (t.sysKill pid signum).2 = t ∨
      pid ≠ 0 ∧ (t.sysKill pid signum).2 = (t.signal pid signum).2 := by
  unfold sysKill
  split
  · exact Or.inl rfl
  · rename_i hpid
    split
    · exact Or.inl rfl
    · refine Or.inr ⟨hpid, ?_⟩
      rcases t.signal pid signum with ⟨_ | _, t'⟩ <;> rfl

/-- What `deliver_pending_into` can do. -/
theorem deliverPendingInto_cases (t : ProcessTable) : t.deliverPendingInto = t ∨
    t.currentPid ≠ 0 ∧ t.deliverPendingInto = t.modify t.currentPid deliverTo := by
  unfold deliverPendingInto
  split
  · exact Or.inl rfl
  · rename_i hcur
    exact Or.inr ⟨hcur, rfl⟩

@[simp] theorem deliverPendingInto_currentPid (t : ProcessTable) :
    t.deliverPendingInto.currentPid = t.currentPid := by
  rcases t.deliverPendingInto_cases with h | ⟨-, h⟩ <;> rw [h]
  rfl

theorem markExit_keptAll (hpid : pid ≠ 0) (code : Int) : KeptAll t (t.markExit pid code).2 := by
  rcases t.markExit_cases pid code with h | h <;> rw [h]
  · exact KeptAll.refl t
  · exact modify_keptAll hpid (fun _ => rfl) (fun _ => rfl) (fun _ => Or.inr (by simp))

theorem sendSignal_keptAll (signum : Nat) : KeptAll t (t.sendSignal pid signum).2 := by
  rcases t.sendSignal_cases pid signum with h | h <;> rw [h]
  · exact KeptAll.refl t
  · exact modify_keptAll_of_state (fun _ => rfl) (fun _ => rfl) (fun _ => rfl)

theorem signal_keptAll (hpid : pid ≠ 0) (signum : Nat) : KeptAll t (t.signal pid signum).2 := by
  rcases t.signal_cases pid signum with h | ⟨-, -, -, h⟩ | h <;> rw [h]
  · exact KeptAll.refl t
  · exact modify_keptAll hpid (fun _ => rfl) (fun _ => rfl)
      (fun _ => Or.inr (by simp [Process.killed]))
  · exact sendSignal_keptAll signum

theorem sysKill_keptAll (signum : Nat) : KeptAll t (t.sysKill pid signum).2 := by
  rcases t.sysKill_cases pid signum with h | ⟨hpid, h⟩ <;> rw [h]
  · exact KeptAll.refl t
  · exact signal_keptAll hpid signum

/-- `deliverTo` keeps who the process is, and its state or kills it. -/
theorem deliverTo_kept (p : Process) :
    (deliverTo p).pid = p.pid ∧ (deliverTo p).parentPid = p.parentPid ∧
      ((deliverTo p).state = p.state ∨ (deliverTo p).state = .zombie) := by
  unfold deliverTo
  split
  · exact ⟨rfl, rfl, Or.inl rfl⟩
  · split
    · exact ⟨rfl, rfl, Or.inr rfl⟩
    · split
      · exact ⟨rfl, rfl, Or.inr rfl⟩
      · exact ⟨rfl, rfl, Or.inl rfl⟩

theorem deliverPendingInto_keptAll (t : ProcessTable) : KeptAll t t.deliverPendingInto := by
  rcases t.deliverPendingInto_cases with h | ⟨hcur, h⟩ <;> rw [h]
  · exact KeptAll.refl t
  · refine modify_keptAll hcur (fun p => (deliverTo_kept p).1) (fun p => (deliverTo_kept p).2.1)
      (fun p => ?_)
    exact (deliverTo_kept p).2.2.imp_right fun h => by simp [h]

/-- What `handle_oom` does: nothing, a reaping, or the reaping of one process
that was ready. -/
theorem handleOom_cases (t : ProcessTable) :
    t.handleOom.2.2 = t ∨ t.handleOom.2.2 = t.reapZombies.2 ∨
      ∃ i p, 2 < (t.processes i).pid ∧ (t.processes i).state = .ready ∧ p.state = .zombie ∧
        t.handleOom.2.2 = (t.setSlot i p).reapZombies.2 := by
  unfold handleOom
  split
  · exact Or.inr (Or.inl rfl)
  · cases h : position (fun p => decide (2 < p.pid ∧ p.state = .ready)) t.processes with
    | none => exact Or.inl rfl
    | some i =>
      have hi := position_sat h
      simp only [decide_eq_true_eq] at hi
      exact Or.inr (Or.inr ⟨i, _, hi.1, hi.2, rfl, rfl⟩)

theorem handleOom_survives (t : ProcessTable) : Survives t t.handleOom.2.2 := by
  rcases t.handleOom_cases with h | h | ⟨i, p, -, -, hp, h⟩
  · rw [h]
    exact (KeptAll.refl t).survives
  · rw [h]
    exact t.reapZombies_survives
  · rw [h]
    refine ⟨rfl, fun j => ?_⟩
    rw [reapZombies_processes]
    by_cases hj : j = i
    · subst hj
      simp [setSlot, hp, Vacant.empty]
    · simp only [setSlot, Function.update_of_ne hj]
      split
      · exact Or.inr Vacant.empty
      · exact Or.inl (Kept.refl _)

end ProcessTable

/-! ## Invariants of the table -/

/-- The pids in use are distinct. -/
def Distinct (t : ProcessTable) : Prop :=
  ∀ i j, (t.processes i).pid ≠ 0 → (t.processes i).pid = (t.processes j).pid → i = j

/-- No slot in use has the next pid. -/
def NextNew (t : ProcessTable) : Prop :=
  ∀ i, (t.processes i).pid ≠ 0 → (t.processes i).pid ≠ t.nextPid

/-- A slot is free exactly when it has no pid. -/
def FreeIff (t : ProcessTable) : Prop :=
  ∀ i, (t.processes i).state = .free ↔ (t.processes i).pid = 0

variable {t t' : ProcessTable} {parent : Nat}

/-- A lookup of a pid in use finds the slot that holds it. -/
theorem Distinct.slotOf_eq (h : Distinct t) {i : Fin MAX_PROCESSES}
    (hi : (t.processes i).pid ≠ 0) : t.slotOf (t.processes i).pid = some i := by
  refine position_eq_some_of_unique (by simp) fun j hj => ?_
  simp only [beq_iff_eq] at hj
  exact (h i j hi hj.symm).symm

theorem Survives.pid_eq (h : Survives t t') {i : Fin MAX_PROCESSES}
    (hi : (t'.processes i).pid ≠ 0) : (t'.processes i).pid = (t.processes i).pid := by
  rcases h.2 i with hk | hv
  · exact hk.pid
  · exact absurd hv.1 hi

/-- No slot gets a pid that it did not have. -/
def PidsKept (t t' : ProcessTable) : Prop :=
  ∀ i, (t'.processes i).pid ≠ 0 → (t'.processes i).pid = (t.processes i).pid

theorem Survives.pidsKept (h : Survives t t') : PidsKept t t' := fun _ => h.pid_eq

theorem PidsKept.trans {t'' : ProcessTable} (h : PidsKept t t') (h' : PidsKept t' t'') :
    PidsKept t t'' := fun i hi => by
  have he := h' i hi
  rw [he, h i (he ▸ hi)]

theorem modify_pidsKept {f : Process → Process} (t : ProcessTable) (pid : Nat)
    (hf : ∀ p, (f p).pid = p.pid) : PidsKept t (t.modify pid f) := by
  intro i _
  rw [ProcessTable.modify_processes]
  split
  · exact hf _
  · rfl

theorem markExit_pidsKept (t : ProcessTable) (pid : Nat) (code : Int) :
    PidsKept t (t.markExit pid code).2 := by
  rcases t.markExit_cases pid code with h | h <;> rw [h]
  · exact (KeptAll.refl t).survives.pidsKept
  · exact modify_pidsKept t pid fun _ => rfl

theorem Distinct.pidsKept (h : Distinct t) (hs : PidsKept t t') : Distinct t' := by
  intro i j hi hij
  have hj : (t'.processes j).pid ≠ 0 := hij ▸ hi
  have hpi := hs i hi
  have hpj := hs j hj
  exact h i j (hpi ▸ hi) (by rw [← hpi, hij, hpj])

theorem Distinct.life (h : Distinct t) (hl : Life t t' parent) (hnew : NextNew t) :
    Distinct t' := by
  cases hl with
  | survives hs => exact h.pidsKept hs.pidsKept
  | born i empty pid _ state others _ =>
    intro a b ha hab
    by_cases hai : a = i <;> by_cases hbi : b = i
    · rw [hai, hbi]
    · subst hai
      rw [pid] at ha hab
      rw [(others b hbi).pid] at hab
      exact absurd hab.symm (hnew b (hab ▸ ha))
    · subst hbi
      rw [(others a hai).pid] at ha hab
      rw [pid] at hab
      exact absurd hab (hnew a ha)
    · rw [(others a hai).pid] at ha hab
      rw [(others b hbi).pid] at hab
      exact h a b ha hab

theorem Kept.free_iff {p q : Process} (h : Kept p q) (hp : p.state = .free ↔ p.pid = 0) :
    q.state = .free ↔ q.pid = 0 := by
  rw [h.pid, ← hp]
  rcases h.state with hs | ⟨hne, hs⟩
  · rw [hs]
  · exact ⟨fun hf => absurd hf hs, fun hf => absurd (hp.1 hf) hne⟩

theorem FreeIff.survives (h : FreeIff t) (hs : Survives t t') : FreeIff t' := by
  intro i
  rcases hs.2 i with hk | hv
  · exact hk.free_iff (h i)
  · simp [hv.1, hv.2]

theorem FreeIff.life (h : FreeIff t) (hl : Life t t' parent) (hnext : t.nextPid ≠ 0) :
    FreeIff t' := by
  cases hl with
  | survives hs => exact h.survives hs
  | born i empty pid _ state others _ =>
    intro a
    by_cases hai : a = i
    · subst hai
      rw [pid]
      exact ⟨fun hf => absurd hf state, fun hf => absurd hf hnext⟩
    · exact (others a hai).free_iff (h a)

end AeroOS.Proc
