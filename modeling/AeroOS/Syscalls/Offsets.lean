import AeroOS.Fs.Tmpfs
import AeroOS.Scheduler.PidHistory
import AeroOS.Syscalls.Dispatch

/-!
# Descriptor offsets

Runs of `open`, `read`, `write`, `close` and `fork` by any processes, with the
kernel making processes and scheduling in between.  `Books` keeps beside the
machine what each offset ought to be: 0 at `open`, the parent's at `fork`, and
the bytes that each call returned on top.

* `Carries` says what a change of the process table does to the descriptors.
* `tableOf_setCallerTable` is the frame rule for the table of the caller.
* `Balanced` is the invariant, `balanced_exec` the step and `offsets_of_run` the
  result.
-/

namespace AeroOS.Syscalls

open Bytes Fs Run
open AeroOS.Cells
open AeroOS.Proc
open AeroOS.Scheduler (Kernel Action Picked Resched)

/-! ## Descriptors in the process table -/

/-- The table has the same processes, with descriptor tables related by `R`. -/
structure Carries (R : FdTable → FdTable → Prop) (t t' : ProcessTable) : Prop where
  nextPid : t'.nextPid = t.nextPid
  pid : ∀ i, (t'.processes i).pid = (t.processes i).pid
  fds : ∀ i, R (t.processes i).fdTable (t'.processes i).fdTable

/-- Descriptors are kept or closed. -/
def Closes (t t' : FdTable) : Prop := ∀ fd, t'.get fd = t.get fd ∨ t'.get fd = none

namespace Carries

variable {R : FdTable → FdTable → Prop} {t t' t'' : ProcessTable}

theorem refl (hR : ∀ x, R x x) (t : ProcessTable) : Carries R t t :=
  ⟨rfl, fun _ => rfl, fun _ => hR _⟩

theorem trans (hR : ∀ {x y z}, R x y → R y z → R x z) (h : Carries R t t')
    (h' : Carries R t' t'') : Carries R t t'' :=
  ⟨h'.nextPid.trans h.nextPid, fun i => (h'.pid i).trans (h.pid i),
    fun i => hR (h.fds i) (h'.fds i)⟩

theorem modify (hR : ∀ x, R x x) {f : Process → Process} (hp : ∀ p, (f p).pid = p.pid)
    (hf : ∀ p, R p.fdTable (f p).fdTable) (t : ProcessTable) (pid : Nat) :
    Carries R t (t.modify pid f) := by
  refine ⟨rfl, fun i => ?_, fun i => ?_⟩
  · rw [ProcessTable.modify_processes]
    split
    · exact hp _
    · rfl
  · rw [ProcessTable.modify_processes]
    split
    · exact hf _
    · exact hR _

/-- A process that is found after the change was there before. -/
theorem get (h : Carries R t t') {pid : Nat} :
    (t'.get pid = none ↔ t.get pid = none) ∧
      ∀ p', t'.get pid = some p' → ∃ p, t.get pid = some p ∧ R p.fdTable p'.fdTable := by
  have hslot : t'.slotOf pid = t.slotOf pid := position_congr fun i => by rw [h.pid i]
  rw [ProcessTable.get, ProcessTable.get, hslot]
  cases t.slotOf pid with
  | none => exact ⟨Iff.rfl, fun _ hp => by cases hp⟩
  | some i =>
    refine ⟨by simp, fun p' hp => ?_⟩
    obtain rfl := Option.some.inj hp
    exact ⟨_, rfl, h.fds i⟩

end Carries

theorem Resched.carries {t t' : ProcessTable} {old new : Nat} (h : Resched t old new t') :
    Carries Eq t t' := by
  have hmodify : ∀ {f : Process → Process} (t : ProcessTable) (pid : Nat),
      (∀ p, (f p).pid = p.pid ∧ (f p).fdTable = p.fdTable) → Carries Eq t (t.modify pid f) :=
    fun t pid hf => .modify (fun _ => rfl) (fun p => (hf p).1) (fun p => (hf p).2.symm) t pid
  cases h with
  | idle => exact .refl (fun _ => rfl) t
  | demoted =>
    refine hmodify t new fun p => ?_
    unfold Kernel.demote
    split <;> exact ⟨rfl, rfl⟩
  | switched i slot =>
    unfold Kernel.markSwitch
    have hrun : ∀ t : ProcessTable, Carries Eq t (t.modify new Kernel.run) := fun t =>
      hmodify t new fun p => ⟨rfl, rfl⟩
    split
    · obtain ⟨h1, h2, h3⟩ := hrun t
      exact ⟨h1, h2, h3⟩
    · have hleave : Carries Eq t (t.modify old Kernel.leave) := by
        refine hmodify t old fun p => ?_
        unfold Kernel.leave
        split <;> exact ⟨rfl, rfl⟩
      obtain ⟨h1, h2, h3⟩ := hleave.trans (fun hxy hyz => hxy.trans hyz) (hrun _)
      exact ⟨h1, h2, h3⟩

/-- Scheduling keeps the descriptors. -/
theorem Picked.carries {t t' : ProcessTable} (h : Picked t t') : Carries Eq t t' := by
  cases h with
  | idle => exact .refl (fun _ => rfl) t
  | picked j _ _ resched => exact Resched.carries resched

theorem Carries.closes {t t' : ProcessTable} (h : Carries Eq t t') : Carries Closes t t' :=
  ⟨h.nextPid, h.pid, fun i fd => Or.inl (by rw [h.fds i])⟩

/-- A pending signal closes the descriptors of the process that it ends. -/
theorem deliverPendingInto_carries (t : ProcessTable) : Carries Closes t t.deliverPendingInto := by
  have hrefl : ∀ x, Closes x x := fun _ _ => Or.inl rfl
  rcases t.deliverPendingInto_cases with h | ⟨-, h⟩ <;> rw [h]
  · exact .refl hrefl t
  · refine .modify hrefl (fun p => (ProcessTable.deliverTo_kept p).1) (fun p => ?_) t _
    unfold ProcessTable.deliverTo
    split
    · exact hrefl _
    split
    · exact fun fd => p.fdTable.clear_get fd
    split
    · exact fun fd => p.fdTable.clear_get fd
    · exact hrefl _

theorem onTimerTick_carries (k : Kernel) (held : Scheduler.Locks) (rsp : Nat) :
    Carries Closes k.table (k.onTimerTick held rsp).2.table := by
  obtain ⟨t, ht, hpicked⟩ := k.onTimerTick_table held rsp
  have htrans : ∀ {x y z : FdTable}, Closes x y → Closes y z → Closes x z := by
    intro x y z hxy hyz fd
    rcases hyz fd with h | h
    · rw [h]
      exact hxy fd
    · exact Or.inr h
  rcases ht with rfl | ⟨-, rfl⟩
  · exact (Picked.carries hpicked).closes
  · exact (deliverPendingInto_carries _).trans htrans (Picked.carries hpicked).closes

/-! ## New processes -/

/-- The slots are filled from the front, with the pids from 1 up. -/
def Packed (t : ProcessTable) : Prop :=
  ∃ n ≤ MAX_PROCESSES, t.nextPid = n + 1 ∧
    ∀ i, (t.processes i).pid = if i.val < n then i.val + 1 else 0

namespace Packed

variable {t t' : ProcessTable}

theorem new : Packed .new :=
  ⟨0, Nat.zero_le _, rfl, fun i => by simp [ProcessTable.new, Process.empty]⟩

theorem carries {R : FdTable → FdTable → Prop} (h : Packed t) (hc : Carries R t t') : Packed t' := by
  obtain ⟨n, hn, hnext, hpid⟩ := h
  exact ⟨n, hn, hc.nextPid.trans hnext, fun i => (hc.pid i).trans (hpid i)⟩

theorem nextPid_ne (h : Packed t) : t.nextPid ≠ 0 := by
  obtain ⟨n, -, hnext, -⟩ := h
  omega

/-- The next pid is not in use. -/
theorem get_nextPid (h : Packed t) : t.get t.nextPid = none := by
  obtain ⟨n, -, hnext, hpid⟩ := h
  rw [ProcessTable.get, ProcessTable.slotOf_eq_none.2 fun i => ?_, Option.map_none]
  rw [hpid i, hnext]
  split <;> omega

/-- A new process goes into the next slot. -/
theorem fill (h : Packed t) {i : Fin MAX_PROCESSES} (hi : t.slotOf 0 = some i) (parent : Nat)
    (name : List UInt8) : Packed (t.fill i parent name) := by
  obtain ⟨n, hn, hnext, hpid⟩ := h
  have hin : i.val = n := by
    have h0 := ProcessTable.slotOf_pid hi
    rw [hpid i] at h0
    have hge : n ≤ i.val := by
      by_contra hlt
      rw [if_pos (by omega)] at h0
      omega
    by_contra hne
    have hlt : n < i.val := by omega
    have hbefore := position_lt hi (j := ⟨n, hlt.trans i.isLt⟩) hlt
    have hzero := hpid ⟨n, hlt.trans i.isLt⟩
    rw [if_neg (Nat.lt_irrefl n)] at hzero
    simp [hzero] at hbefore
  have hmax : MAX_PROCESSES = 32 := rfl
  have hlt := i.isLt
  refine ⟨n + 1, by omega, ?_, fun j => ?_⟩
  · rw [ProcessTable.fill_nextPid, hnext, Nat.mod_eq_of_lt (by omega)]
  · by_cases hj : j = i
    · rw [hj, ProcessTable.fill_self, ProcessTable.fresh_pid, hnext, hin, if_pos (by omega)]
    · have hjn : j.val ≠ n := fun heq => hj (Fin.ext (heq.trans hin.symm))
      rw [ProcessTable.fill_ne t hj, hpid j]
      by_cases hjlt : j.val < n
      · rw [if_pos hjlt, if_pos (by omega)]
      · rw [if_neg hjlt, if_neg (by omega)]

/-- Processes in the table before keep their place. -/
theorem get_fill (h : Packed t) {i : Fin MAX_PROCESSES} (hi : t.slotOf 0 = some i) (parent : Nat)
    (name : List UInt8) {pid : Nat} (h0 : pid ≠ 0) :
    (t.fill i parent name).get pid =
      if pid = t.nextPid then some (ProcessTable.fresh t.nextPid parent name) else t.get pid := by
  by_cases hpid : pid = t.nextPid
  · have hslot : (t.fill i parent name).slotOf pid = some i := by
      refine position_eq_some_of_unique ?_ fun j hj => ?_
      · rw [ProcessTable.fill_self]
        simp [hpid]
      · by_contra hne
        rw [ProcessTable.fill_ne t hne, hpid] at hj
        have hnone := h.get_nextPid
        rw [ProcessTable.get, Option.map_eq_none_iff, ProcessTable.slotOf_eq_none] at hnone
        exact hnone j (by simpa using hj)
    rw [if_pos hpid, ProcessTable.get, hslot, Option.map_some, ProcessTable.fill_self]
  · have hkeep : ∀ j, ((t.fill i parent name).processes j).pid = pid ↔
        (t.processes j).pid = pid := by
      intro j
      by_cases hj : j = i
      · rw [hj, ProcessTable.fill_self, ProcessTable.fresh_pid, ProcessTable.slotOf_pid hi]
        exact ⟨fun heq => absurd heq.symm hpid, fun heq => absurd heq.symm h0⟩
      · rw [ProcessTable.fill_ne t hj]
    have hslot : (t.fill i parent name).slotOf pid = t.slotOf pid := by
      refine position_congr fun j => ?_
      rw [Bool.eq_iff_iff, beq_iff_eq, beq_iff_eq]
      exact hkeep j
    rw [if_neg hpid, ProcessTable.get, ProcessTable.get, hslot]
    cases hs : t.slotOf pid with
    | none => rfl
    | some j =>
      have hj : j ≠ i := by
        rintro rfl
        exact h0 ((ProcessTable.slotOf_pid hs).symm.trans (ProcessTable.slotOf_pid hi))
      rw [Option.map_some, Option.map_some, ProcessTable.fill_ne t hj]

end Packed

/-- `modify` as a lookup. -/
theorem get_modify {f : Process → Process} (hp : ∀ p, (f p).pid = p.pid) (t : ProcessTable)
    (pid q : Nat) :
    (t.modify pid f).get q = (t.get q).map fun p => if q = pid then f p else p := by
  rw [ProcessTable.get, ProcessTable.get, ProcessTable.slotOf_modify hp]
  cases hq : t.slotOf q with
  | none => rfl
  | some i =>
    simp only [Option.map_some, Option.some.injEq]
    rw [ProcessTable.modify_processes]
    by_cases hpq : q = pid
    · rw [← hpq, hq, if_pos rfl, if_pos rfl]
    · have hne : t.slotOf pid ≠ some i := fun hs =>
        hpq ((ProcessTable.slotOf_pid hq).symm.trans (ProcessTable.slotOf_pid hs))
      rw [if_neg hne, if_neg hpq]

/-! ## Descriptors of a machine -/

namespace Machine

variable {τ : Type} (m : Machine τ)

/-- The process whose table a call uses; 0 is the kernel. -/
def owner : Nat :=
  let pid := m.kernel.table.currentPid
  if pid ≠ 0 ∧ (m.kernel.table.get pid).isSome then pid else 0

/-- The descriptor table of a process. -/
def tableOf (pid : Nat) : Option FdTable :=
  if pid = 0 then some m.fdTable else (m.kernel.table.get pid).map (·.fdTable)

/-- The entry of a descriptor that is open. -/
def entry (pid fd : Nat) : Option FdKind := (m.tableOf pid).bind (·.get fd)

theorem tableOf_owner : m.tableOf m.owner = some m.callerTable := by
  by_cases hcur : m.kernel.table.currentPid ≠ 0 ∧
      (m.kernel.table.get m.kernel.table.currentPid).isSome
  · have howner : m.owner = m.kernel.table.currentPid := if_pos hcur
    obtain ⟨p, hp⟩ := Option.isSome_iff_exists.1 hcur.2
    rw [howner, tableOf, callerTable, if_neg hcur.1, if_neg hcur.1, hp]
    rfl
  · have howner : m.owner = 0 := if_neg hcur
    rw [howner, tableOf, if_pos rfl, callerTable]
    split
    · rfl
    · rename_i h0
      have hnone : m.kernel.table.get m.kernel.table.currentPid = none := by
        simpa [h0] using hcur
      rw [hnone]
      rfl

@[simp] theorem owner_setFsState (s : Devices × τ) : (m.setFsState s).owner = m.owner := rfl
@[simp] theorem tableOf_setFsState (s : Devices × τ) (pid : Nat) :
    (m.setFsState s).tableOf pid = m.tableOf pid := rfl
@[simp] theorem callerTable_setFsState (s : Devices × τ) :
    (m.setFsState s).callerTable = m.callerTable := rfl
@[simp] theorem entry_setFsState (s : Devices × τ) (pid fd : Nat) :
    (m.setFsState s).entry pid fd = m.entry pid fd := rfl

/-- The frame rule: the caller's table is replaced, every other is kept. -/
theorem tableOf_setCallerTable (t : FdTable) (pid : Nat) :
    (m.setCallerTable t).tableOf pid = if pid = m.owner then some t else m.tableOf pid := by
  unfold setCallerTable owner
  simp only
  split
  · rename_i hcur
    simp only [tableOf]
    rw [get_modify (f := fun p => { p with fdTable := t }) fun _ => rfl]
    by_cases h0 : pid = 0
    · rw [if_pos h0, if_pos h0, if_neg (by rw [h0]; exact hcur.1.symm)]
    · rw [if_neg h0, if_neg h0]
      by_cases hpid : pid = m.kernel.table.currentPid
      · obtain ⟨p, hp⟩ := Option.isSome_iff_exists.1 hcur.2
        rw [hpid, hp]
        simp
      · simp [hpid]
  · unfold tableOf
    by_cases h0 : pid = 0
    · simp [h0]
    · simp [h0]

theorem owner_setCallerTable (t : FdTable) : (m.setCallerTable t).owner = m.owner := by
  unfold setCallerTable
  simp only
  split
  · show (if m.kernel.table.currentPid ≠ 0 ∧
        ((m.kernel.table.modify m.kernel.table.currentPid fun p => { p with fdTable := t }).get
          m.kernel.table.currentPid).isSome then m.kernel.table.currentPid else 0) = _
    rw [get_modify (f := fun p => { p with fdTable := t }) fun _ => rfl, Option.isSome_map]
    rfl
  · rfl

theorem callerTable_setCallerTable (t : FdTable) : (m.setCallerTable t).callerTable = t := by
  have htable := (m.setCallerTable t).tableOf_owner
  rw [owner_setCallerTable, tableOf_setCallerTable, if_pos rfl] at htable
  exact (Option.some.inj htable).symm

theorem fsState_setCallerTable (t : FdTable) : (m.setCallerTable t).fsState = m.fsState := by
  unfold setCallerTable
  simp only
  split <;> rfl

theorem entry_setCallerTable (t : FdTable) (pid fd : Nat) :
    (m.setCallerTable t).entry pid fd = if pid = m.owner then t.get fd else m.entry pid fd := by
  unfold entry
  rw [tableOf_setCallerTable]
  split <;> rfl

theorem entry_owner (fd : Nat) : m.entry m.owner fd = m.callerTable.get fd := by
  rw [entry, tableOf_owner]
  rfl

/-- Changes of the kernel that keep the descriptors. -/
theorem entry_onKernel {k : Kernel} (h : Carries Eq m.kernel.table k.table) (pid fd : Nat) :
    (onKernel m k).entry pid fd = m.entry pid fd := by
  unfold entry tableOf onKernel
  by_cases h0 : pid = 0
  · rw [if_pos h0, if_pos h0]
  · rw [if_neg h0, if_neg h0]
    cases hg : k.table.get pid with
    | none => rw [h.get.1.1 hg]
    | some p' =>
      obtain ⟨p, hp, heq⟩ := h.get.2 p' hg
      rw [hp, Option.map_some, Option.map_some, heq]

/-- Changes of the kernel that close descriptors at most. -/
theorem entry_onKernel_closes {k : Kernel} (h : Carries Closes m.kernel.table k.table)
    (pid fd : Nat) :
    (onKernel m k).entry pid fd = m.entry pid fd ∨ (onKernel m k).entry pid fd = none := by
  unfold entry tableOf onKernel
  by_cases h0 : pid = 0
  · rw [if_pos h0, if_pos h0]
    exact Or.inl rfl
  · rw [if_neg h0, if_neg h0]
    cases hg : k.table.get pid with
    | none => exact Or.inr rfl
    | some p' =>
      obtain ⟨p, hp, hcloses⟩ := h.get.2 p' hg
      rw [hp]
      exact hcloses fd

/-- A new process: its table is that of its parent, or has no files. -/
theorem entry_fill {k : Kernel} {i : Fin MAX_PROCESSES} (hpacked : Packed m.kernel.table)
    (hi : m.kernel.table.slotOf 0 = some i) {parent : Nat} {name : List UInt8} {f : Process → Process}
    (hf : ∀ p, (f p).pid = p.pid)
    (hk : k.table = (m.kernel.table.fill i parent name).modify m.kernel.table.nextPid f)
    (pid fd : Nat) :
    (onKernel m k).entry pid fd =
      if pid = m.kernel.table.nextPid then
        (f (ProcessTable.fresh m.kernel.table.nextPid parent name)).fdTable.get fd
      else m.entry pid fd := by
  unfold entry tableOf onKernel
  by_cases h0 : pid = 0
  · rw [if_pos h0, if_pos h0, if_neg (by rw [h0]; exact hpacked.nextPid_ne.symm)]
  · rw [if_neg h0, if_neg h0]
    simp only [hk]
    rw [get_modify hf, hpacked.get_fill hi parent name h0]
    by_cases hpid : pid = m.kernel.table.nextPid
    · rw [if_pos hpid, if_pos hpid]
      simp [hpid]
    · rw [if_neg hpid, if_neg hpid]
      simp [hpid]

end Machine

/-! ## Counts -/

/-- The filesystems read and write no more than the buffer holds. -/
structure CountsFit {σ : Type} (v : Vfs σ) : Prop where
  read : ∀ m ∈ v.mounts, ∀ s id offset buf n bytes s',
    m.ops.read s id offset buf = (.ok (n, bytes), s') → n ≤ buf.length
  write : ∀ m ∈ v.mounts, ∀ s id offset buf n s',
    m.ops.write s id offset buf = (.ok n, s') → n ≤ buf.length

namespace CountsFit

variable {σ : Type} {v : Vfs σ} (hv : CountsFit v)

include hv

theorem read_cases (file : VfsFile) (buf : List UInt8) (s : σ) :
    (∃ e s', v.read file buf s = (.error e, file, s')) ∨
      ∃ n bytes s', n ≤ buf.length ∧
        v.read file buf s = (.ok (n, bytes), { file with offset := file.offset + n }, s') := by
  unfold Vfs.read
  cases hm : v.mounts[file.mountIdx]? with
  | none => exact Or.inl ⟨_, _, rfl⟩
  | some m =>
    simp only
    rcases hr : m.ops.read s file.inodeId file.offset buf with ⟨e | ⟨n, bytes⟩, s'⟩
    · exact Or.inl ⟨_, _, rfl⟩
    · exact Or.inr ⟨n, bytes, s', hv.read m (List.mem_of_getElem? hm) _ _ _ _ _ _ _ hr, rfl⟩

theorem write_cases (file : VfsFile) (buf : List UInt8) (s : σ) :
    (∃ e s', v.write file buf s = (.error e, file, s')) ∨
      ∃ n s', n ≤ buf.length ∧
        v.write file buf s = (.ok n, { file with offset := file.offset + n }, s') := by
  unfold Vfs.write
  cases hm : v.mounts[file.mountIdx]? with
  | none => exact Or.inl ⟨_, _, rfl⟩
  | some m =>
    simp only
    rcases hr : m.ops.write s file.inodeId file.offset buf with ⟨e | n, s'⟩
    · exact Or.inl ⟨_, _, rfl⟩
    · exact Or.inr ⟨n, s', hv.write m (List.mem_of_getElem? hm) _ _ _ _ _ _ hr, rfl⟩

end CountsFit

theorem asI64_of_lt {n : Nat} (h : n < 2 ^ 63) : asI64 n = n := if_pos h

theorem asUsize_natCast {n : Nat} (h : n < 2 ^ 64) : asUsize n = n := by
  unfold asUsize
  omega

theorem asUsize_asI64 {n : Nat} (h : n < 2 ^ 64) : asUsize (asI64 n) = n := by
  unfold asUsize asI64
  split <;> omega

/-- The number of a descriptor, through a register. -/
theorem asI32_asUsize {fd : Nat} (h : fd < MAX_FDS) : asI32 (asUsize fd) = fd := by
  unfold MAX_FDS at h
  unfold asI32 asUsize
  omega

/-! ## One call -/

/-- The descriptor that a call is about. -/
def Call.fd (c : Call) : Nat := asUsize (asI32 c.arg0)

/-- What the call leaves in the descriptors of all processes. -/
inductive Effect {τ : Type} (m : Machine τ) (c : Call) :
    SyscallNum → Option Int → Machine τ → Prop where
  /-- It fails, or waits. -/
  | same {num : SyscallNum} {ret : Option Int} {m' : Machine τ} (hret : ∀ v, ret = some v → v < 0)
      (h : ∀ pid fd, m'.entry pid fd = m.entry pid fd) : Effect m c num ret m'
  /-- Bytes of a standard stream. -/
  | stream {num : SyscallNum} {ret : Option Int} {m' : Machine τ} (hnum : num = .read ∨ num = .write)
      (hfd : c.fd < 3) (h : ∀ pid fd, m'.entry pid fd = m.entry pid fd) : Effect m c num ret m'
  | opened {m' : Machine τ} {fd mountIdx inodeId : Nat} (hfd : 3 ≤ fd)
      (h : ∀ pid x, m'.entry pid x =
        if pid = m.owner ∧ x = fd then some (.vfsFile mountIdx inodeId 0) else m.entry pid x) :
      Effect m c .open (some fd) m'
  /-- Bytes of a file. -/
  | moved {num : SyscallNum} {m' : Machine τ} {n mountIdx inodeId offset : Nat}
      (hnum : num = .read ∨ num = .write)
      (hwas : m.entry m.owner c.fd = some (.vfsFile mountIdx inodeId offset))
      (h : ∀ pid x, m'.entry pid x =
        if pid = m.owner ∧ x = c.fd then some (.vfsFile mountIdx inodeId (offset + n))
        else m.entry pid x) : Effect m c num (some n) m'
  | closed {m' : Machine τ}
      (h : ∀ pid x, m'.entry pid x =
        if pid = m.owner ∧ x = c.fd then none else m.entry pid x) :
      Effect m c .close (some 0) m'
  | forked {m' : Machine τ} {child : Nat} (hchild : child = m.kernel.table.nextPid)
      (h : ∀ pid x, m'.entry pid x =
        if pid = child then m.entry m.owner x else m.entry pid x) :
      Effect m c .fork (some child) m'

section calls

variable {τ : Type} {v : Vfs (Devices × τ)} (env : Env) (m : Machine τ) (c : Call)

theorem Effect.value {num : SyscallNum} {e : Int} {m' : Machine τ} (he : e < 0)
    (h : ∀ pid fd, m'.entry pid fd = m.entry pid fd) :
    Effect m c num (Reply.value e).ret m' :=
  .same (fun v hv => by
    obtain rfl := Option.some.inj hv
    exact he) h

theorem sysOpen_effect (path flags : Nat) :
    Effect m c .open (sysOpen v env m path flags).1.ret (sysOpen v env m path flags).2 := by
  have hneg : ∀ e, readPath env.mem path = .error e → e < 0 := by
    intro e he
    unfold readPath at he
    split at he
    · cases he
      decide
    · split at he
      · cases he
        decide
      · split at he <;> cases he
        decide
  unfold sysOpen
  cases hpath : readPath env.mem path with
  | error e => exact .value m c (hneg e hpath) fun _ _ => rfl
  | ok path =>
    simp only
    rcases v.openPath path (flags.testBit 6) m.fsState with ⟨e | file, s⟩
    · exact .value m c (by decide) fun _ _ => rfl
    · simp only [Machine.callerTable_setFsState]
      cases halloc : m.callerTable.alloc (.vfsFile file.mountIdx file.inodeId 0) with
      | none => exact .value m c (by decide) fun _ _ => rfl
      | some r =>
        obtain ⟨fd, t⟩ := r
        have hget := fun x => FdTable.alloc_get halloc (by simp) x
        refine .opened (hget 0).1 fun pid x => (?_ : _ =
          if pid = m.owner ∧ x = fd then some (.vfsFile file.mountIdx file.inodeId 0)
          else m.entry pid x)
        rw [Machine.entry_setCallerTable, Machine.owner_setFsState, Machine.entry_setFsState]
        by_cases hpid : pid = m.owner
        · rw [if_pos hpid, (hget x).2.2, hpid, m.entry_owner]
          simp
        · simp [hpid]

/-- The offset of the caller's descriptor is written back. -/
theorem entry_writeBack {mountIdx inodeId offset fd : Nat}
    (hwas : m.callerTable.get fd = some (.vfsFile mountIdx inodeId offset)) (s : Devices × τ)
    (new pid x : Nat) :
    ((m.setFsState s).setCallerTable
        ((m.setFsState s).callerTable.updateVfsOffset fd new)).entry pid x =
      if pid = m.owner ∧ x = fd then some (.vfsFile mountIdx inodeId new) else m.entry pid x := by
  rw [Machine.entry_setCallerTable, Machine.owner_setFsState, Machine.callerTable_setFsState,
    Machine.entry_setFsState, FdTable.updateVfsOffset_get hwas]
  by_cases hpid : pid = m.owner
  · rw [if_pos hpid, hpid, m.entry_owner]
    simp
  · simp [hpid]

/-- The offset that is written back after an error is the old one. -/
theorem entry_writeBack_self {mountIdx inodeId offset fd : Nat}
    (hwas : m.callerTable.get fd = some (.vfsFile mountIdx inodeId offset)) (s : Devices × τ)
    (pid x : Nat) :
    ((m.setFsState s).setCallerTable
        ((m.setFsState s).callerTable.updateVfsOffset fd offset)).entry pid x = m.entry pid x := by
  rw [entry_writeBack m hwas]
  split
  · rename_i h
    rw [h.1, h.2, m.entry_owner, hwas]
  · rfl

variable {env m c}

theorem sysRead_effect (hv : CountsFit v) (hcount : c.arg2 < 2 ^ 63) :
    Effect m c .read (sysRead v env m c.arg0 c.arg1 c.arg2).1.ret
      (sysRead v env m c.arg0 c.arg1 c.arg2).2 := by
  unfold sysRead
  split
  · exact .value m c (by decide) fun _ _ => rfl
  split
  · rename_i h0
    have hfd : c.fd < 3 := by
      rw [Call.fd, h0]
      decide
    split
    · exact .stream (Or.inl rfl) hfd fun pid x =>
        m.entry_onKernel (Picked.carries Kernel.yieldNow_table) pid x
    · exact .stream (Or.inl rfl) hfd fun _ _ => rfl
  cases hwas : m.callerTable.get (asUsize (asI32 c.arg0)) with
  | none => exact .value m c (by decide) fun _ _ => rfl
  | some kind =>
    cases kind with
    | vfsFile mountIdx inodeId offset =>
      simp only
      rcases hv.read_cases ⟨inodeId, mountIdx, offset, .regular⟩ (readBytes env.mem c.arg1 c.arg2)
        m.fsState with ⟨e, s, hr⟩ | ⟨n, bytes, s, hn, hr⟩
      · rw [hr]
        exact .value m c (by decide) (entry_writeBack_self m hwas s)
      · rw [readBytes_length] at hn
        rw [hr]
        simp only
        rw [asI64_of_lt (hn.trans_lt hcount)]
        exact .moved (Or.inl rfl) (m.entry_owner _ ▸ hwas) (entry_writeBack m hwas s _)
    | _ => exact .value m c (by decide) fun _ _ => rfl

theorem sysWrite_effect (hv : CountsFit v) (hcount : c.arg2 < 2 ^ 63) :
    Effect m c .write (sysWrite v env m c.arg0 c.arg1 c.arg2).1.ret
      (sysWrite v env m c.arg0 c.arg1 c.arg2).2 := by
  unfold sysWrite
  split
  · exact .value m c (by decide) fun _ _ => rfl
  split
  · rename_i h
    have hfd : c.fd < 3 := by
      rw [Call.fd]
      rcases h with h | h <;> rw [h] <;> decide
    exact .stream (Or.inr rfl) hfd fun _ _ => rfl
  cases hwas : m.callerTable.get (asUsize (asI32 c.arg0)) with
  | none => exact .value m c (by decide) fun _ _ => rfl
  | some kind =>
    cases kind with
    | vfsFile mountIdx inodeId offset =>
      simp only
      rcases hv.write_cases ⟨inodeId, mountIdx, offset, .regular⟩ (readBytes env.mem c.arg1 c.arg2)
        m.fsState with ⟨e, s, hr⟩ | ⟨n, s, hn, hr⟩
      · rw [hr]
        exact .value m c (by decide) (entry_writeBack_self m hwas s)
      · rw [readBytes_length] at hn
        rw [hr]
        simp only
        rw [asI64_of_lt (hn.trans_lt hcount)]
        exact .moved (Or.inr rfl) (m.entry_owner _ ▸ hwas) (entry_writeBack m hwas s _)
    | _ => exact .value m c (by decide) fun _ _ => rfl

theorem sysClose_effect :
    Effect m c .close (sysClose m c.arg0).1.ret (sysClose m c.arg0).2 := by
  unfold sysClose
  split
  · exact .value m c (by decide) fun _ _ => rfl
  rcases hclose : m.callerTable.close (asUsize (asI32 c.arg0)) with ⟨_ | _, t⟩
  · exact .value m c (by decide) fun _ _ => rfl
  · refine .closed fun pid x => ?_
    rw [Machine.entry_setCallerTable]
    by_cases hpid : pid = m.owner
    · rw [if_pos hpid, FdTable.close_get hclose, hpid, m.entry_owner]
      simp [Call.fd]
    · simp [hpid]

theorem forkProcess_error {k : Kernel} {childCr3 : Option Nat} {userRsp : Nat} {e : Int}
    (h : (k.forkProcess childCr3 userRsp).1 = .error e) : e < 0 := by
  have hneg : ENOSYS < 0 ∧ ENOMEM < 0 := by decide
  unfold Kernel.forkProcess at h
  simp only at h
  split at h
  · cases h
    exact hneg.1
  split at h
  · cases h
    exact hneg.1
  split at h
  · cases h
    exact hneg.1
  split at h
  · cases h
    exact hneg.2
  split at h
  · cases h
    exact hneg.2
  · cases h

/-- The part of `sys_fork` that makes the child. -/
theorem forkProcess_entry (hpacked : Packed m.kernel.table) (childCr3 : Option Nat)
    (userRsp : Nat) :
    (∃ e < 0, m.kernel.forkProcess childCr3 userRsp = (.error e, m.kernel)) ∨
      ∃ slot k, m.kernel.forkProcess childCr3 userRsp = (.ok (m.kernel.table.nextPid, slot), k) ∧
        Packed k.table ∧ ∀ pid x, (onKernel m k).entry pid x =
          if pid = m.kernel.table.nextPid then m.entry m.owner x else m.entry pid x := by
  rcases m.kernel.forkProcess_cases childCr3 userRsp with ⟨e, he⟩ |
    ⟨parent, cr3, i, hcur, hparent, -, -, hi, ⟨h0, -⟩ | ⟨-, he⟩⟩
  · exact Or.inl ⟨e, forkProcess_error (by rw [he]), he⟩
  · exact absurd h0 hpacked.nextPid_ne
  · have howner : m.owner = m.kernel.table.currentPid := if_pos ⟨hcur, by rw [hparent]; rfl⟩
    refine Or.inr ⟨_, _, he, ?_, fun pid x => ?_⟩
    · exact (hpacked.fill hi _ _).carries
        (Carries.modify (R := fun _ _ => True) (f := Kernel.forkRecord parent userRsp cr3)
          (fun _ => trivial) (fun _ => rfl) (fun _ => trivial) _ _)
    · rw [m.entry_fill (f := Kernel.forkRecord parent userRsp cr3) hpacked hi (fun _ => rfl) rfl,
        howner]
      have hentry : m.entry m.kernel.table.currentPid x = parent.fdTable.get x := by
        rw [Machine.entry, Machine.tableOf, if_neg hcur, hparent]
        rfl
      rw [hentry]
      rfl

theorem sysFork_effect (hpacked : Packed m.kernel.table) :
    Effect m c .fork (sysFork env m).1.ret (sysFork env m).2 := by
  unfold sysFork
  rcases forkProcess_entry hpacked env.childCr3 env.userRsp with ⟨e, hneg, he⟩ |
    ⟨slot, k, he, -, h⟩
  · rw [he]
    exact .value m c hneg fun _ _ => rfl
  · rw [he]
    exact .forked rfl h

theorem packed_setCallerTable (hpacked : Packed m.kernel.table) (t : FdTable) :
    Packed (m.setCallerTable t).kernel.table := by
  unfold Machine.setCallerTable
  simp only
  split
  · exact hpacked.carries (Carries.modify (R := fun _ _ => True)
      (f := fun p => { p with fdTable := t }) (fun _ => trivial) (fun _ => rfl)
      (fun _ => trivial) _ _)
  · exact hpacked

theorem sysOpen_packed (hpacked : Packed m.kernel.table) (path flags : Nat) :
    Packed (sysOpen v env m path flags).2.kernel.table := by
  unfold sysOpen
  split
  · exact hpacked
  split
  · exact hpacked
  · simp only
    split
    · exact hpacked
    · exact packed_setCallerTable (m := m.setFsState _) hpacked _

theorem sysRead_packed (hpacked : Packed m.kernel.table) (fd buf count : Nat) :
    Packed (sysRead v env m fd buf count).2.kernel.table := by
  unfold sysRead
  split
  · exact hpacked
  split
  · split
    · exact hpacked.carries (Picked.carries Kernel.yieldNow_table)
    · exact hpacked
  split
  · exact hpacked
  · simp only
    split <;> exact packed_setCallerTable (m := m.setFsState _) hpacked _
  · exact hpacked

theorem sysWrite_packed (hpacked : Packed m.kernel.table) (fd buf count : Nat) :
    Packed (sysWrite v env m fd buf count).2.kernel.table := by
  unfold sysWrite
  split
  · exact hpacked
  split
  · exact hpacked
  split
  · simp only
    split <;> exact packed_setCallerTable (m := m.setFsState _) hpacked _
  · exact hpacked

theorem sysClose_packed (hpacked : Packed m.kernel.table) (fd : Nat) :
    Packed (sysClose m fd).2.kernel.table := by
  unfold sysClose
  split
  · exact hpacked
  split
  · exact packed_setCallerTable hpacked _
  · exact hpacked

theorem sysFork_packed (hpacked : Packed m.kernel.table) :
    Packed (sysFork env m).2.kernel.table := by
  unfold sysFork
  rcases forkProcess_entry hpacked env.childCr3 env.userRsp with ⟨e, -, he⟩ |
    ⟨slot, k, he, hk, -⟩
  · rw [he]
    exact hpacked
  · rw [he]
    exact hk

/-- The calls of the run. -/
def fileCalls : List SyscallNum := [.open, .read, .write, .close, .fork]

/-- A call leaves what `Effect` says, and the processes in order. -/
theorem dispatch_effect (env : Env) (hv : CountsFit v) (hpacked : Packed m.kernel.table)
    (hcount : c.arg2 < 2 ^ 63) {num : SyscallNum} (hnum : SyscallNum.fromU64 c.num = some num)
    (hfile : num ∈ fileCalls) :
    Effect m c num (dispatch v env m c).1.ret (dispatch v env m c).2 ∧
      Packed (dispatch v env m c).2.kernel.table := by
  have hperform : dispatch v env m c = perform v env m c num := by
    rw [dispatch, hnum]
    simp only [fileCalls, List.mem_cons, List.not_mem_nil, or_false] at hfile
    rcases hfile with rfl | rfl | rfl | rfl | rfl <;> rfl
  rw [hperform]
  simp only [fileCalls, List.mem_cons, List.not_mem_nil, or_false] at hfile
  rcases hfile with rfl | rfl | rfl | rfl | rfl
  · exact ⟨sysOpen_effect env m c _ _, sysOpen_packed hpacked _ _⟩
  · exact ⟨sysRead_effect hv hcount, sysRead_packed hpacked _ _ _⟩
  · exact ⟨sysWrite_effect hv hcount, sysWrite_packed hpacked _ _ _⟩
  · exact ⟨sysClose_effect, sysClose_packed hpacked _⟩
  · exact ⟨sysFork_effect hpacked, sysFork_packed hpacked⟩

end calls

/-! ## What a call leaves alone -/

/-- The entry that a call may change. -/
def Changes {τ : Type} (m : Machine τ) (c : Call) (num : SyscallNum) (ret : Option Int)
    (pid fd : Nat) : Prop :=
  match num with
  | .open => pid = m.owner ∧ ret = some fd
  | .fork => ret = some pid
  | _ => pid = m.owner ∧ fd = c.fd

/-- The frame of a call. -/
theorem Effect.frame {τ : Type} {m m' : Machine τ} {c : Call} {num : SyscallNum}
    {ret : Option Int} (h : Effect m c num ret m') :
    ((∀ r, ret = some r → r < 0) → ∀ pid fd, m'.entry pid fd = m.entry pid fd) ∧
      ∀ pid fd, ¬ Changes m c num ret pid fd → m'.entry pid fd = m.entry pid fd := by
  cases h with
  | same _ hsame => exact ⟨fun _ => hsame, fun pid fd _ => hsame pid fd⟩
  | stream _ _ hsame => exact ⟨fun _ => hsame, fun pid fd _ => hsame pid fd⟩
  | opened _ hsame =>
    refine ⟨fun hneg => absurd (hneg _ rfl) (by omega), fun pid fd hno => ?_⟩
    rw [hsame, if_neg]
    rintro ⟨h1, rfl⟩
    exact hno ⟨h1, rfl⟩
  | moved hnum _ hsame =>
    refine ⟨fun hneg => absurd (hneg _ rfl) (by omega), fun pid fd hno => ?_⟩
    rw [hsame, if_neg]
    rcases hnum with rfl | rfl <;> exact hno
  | closed hsame =>
    refine ⟨fun hneg => absurd (hneg _ rfl) (by omega), fun pid fd hno => ?_⟩
    rw [hsame, if_neg]
    exact hno
  | forked _ hsame =>
    refine ⟨fun hneg => absurd (hneg _ rfl) (by omega), fun pid fd hno => ?_⟩
    rw [hsame, if_neg]
    rintro rfl
    exact hno rfl

/-! ## Runs -/

/-- The machine, and what the offset of each descriptor of each process ought to be. -/
structure Books (τ : Type) where
  machine : Machine τ
  due : Nat → Nat → Nat

/-- One step: a call of the current process, a new process, the first half of a `fork` whose
second half comes later, or the scheduler. -/
inductive FileStep where
  | call (env : Env) (c : Call)
  | kernel (top : Fin MAX_PROCESSES → Nat) (action : Action)

namespace Books

variable {τ : Type} (v : Vfs (Devices × τ))

/-- What a call that returned `ret` adds to the offsets that are due. -/
def credit (due : Nat → Nat → Nat) (owner : Nat) (c : Call) :
    SyscallNum → Option Int → Nat → Nat → Nat
  | .open, some ret, pid, fd => if 0 ≤ ret ∧ pid = owner ∧ fd = ret.toNat then 0 else due pid fd
  | .read, some ret, pid, fd =>
    if 0 ≤ ret ∧ pid = owner ∧ fd = c.fd then due pid fd + ret.toNat else due pid fd
  | .write, some ret, pid, fd =>
    if 0 ≤ ret ∧ pid = owner ∧ fd = c.fd then due pid fd + ret.toNat else due pid fd
  | .fork, some ret, pid, fd => if 0 ≤ ret ∧ pid = ret.toNat then due owner fd else due pid fd
  | _, _, pid, fd => due pid fd

/-- A child takes over what is due to its parent. -/
def inherit (m : Machine τ) (due : Nat → Nat → Nat) : Action → Nat → Nat → Nat
  | .fork childCr3 userRsp, pid, fd =>
    match (m.kernel.forkProcess childCr3 userRsp).1 with
    | .ok (child, _) => if pid = child then due m.owner fd else due pid fd
    | .error _ => due pid fd
  | _, pid, fd => due pid fd

def exec (b : Books τ) : FileStep → Books τ
  | .call env c =>
    { machine := (dispatch v env b.machine c).2
      due := (SyscallNum.fromU64 c.num).elim b.due fun num =>
        credit b.due b.machine.owner c num (dispatch v env b.machine c).1.ret }
  | .kernel top action =>
    { machine := onKernel b.machine (b.machine.kernel.exec top action)
      due := inherit b.machine b.due action }

/-- The kernel actions of the run: processes are made and scheduled. -/
def Schedules : Action → Prop
  | .spawn .. | .fork .. | .buildChildStack .. | .yieldNow .. | .schedule .. | .switchToNext ..
  | .tick .. | .startScheduler => True
  | _ => False

/-- The steps of the run. A buffer is shorter than 2 ^ 63 bytes, as every slice is. -/
def Allowed (_ : Books τ) : FileStep → Prop
  | .call _ c => (∃ num ∈ fileCalls, SyscallNum.fromU64 c.num = some num) ∧ c.arg2 < 2 ^ 63
  | .kernel _ action => Schedules action

/-- The invariant: every offset is what is due, and descriptors of files come after the
standard streams. -/
structure Balanced (b : Books τ) : Prop where
  packed : Packed b.machine.kernel.table
  offsets : ∀ {pid fd mountIdx inodeId offset},
    b.machine.entry pid fd = some (.vfsFile mountIdx inodeId offset) → offset = b.due pid fd
  files : ∀ {pid fd mountIdx inodeId offset},
    b.machine.entry pid fd = some (.vfsFile mountIdx inodeId offset) → 3 ≤ fd

variable {v} {b : Books τ}

theorem credit_same {due : Nat → Nat → Nat} {owner : Nat} {c : Call} {num : SyscallNum}
    {ret : Option Int} (h : ∀ r, ret = some r → r < 0) (pid fd : Nat) :
    credit due owner c num ret pid fd = due pid fd := by
  cases ret with
  | none => cases num <;> rfl
  | some r =>
    have hr : ¬ 0 ≤ r := Int.not_le.2 (h r rfl)
    cases num <;> simp [credit, hr]

/-- A call keeps the books. -/
theorem Balanced.call (hv : CountsFit v) (h : Balanced b) (env : Env) {c : Call}
    {num : SyscallNum} (hnum : SyscallNum.fromU64 c.num = some num) (hfile : num ∈ fileCalls)
    (hcount : c.arg2 < 2 ^ 63) : Balanced (b.exec v (.call env c)) := by
  obtain ⟨heffect, hpacked⟩ := dispatch_effect env hv h.packed hcount hnum hfile
  have hdue : (b.exec v (.call env c)).due =
      credit b.due b.machine.owner c num (dispatch v env b.machine c).1.ret := by
    rw [exec, hnum]
    rfl
  suffices hnew : ∀ {pid fd mountIdx inodeId offset},
      (dispatch v env b.machine c).2.entry pid fd = some (.vfsFile mountIdx inodeId offset) →
        offset = credit b.due b.machine.owner c num (dispatch v env b.machine c).1.ret pid fd ∧
          3 ≤ fd from
    ⟨hpacked, fun he => hdue ▸ (hnew he).1, fun he => (hnew he).2⟩
  generalize (dispatch v env b.machine c).1.ret = ret at heffect
  generalize (dispatch v env b.machine c).2 = m' at heffect
  intro pid fd mountIdx inodeId offset he
  cases heffect with
  | same hret hsame =>
    rw [hsame] at he
    rw [credit_same hret]
    exact ⟨h.offsets he, h.files he⟩
  | stream hkind hfd hsame =>
    rw [hsame] at he
    have h3 := h.files he
    refine ⟨?_, h3⟩
    rw [h.offsets he]
    have hne : fd ≠ c.fd := by omega
    rcases hkind with rfl | rfl <;> cases ret <;> simp [credit, hne]
  | @opened _ fd' mountIdx' inodeId' hfd hsame =>
    rw [hsame] at he
    split at he
    · rename_i heq
      cases he
      exact ⟨by simp [credit, heq.1, heq.2], heq.2 ▸ hfd⟩
    · rename_i hne
      refine ⟨?_, h.files he⟩
      rw [h.offsets he]
      simp [credit, hne]
  | @moved _ _ n mountIdx' inodeId' offset' hkind hwas hsame =>
    rw [hsame] at he
    split at he
    · rename_i heq
      cases he
      refine ⟨?_, heq.2 ▸ h.files hwas⟩
      rw [h.offsets hwas]
      rcases hkind with rfl | rfl <;> simp [credit, heq.1, heq.2]
    · rename_i hne
      refine ⟨?_, h.files he⟩
      rw [h.offsets he]
      rcases hkind with rfl | rfl <;> simp [credit, hne]
  | closed hsame =>
    rw [hsame] at he
    split at he
    · cases he
    · exact ⟨h.offsets he, h.files he⟩
  | @forked _ child hchild hsame =>
    rw [hsame] at he
    split at he
    · rename_i heq
      refine ⟨?_, h.files he⟩
      rw [h.offsets he]
      simp [credit, heq]
    · rename_i hne
      refine ⟨?_, h.files he⟩
      rw [h.offsets he]
      simp [credit, hne]

/-- Changes of the kernel that close descriptors at most. -/
theorem Balanced.closes (h : Balanced b) {k : Kernel}
    (hk : Carries Closes b.machine.kernel.table k.table) :
    Balanced ⟨onKernel b.machine k, b.due⟩ := by
  refine ⟨h.packed.carries hk, fun {pid fd _ _ _} he => ?_, fun {pid fd _ _ _} he => ?_⟩ <;>
    rcases b.machine.entry_onKernel_closes hk pid fd with heq | heq <;> rw [heq] at he
  · exact h.offsets he
  · cases he
  · exact h.files he
  · cases he

theorem Balanced.same (h : Balanced b) {k : Kernel}
    (hk : Carries Eq b.machine.kernel.table k.table) : Balanced ⟨onKernel b.machine k, b.due⟩ :=
  h.closes hk.closes

/-- The streams of a new process. -/
theorem new_get_ne_vfsFile (fd mountIdx inodeId offset : Nat) :
    FdTable.new.get fd ≠ some (.vfsFile mountIdx inodeId offset) := by
  unfold FdTable.get FdTable.new
  split
  · simp only
    split <;> simp
  · simp

/-- A new process without files. -/
theorem Balanced.born (h : Balanced b) {k : Kernel} {i : Fin MAX_PROCESSES}
    (hi : b.machine.kernel.table.slotOf 0 = some i) {parent : Nat} {name : List UInt8}
    {f : Process → Process} (hf : ∀ p, (f p).pid = p.pid) (hfds : ∀ p, (f p).fdTable = p.fdTable)
    (hk : k.table = (b.machine.kernel.table.fill i parent name).modify
      b.machine.kernel.table.nextPid f) : Balanced ⟨onKernel b.machine k, b.due⟩ := by
  have hold : ∀ {pid fd mountIdx inodeId offset},
      (onKernel b.machine k).entry pid fd = some (.vfsFile mountIdx inodeId offset) →
      b.machine.entry pid fd = some (.vfsFile mountIdx inodeId offset) := by
    intro pid fd mountIdx inodeId offset he
    rw [b.machine.entry_fill h.packed hi hf hk, hfds] at he
    split at he
    · exact absurd he (new_get_ne_vfsFile _ _ _ _)
    · exact he
  refine ⟨?_, fun he => h.offsets (hold he), fun he => h.files (hold he)⟩
  change Packed k.table
  rw [hk]
  exact (h.packed.fill hi _ _).carries
    (Carries.modify (R := fun _ _ => True) (fun _ => trivial) hf (fun _ => trivial) _ _)

theorem Balanced.spawn (h : Balanced b) (top : Fin MAX_PROCESSES → Nat) (name : List UInt8)
    (entry stackTop cr3 : Nat) :
    Balanced ⟨onKernel b.machine (b.machine.kernel.spawnUserProcess top name entry stackTop cr3).2,
      b.due⟩ := by
  unfold Kernel.spawnUserProcess
  rcases b.machine.kernel.table.alloc_cases 0 name with ⟨-, he⟩ | ⟨i, hi, he⟩
  · rw [he]
    simp only [if_true]
    exact h.same (.refl (fun _ => rfl) _)
  · rw [he]
    simp only
    rw [if_neg h.packed.nextPid_ne]
    exact h.born hi (f := fun p => { p with
      entryPoint := entry, userRsp := stackTop, cr3 := cr3, state := .ready }) (fun _ => rfl)
      (fun _ => rfl) rfl

theorem Balanced.fork (h : Balanced b) (top : Fin MAX_PROCESSES → Nat) (childCr3 : Option Nat)
    (userRsp : Nat) : Balanced (b.exec v (.kernel top (.fork childCr3 userRsp))) := by
  rcases forkProcess_entry h.packed childCr3 userRsp with ⟨e, -, he⟩ | ⟨slot, k, he, hk, hentry⟩
  · have hexec : b.exec v (.kernel top (.fork childCr3 userRsp)) = b := by
      have hdue : inherit b.machine b.due (.fork childCr3 userRsp) = b.due := by
        funext pid fd
        simp only [inherit, he]
      rw [exec, hdue, Kernel.exec, he]
      rfl
    rw [hexec]
    exact h
  · have hexec : b.exec v (.kernel top (.fork childCr3 userRsp)) =
        ⟨onKernel b.machine k, fun pid fd => if pid = b.machine.kernel.table.nextPid then
          b.due b.machine.owner fd else b.due pid fd⟩ := by
      rw [exec, Kernel.exec, he]
      refine congrArg (Books.mk _) ?_
      funext pid fd
      simp only [inherit, he]
    rw [hexec]
    refine ⟨hk, fun {pid fd _ _ _} hx => ?_, fun {pid fd _ _ _} hx => ?_⟩ <;>
      rw [hentry] at hx
    · simp only
      split at hx
      · rename_i heq
        rw [if_pos heq]
        exact h.offsets hx
      · rename_i hne
        rw [if_neg hne]
        exact h.offsets hx
    · split at hx <;> exact h.files hx

/-- The kernel keeps the books. -/
theorem Balanced.kernel (h : Balanced b) (top : Fin MAX_PROCESSES → Nat) {action : Action}
    (hs : Schedules action) : Balanced (b.exec v (.kernel top action)) := by
  cases action with
  | spawn name entry stackTop cr3 => exact h.spawn top name entry stackTop cr3
  | fork childCr3 userRsp => exact h.fork top childCr3 userRsp
  | buildChildStack slot => exact h.same (.refl (fun _ => rfl) _)
  | yieldNow rsp => exact h.same (Picked.carries Kernel.yieldNow_table)
  | schedule held rsp => exact h.same (Picked.carries Kernel.schedule_table)
  | switchToNext held rsp => exact h.same (Picked.carries Kernel.switchToNext_table)
  | tick held rsp => exact h.closes (onTimerTick_carries _ held rsp)
  | startScheduler => exact h.same (.refl (fun _ => rfl) _)
  | _ => exact absurd hs (by simp [Schedules])

/-- One step keeps the books. -/
theorem balanced_exec (hv : CountsFit v) (h : Balanced b) {e : FileStep} (hok : Allowed b e) :
    Balanced (b.exec v e) := by
  cases e with
  | call env c =>
    obtain ⟨⟨num, hfile, hnum⟩, hcount⟩ := hok
    exact h.call hv env hnum hfile hcount
  | kernel top action => exact h.kernel top hok

/-- The machine at boot. -/
def boot (devices : Devices) (files : τ) : Books τ where
  machine := ⟨.boot, .new, [slash], devices, files⟩
  due _ _ := 0

theorem boot_balanced (devices : Devices) (files : τ) : Balanced (boot devices files) := by
  have hno : ∀ {pid fd mountIdx inodeId offset},
      (boot devices files).machine.entry pid fd ≠ some (.vfsFile mountIdx inodeId offset) := by
    intro pid fd mountIdx inodeId offset
    by_cases h0 : pid = 0
    · simp only [Machine.entry, Machine.tableOf, if_pos h0]
      exact new_get_ne_vfsFile _ _ _ _
    · have hnone : (boot devices files).machine.kernel.table.get pid = none := by
        rw [ProcessTable.get, ProcessTable.slotOf_eq_none.2 fun i => Ne.symm h0, Option.map_none]
      simp only [Machine.entry, Machine.tableOf, if_neg h0, hnone, Option.map_none]
      simp
  exact ⟨Packed.new, fun he => absurd he hno, fun he => absurd he hno⟩

end Books

/-! ## tmpfs -/

/-- tmpfs is mounted at `/`. -/
def tmpfsRoot (disk : DiskIn Tmpfs) : Vfs (Devices × Tmpfs) :=
  Filesystem.vfs disk [([slash], Tmpfs.rootInode, .other Tmpfs.ops)]

theorem Tmpfs.read_le {s : Tmpfs} {id offset n : Nat} {buf bytes : List UInt8}
    (h : s.read id offset buf = .ok (n, bytes)) : n ≤ buf.length := by
  unfold Tmpfs.read at h
  split at h
  · cases h
  split at h
  · cases h
  split at h
  · cases h
    exact Nat.zero_le _
  · cases h
    omega

theorem Tmpfs.write_le {s s' : Tmpfs} {id offset n : Nat} {buf : List UInt8}
    (h : s.write id offset buf = (.ok n, s')) : n ≤ buf.length := by
  unfold Tmpfs.write at h
  split at h
  · cases h
  split at h
  · cases h
  · cases h
    exact Nat.le_refl _

theorem countsFit_tmpfsRoot (disk : DiskIn Tmpfs) : CountsFit (tmpfsRoot disk) where
  read := by
    intro m hm s id offset buf n bytes s' h
    obtain rfl := List.mem_singleton.1 hm
    exact Tmpfs.read_le (Prod.mk.inj h).1
  write := by
    intro m hm s id offset buf n s' h
    obtain rfl := List.mem_singleton.1 hm
    exact Tmpfs.write_le (Prod.ext (Prod.mk.inj h).1 rfl)

namespace Books

/-- In every run on tmpfs files each offset is what is due: 0 at `open`, the parent's at
`fork`, and the bytes returned since. A call that fails changes no descriptor, and a call on
one descriptor changes no other. -/
theorem offsets_of_run {disk : DiskIn Tmpfs} {devices : Devices} {files : Tmpfs} {b : Books Tmpfs}
    (hrun : Reaches (fun b e b' => b' = b.exec (tmpfsRoot disk) e) Allowed (boot devices files) b) :
    (∀ pid fd mountIdx inodeId offset,
      b.machine.entry pid fd = some (.vfsFile mountIdx inodeId offset) → offset = b.due pid fd) ∧
    ∀ env c num, num ∈ fileCalls → SyscallNum.fromU64 c.num = some num → c.arg2 < 2 ^ 63 →
      let r := dispatch (tmpfsRoot disk) env b.machine c
      ((∀ ret, r.1.ret = some ret → ret < 0) →
        ∀ pid fd, r.2.entry pid fd = b.machine.entry pid fd) ∧
      ∀ pid fd, ¬ Changes b.machine c num r.1.ret pid fd →
        r.2.entry pid fd = b.machine.entry pid fd := by
  have hbalanced : Balanced b := by
    refine hrun.invariant ?_ (boot_balanced devices files)
    rintro b e _ hb hok rfl
    exact balanced_exec (countsFit_tmpfsRoot disk) hb hok
  refine ⟨fun pid fd mountIdx inodeId offset he => hbalanced.offsets he, ?_⟩
  intro env c num hfile hnum hcount
  exact (dispatch_effect env (countsFit_tmpfsRoot disk) hbalanced.packed hcount hnum
    hfile).1.frame

/-- `/a` at 4096. -/
def pathEnv : Env where
  mem n := [0x2F, 0x61].getD (n - 4096) 0
  serial := []
  clock := (0, 0)
  heap := none
  childCr3 := none
  image _ := .error ENOENT
  userRsp := 0
  rsp := 0
  stackTop _ := 0

/-- `open("/a", O_CREAT)` and `write(3, path, 2)`. -/
def openWrite : List FileStep :=
  [.call pathEnv ⟨1, 4096, 64, 0, 0, 0⟩, .call pathEnv ⟨3, 3, 4096, 2, 0, 0⟩]

/-- No disk, no framebuffer and no key. -/
def noDevices : Devices := ⟨none, .new, ⟨0, 0, 0⟩⟩

def noDisk : DiskIn Tmpfs := ⟨fun _ => ⟨false, fun _ => 0⟩, fun _ s => s, fun _ => 0⟩

theorem offsets_of_run_write :
    (openWrite.foldl (exec (tmpfsRoot noDisk)) (boot noDevices Tmpfs.new)).machine.entry 0 3 =
        some (.vfsFile 0 2 2) ∧
      2 = (openWrite.foldl (exec (tmpfsRoot noDisk)) (boot noDevices Tmpfs.new)).due 0 3 := by
  have hentry : (openWrite.foldl (exec (tmpfsRoot noDisk))
      (boot noDevices Tmpfs.new)).machine.entry 0 3 = some (.vfsFile 0 2 2) := by decide +kernel
  refine ⟨hentry, (offsets_of_run (Reaches.foldl ?_)).1 _ _ _ _ _ hentry⟩
  exact ⟨⟨⟨.open, by decide, rfl⟩, by decide⟩, ⟨⟨.write, by decide, rfl⟩, by decide⟩, trivial⟩

end Books

end AeroOS.Syscalls
