import AeroOS.Fs.Creation
import AeroOS.Syscalls.MakeDir

/-!
# Opens that fail

`sys_open` opens the file first and takes a descriptor afterwards.

* `FdTable.Full` is a table without a free descriptor.
* `FailsClean`: a call that answers a negative number leaves the files and the
  descriptor tables as they were.
* `sysOpen_failsClean_iff`: so does `open`, unless it creates a file and then finds no
  free descriptor.  `open_failsClean_iff` is this for the filesystems of the boot.
-/

namespace AeroOS.Syscalls

open Fs Vfs
open AeroOS.Proc

/-! ## The descriptor table -/

/-- No descriptor behind the standard streams is free. -/
def FdTable.Full (t : FdTable) : Prop := ∀ i, 3 ≤ i.val → t.entries i ≠ .free

theorem FdTable.alloc_eq_none_iff {t : FdTable} {kind : FdKind} : t.alloc kind = none ↔ t.Full := by
  rw [alloc, Option.map_eq_none_iff, List.find?_eq_none]
  constructor
  · intro h i hi hfree
    exact h i (List.mem_finRange i) (decide_eq_true ⟨hi, hfree⟩)
  · intro h i _ hfound
    obtain ⟨hi, hfree⟩ := of_decide_eq_true hfound
    exact h i hi hfree

/-! ## The call -/

section calls

variable {τ α : Type} {v : Vfs (Devices × τ)} {m : Machine τ} {f : Devices × τ → α}

/-- If the call answers a negative number, the files `f` and all descriptor tables are
those from before. -/
def FailsClean (f : Devices × τ → α) (m : Machine τ) (r : Reply × Machine τ) : Prop :=
  ∀ n, r.1.ret = some n → n < 0 →
    f r.2.fsState = f m.fsState ∧ r.2.kernel = m.kernel ∧ r.2.fdTable = m.fdTable

/-- A call that touches the files only. -/
theorem failsClean_setFsState {n : Int} {s : Devices × τ} (hn : n < 0) :
    FailsClean f m (.value n, m.setFsState s) ↔ f s = f m.fsState := by
  constructor
  · intro h
    exact (h n rfl hn).1
  · intro h _ _ _
    exact ⟨h, rfl, rfl⟩

theorem failsClean_of_nonneg {n : Int} {m' : Machine τ} (hn : 0 ≤ n) :
    FailsClean f m (.value n, m') := by
  intro k hk hneg
  have hkn : n = k := Option.some.inj hk
  omega

/-- An `open` that fails is clean, unless it creates a file while no descriptor is free. -/
theorem sysOpen_failsClean_iff {W : Devices × τ → Prop} {can : Nat → Devices × τ → Nat → Path → Prop}
    (h : ∀ i c, v.mounts[i]? = some c → Tame W f c.ops (can i)) (hm : W m.fsState) (env : Env)
    (ptr flags : Nat) :
    FailsClean f m (sysOpen v env m ptr flags) ↔
      ¬ (flags.testBit 6 = true ∧ m.callerTable.Full ∧
        ∃ path, readPath env.mem ptr = .ok path ∧ v.Creates can path m.fsState) := by
  rw [sysOpen]
  cases hread : readPath env.mem ptr with
  | error e =>
    refine iff_of_true (fun _ _ _ => ⟨rfl, rfl, rfl⟩) ?_
    rintro ⟨-, -, path, hpath, -⟩
    cases hpath
  | ok path =>
    have hpath : (∃ p, (Except.ok path : Except Int Path) = .ok p ∧ v.Creates can p m.fsState) ↔
        v.Creates can path m.fsState := by
      constructor
      · rintro ⟨p, hp, hc⟩
        exact Except.ok.inj hp ▸ hc
      · exact fun hc => ⟨path, rfl, hc⟩
    rw [hpath]
    simp only
    by_cases hc : flags.testBit 6 = true ∧ v.Creates can path m.fsState
    · obtain ⟨file, s, hopen, hne⟩ := openPath_creates h hm hc.2
      rw [← hc.1] at hopen
      rw [hopen]
      simp only
      cases halloc : (m.setFsState s).callerTable.alloc (.vfsFile file.mountIdx file.inodeId 0) with
      | none =>
        rw [failsClean_setFsState (by decide)]
        exact iff_of_false hne fun hno => hno ⟨hc.1, FdTable.alloc_eq_none_iff.1 halloc, hc.2⟩
      | some p =>
        refine iff_of_true (failsClean_of_nonneg (Int.natCast_nonneg p.1)) ?_
        rintro ⟨-, hfull, -⟩
        have hfull' : (m.setFsState s).callerTable.Full := hfull
        rw [FdTable.alloc_eq_none_iff.2 hfull'] at halloc
        cases halloc
    · have hkeep := openPath_keeps h hm hc
      refine iff_of_true ?_ fun hno => hc ⟨hno.1, hno.2.2⟩
      cases hopen : v.openPath path (flags.testBit 6) m.fsState with
      | mk r s =>
        rw [hopen] at hkeep
        cases r with
        | error e => exact (failsClean_setFsState (by decide)).2 hkeep
        | ok file =>
          simp only
          cases halloc : (m.setFsState s).callerTable.alloc
              (.vfsFile file.mountIdx file.inodeId 0) with
          | none => exact (failsClean_setFsState (by decide)).2 hkeep
          | some p => exact failsClean_of_nonneg (Int.natCast_nonneg p.1)

end calls

/-! ## The filesystems of the boot -/

/-- On the table of the boot an `open` is clean when it fails, unless it may create the file,
no descriptor is free, the path leads to nothing, its parent to a directory, and the file can
be made there. -/
theorem open_failsClean_iff (upper : List UInt8 → List UInt8) (totalSectors : Nat)
    {m : Machine (Fat32 × Tmpfs)} (hm : m.files.1.TreeInOrder) (env : Env) (ptr flags : Nat) :
    FailsClean files m (sysOpen (bootTable upper totalSectors) env m ptr flags) ↔
      ¬ (flags.testBit 6 = true ∧ m.callerTable.Full ∧
        ∃ path, readPath env.mem ptr = .ok path ∧
          (bootTable upper totalSectors).Creates (canCreate upper) path m.fsState) :=
  sysOpen_failsClean_iff (tame_boot upper totalSectors) hm env ptr flags

/-- A process that has opened the root directory until no descriptor was left. -/
def fullProcess : Process :=
  { Process.empty with
    pid := 1
    state := .running
    fdTable := ⟨fun i => if i.val < 3 then .stream else .vfsFile 2 Tmpfs.rootInode 0⟩ }

/-- The process runs, on an empty disk and with nothing in memory. -/
def fullMachine : Machine (Fat32 × Tmpfs) :=
  { bootMachine (Fat32.emptyMount, Tmpfs.new) with
    kernel := { Scheduler.Kernel.boot with
      table := ⟨fun i => if i.val = 0 then fullProcess else .empty, 2, 1⟩ } }

theorem fullMachine_full : fullMachine.callerTable.Full := by
  intro i hi
  have htable : fullMachine.callerTable = fullProcess.fdTable := rfl
  rw [htable, fullProcess]
  simp only
  rw [if_neg (by omega)]
  exact FdKind.noConfusion

/-- `open("/", O_CREAT)` finds no descriptor, and creates nothing. -/
theorem open_failsClean_iff_root :
    (sysOpen (bootTable id 64) (pathEnv [slash]) fullMachine 1 0x40).1.ret = some ENOMEM ∧
      FailsClean files fullMachine
        (sysOpen (bootTable id 64) (pathEnv [slash]) fullMachine 1 0x40) := by
  refine ⟨by decide +kernel,
    (open_failsClean_iff (m := fullMachine) id 64 Fat32.emptyMount_treeInOrder _ _ _).2 ?_⟩
  rintro ⟨-, -, path, hpath, hno, -⟩
  obtain rfl : [slash] = path := Except.ok.inj hpath
  exact hno (2, Tmpfs.rootInode) rfl

/-- `open("/a", O_CREAT)` finds no descriptor either, and leaves a file `/a`. -/
theorem not_failsClean_a :
    (sysOpen (bootTable id 64) (pathEnv [slash, 0x61]) fullMachine 1 0x40).1.ret = some ENOMEM ∧
      (bootTable id 64).Resolves [slash, 0x61]
        (sysOpen (bootTable id 64) (pathEnv [slash, 0x61]) fullMachine 1 0x40).2.fsState (2, 2) ∧
      ¬ FailsClean files fullMachine
        (sysOpen (bootTable id 64) (pathEnv [slash, 0x61]) fullMachine 1 0x40) := by
  refine ⟨by decide +kernel, ?_, ?_⟩
  · rw [Resolves]
    decide +kernel
  · have hiff := sysOpen_failsClean_iff (m := fullMachine) (tame_boot id 64)
      Fat32.emptyMount_treeInOrder (pathEnv [slash, 0x61]) 1 0x40
    rw [hiff, not_not]
    refine ⟨rfl, fullMachine_full, [slash, 0x61], rfl, ?_, 2, [0x61], (2, Tmpfs.rootInode), _, rfl,
      rfl, new_canAdd [0x61]⟩
    intro r hr
    have hmissing : ((bootTable id 64).resolve [slash, 0x61] fullMachine.fsState).1 =
        .error "file not found" := by
      decide +kernel
    rw [Resolves, hmissing] at hr
    cases hr

end AeroOS.Syscalls
