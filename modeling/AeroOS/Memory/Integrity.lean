import AeroOS.Memory.SpaceRuns

/-!
# The memory of a process

What a process sees of its memory changes only with its own writes, in every run
in which `sys_exec` writes the arguments to no frame of a process.

* `Kept`: what an event leaves of the process of a slot.
* `Unseen` and `memory_of_run`: what a run of other processes leaves.
-/

namespace AeroOS.Memory

open AeroOS.Bytes AeroOS.Hoare AeroOS.Paging AeroOS.Run
open AeroOS.Proc

/-! ## What a process sees -/

/-- The byte that a process sees at an address. -/
def memoryOf (w : World) (pid vaddr : Nat) : Option UInt8 :=
  (w.kernel.table.get pid).bind fun p => userByte w.phys.mem p.cr3 vaddr

/-- The event writes to the space of the current process. -/
def Event.Writes : Event → Prop
  | .exec _ _ _ _ => True
  | .store _ _ => True
  | _ => False

/-- A process sees what its frames hold. -/
theorem userByte_congr {m m' : Store} {t : Nat}
    (hm : ∀ g x, Holds m t g → InFrame g x → m' x = m x) (v : Nat) :
    userByte m' t v = userByte m t v := by
  have hentry : ∀ P g i, Held (Mine m t) (fun _ => False) (i :: P) → reach m t P = some g →
      entry m' g i = entry m g i := fun P g i hP hg =>
    entry_congr hP.head fun x hx => hm g x ⟨P, hP.tail.owned, hg⟩ hx
  have htop : UserTop m' t (v / 2 ^ 39 % 512) ↔ UserTop m t (v / 2 ^ 39 % 512) :=
    userTop_congr (entry_congr (Nat.mod_lt _ (by decide)) fun x hx =>
      hm t x (holds_root ..) hx)
  unfold userByte userLeaf
  by_cases hu : UserTop m t (v / 2 ^ 39 % 512)
  · have hown : Own (Mine m t) (path v) := own_user (path_route v hu) (Nat.le_refl 4)
    rw [if_pos (htop.2 hu), if_pos hu, Tree.leaf_congr hentry hown.held]
    cases he : leaf m t (path v) with
    | none => rfl
    | some e =>
      have hlt : v % 4096 < 4096 := Nat.mod_lt _ (by decide)
      have hbyte : m' (addr e + v % 4096) = m (addr e + v % 4096) :=
        hm (addr e) _ ⟨path v, hown, reach_of_leaf rfl he⟩ ⟨Nat.le_add_right .., by omega⟩
      rw [Option.filter_some]
      split
      · exact congrArg some hbyte
      · rfl
  · rw [if_neg (mt htop.1 hu), if_neg hu]
    rfl

/-- After the event `e` the process of a slot is new, or it was there before, and
sees what it saw unless it has written. -/
structure Kept (w : World) (e : Event) (w' : World) (j : Fin MAX_PROCESSES) : Prop where
  next : w.kernel.table.nextPid ≤ w'.kernel.table.nextPid
  pid : (w'.kernel.table.processes j).pid ≠ 0 →
    (w'.kernel.table.processes j).pid ≠ w.kernel.table.nextPid →
    (w'.kernel.table.processes j).pid = (w.kernel.table.processes j).pid
  bytes : (w'.kernel.table.processes j).pid ≠ 0 →
    (w'.kernel.table.processes j).pid ≠ w.kernel.table.nextPid →
    (e.Writes → (w.kernel.table.processes j).pid ≠ w.kernel.table.currentPid) →
    ∀ v, userByte w'.phys.mem (w'.kernel.table.processes j).cr3 v =
      userByte w.phys.mem (w.kernel.table.processes j).cr3 v

section Kept

variable {stock : List Nat} {boot : Nat} {w w' : World} {mapTo : MapTo}
  {top : Fin MAX_PROCESSES → Nat} {window : Nat} {e : Event} {j : Fin MAX_PROCESSES}

/-- A write to a frame that is not of the process. -/
theorem userByte_write {lost : List Nat} {p : Phys} {roots : Set Nat} {t f : Nat} {m : Store}
    (ho : Owned stock lost p roots) (ht : t ∈ roots) (hf : f % 4096 = 0)
    (hm : ∀ x, ¬ InFrame f x → m x = p.mem x) (hno : ¬ Holds p.mem t f) (v : Nat) :
    userByte m t v = userByte p.mem t v := by
  refine userByte_congr (fun g x hg hx => hm x fun hx' => ?_) v
  have hmod : g % 4096 = 0 := ((ho.space t ht).isFrame hg).mod
  have hgf : g = f := by
    unfold InFrame at hx hx'
    omega
  exact hno (hgf ▸ hg)

variable (hs : Stock stock boot)
include hs

theorem Inv.userByte_within (h : Inv stock boot w) {p : Phys} (hw : Within w.phys p)
    (hpid : (w.kernel.table.processes j).pid ≠ 0) (v : Nat) :
    userByte p.mem (w.kernel.table.processes j).cr3 v =
      userByte w.phys.mem (w.kernel.table.processes j).cr3 v := by
  obtain ⟨lost, ho, -⟩ := h
  exact userByte_congr
    (fun g x hg hx => ho.eq_of_within hs.frame hw ⟨j, hpid, rfl⟩ hg hx) v

/-- The pids do not wrap. -/
theorem Inv.next_succ (h : Inv stock boot w) :
    (w.kernel.table.nextPid + 1) % 2 ^ 32 = w.kernel.table.nextPid + 1 := by
  obtain ⟨lost, ho, hr, -⟩ := h
  have hlen : lost.length ≤ 32768 := ho.lost_le.trans hs.count
  rw [hr.next]
  omega

/-- An event keeps what a process sees, but for its own writes. -/
theorem Inv.kept (h : Inv stock boot w) (heff : Effect mapTo top w e w')
    (hpages : e.SparesPages mapTo w) (j : Fin MAX_PROCESSES) : Kept w e w' j := by
  cases heff with
  | @decide _ p r hw hsw =>
    refine ⟨Nat.le_of_eq hsw.same.next.symm, fun _ _ => hsw.same.pid j, fun hpid _ _ v => ?_⟩
    have hpid' : (w.kernel.table.processes j).pid ≠ 0 := hsw.same.pid j ▸ hpid
    show userByte p.mem (r.2.table.processes j).cr3 v = _
    rw [hsw.same.cr3 j]
    exact h.userByte_within hs hw hpid' v
  | @fill _ p c parent k i hb hf hparent =>
    have hother : (k.table.processes j).pid ≠ w.kernel.table.nextPid →
        k.table.processes j = w.kernel.table.processes j := fun hnew =>
      hf.others j fun hji => hnew (hji ▸ hf.pid)
    refine ⟨?_, fun _ hnew => congrArg Process.pid (hother hnew), fun hpid hnew _ v => ?_⟩
    · show w.kernel.table.nextPid ≤ k.table.nextPid
      rw [hf.next, h.next_succ hs]
      exact Nat.le_succ _
    · have he := hother hnew
      have hpid' : (w.kernel.table.processes j).pid ≠ 0 := he ▸ hpid
      show userByte p.mem (k.table.processes j).cr3 v = _
      rw [he]
      exact h.userByte_within hs hb.within hpid' v
  | @reap _ i hi hparent =>
    refine ⟨Nat.le_refl _, fun hpid _ => congrArg Process.pid (slot_clear hpid).2,
      fun hpid _ _ v => ?_⟩
    show userByte (AddressSpace.deallocProcSpace w.phys _).mem
      ((w.kernel.table.setSlot i .empty).processes j).cr3 v = _
    rw [AddressSpace.deallocProcSpace_mem, (slot_clear hpid).2]
  | @replace elf name argv rsp c entryPoint stackTop userRsp f p m hcur hload hb harg hm =>
    obtain ⟨i, hi, -, -, -⟩ := h.current hcur
    obtain ⟨s, k', hk, -, -, hnext, hsame⟩ :=
      @Scheduler.Kernel.execReplace_loads w.kernel top i hcur hi entryPoint userRsp c name rsp
    rw [hk]
    refine ⟨Nat.le_of_eq hnext.symm, fun _ _ => (hsame j).1, fun hj _ hother v => ?_⟩
    have hj' : (w.kernel.table.processes j).pid ≠ 0 := (hsame j).1 ▸ hj
    have hji : j ≠ i := by
      rintro rfl
      exact hother trivial (ProcessTable.slotOf_pid hi)
    have hcr3 : (k'.table.processes j).cr3 = (w.kernel.table.processes j).cr3 := by
      rw [(hsame j).2.2, if_neg hji]
    have hwithin := h.userByte_within hs hb.within hj' v
    obtain ⟨lost, ho, -, -⟩ := h
    show userByte (AddressSpace.deallocProcSpace ⟨m, p.free⟩ w.cr3).mem
      (k'.table.processes j).cr3 v = _
    rw [hcr3, AddressSpace.deallocProcSpace_mem, ← hwithin]
    exact userByte_write (ho.within hs.frame hb.within) ⟨j, hj', rfl⟩ (argFrame_mod harg) hm
      (hpages _ _ _ hload harg _ ⟨j, hj', rfl⟩) v
  | @store vaddr leaf b hcur he =>
    obtain ⟨i, hi, hpid, hci, hroot⟩ := h.current hcur
    refine ⟨Nat.le_refl _, fun _ _ => rfl, fun hj _ hother => ?_⟩
    have hji : j ≠ i := by
      rintro rfl
      exact hother trivial (ProcessTable.slotOf_pid hi)
    obtain ⟨lost, ho, hr, -⟩ := h
    obtain ⟨hP, hreach⟩ := (userLeaf_eq_some.1 he).own (path_lt vaddr) rfl
    refine userByte_write ho ⟨j, hj, rfl⟩ (isFrame_addr leaf).mod (fun x => store_out b) ?_
    -- the page is one of the current process
    intro hh
    have hc := ho.apart _ ⟨j, hj, rfl⟩ _ hroot _ hh ⟨_, hP, hreach⟩
    exact hji (hr.separate j i hj hpid (hc.trans hci.symm))

end Kept

/-- What the run of others leaves of a process. -/
structure Unseen (pid : Nat) (w w' : World) : Prop where
  older : pid < w'.kernel.table.nextPid
  slot : ∀ j, (w'.kernel.table.processes j).pid = pid → (w.kernel.table.processes j).pid = pid
  bytes : ∀ j, (w'.kernel.table.processes j).pid = pid →
    ∀ v, userByte w'.phys.mem (w'.kernel.table.processes j).cr3 v =
      userByte w.phys.mem (w.kernel.table.processes j).cr3 v

theorem Unseen.step {pid : Nat} {w w' w'' : World} {e : Event} (h : Unseen pid w w')
    (hpid : pid ≠ 0) (hkept : ∀ j, Kept w' e w'' j)
    (hother : e.Writes → w'.kernel.table.currentPid ≠ pid) : Unseen pid w w'' := by
  have hback : ∀ j, (w''.kernel.table.processes j).pid = pid →
      (w'.kernel.table.processes j).pid = pid := fun j hj =>
    ((hkept j).pid (hj ▸ hpid) (hj ▸ Nat.ne_of_lt h.older)).symm.trans hj
  refine ⟨h.older.trans_le (hkept 0).next, fun j hj => h.slot j (hback j hj), fun j hj v => ?_⟩
  have hj' := hback j hj
  refine ((hkept j).bytes (hj ▸ hpid) (hj ▸ Nat.ne_of_lt h.older) (fun hw => ?_) v).trans
    (h.bytes j hj' v)
  rw [hj']
  exact (hother hw).symm

/-- The event is allowed, and not a write of the process. -/
def ByOthers (mapTo : MapTo) (pid : Nat) (w : World) (e : Event) : Prop :=
  Allowed mapTo w e ∧ e.SparesPages mapTo w ∧ (e.Writes → w.kernel.table.currentPid ≠ pid)

/-- What a run of others leaves of a process that there is. -/
theorem Inv.unseen_of_run {stock : List Nat} {boot : Nat} (hs : Stock stock boot)
    {mapTo : MapTo} {top : Fin MAX_PROCESSES → Nat} {window pid : Nat} {w w' : World}
    (hmap : FollowsWalk mapTo) (hinv : Inv stock boot w) (hpid : pid ≠ 0)
    (hin : (w.kernel.table.get pid).isSome)
    (hrun : Reaches (World.Step mapTo top window) (ByOthers mapTo pid) w w') :
    Unseen pid w w' := by
  obtain ⟨p, hp⟩ := Option.isSome_iff_exists.1 hin
  obtain ⟨i, hi, -⟩ := ProcessTable.get_eq_some hp
  have hpi := ProcessTable.slotOf_pid hi
  obtain ⟨lost, -, hr, -⟩ := id hinv
  have hboth : Inv stock boot w' ∧ Unseen pid w w' :=
    hrun.invariant (I := fun s => Inv stock boot s ∧ Unseen pid w s)
      (fun s e s' hI hok hstep => by
        have hs' : s' = s.next mapTo top window e := hstep
        have heff : Effect mapTo top s e (s.next mapTo top window e) :=
          hI.1.effect hs hmap window hok.1.1
        subst hs'
        exact ⟨hI.1.of_effect hs heff hok.1.2,
          hI.2.step hpid (fun j => hI.1.kept hs heff hok.2.1 j) hok.2.2⟩)
      ⟨hinv, hpi ▸ (hr.older i (hpi ▸ hpid)).1, fun _ hj => hj, fun _ _ _ => rfl⟩
  exact hboth.2

theorem Unseen.memoryOf_eq {stock : List Nat} {boot pid : Nat} {w w' : World}
    (h : Unseen pid w w') (hinv : Inv stock boot w) (hpid : pid ≠ 0)
    (hin : (w.kernel.table.get pid).isSome) (hin' : (w'.kernel.table.get pid).isSome) :
    memoryOf w' pid = memoryOf w pid := by
  obtain ⟨p, hp⟩ := Option.isSome_iff_exists.1 hin
  obtain ⟨i, hi, rfl⟩ := ProcessTable.get_eq_some hp
  obtain ⟨p', hp'⟩ := Option.isSome_iff_exists.1 hin'
  obtain ⟨j, hj, rfl⟩ := ProcessTable.get_eq_some hp'
  have hpi := ProcessTable.slotOf_pid hi
  have hpj := ProcessTable.slotOf_pid hj
  -- the process has kept its slot
  obtain ⟨lost, -, hr, -⟩ := id hinv
  obtain rfl : i = j := hr.distinct i j (hpi ▸ hpid) (hpi.trans (h.slot j hpj).symm)
  funext v
  rw [memoryOf, memoryOf, hp, hp']
  exact h.bytes i hpj v

end AeroOS.Memory
