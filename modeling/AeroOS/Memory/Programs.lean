import AeroOS.Memory.Image
import AeroOS.Memory.Integrity

/-!
# Programs in memory

What a process that was spawned sees of its file before it runs.

* `userByte_of_load`: the pages of the segments are for the user, and hold the file data.
* `Runs`: a slot holds a process that is ready to run a program, and its memory is the image.
* `Started` is the state behind some calls of `spawn_user_process`, and `Started.spawn` one
  more of them.
* `program_of_run`: what a spawned process sees stays while others run.
-/

namespace AeroOS.Memory

open Bytes Cells Hoare Paging Proc Run

/-! ## What the process sees -/

section load

variable {cr3 t v : Nat} {p0 p q : Phys} {mapTo : MapTo} {elf : List UInt8}
  {segments : List ElfSegment} {seg : ElfSegment}

theorem LaidOut.user (h : LaidOut elf segments) : UserSegments segments := fun seg hs =>
  ⟨(h.fits seg hs).filesz, (h.fits seg hs).lt⟩

/-- A page of a segment is for the user. -/
theorem ProgramLoaded.user (h : ProgramLoaded cr3 t p0 p elf segments q)
    (hown : Unshared cr3 p0 (v / 2 ^ 39 % 512)) (hseg : seg ∈ segments)
    (hmem : pageOf v ∈ seg.pages) : ∃ e, leaf p.mem t (path v) = some e ∧ user e = true := by
  have hpath := path_own v hown
  have hpage : (seg, pageOf v) ∈ loadOrder segments := mem_loadOrder.2 ⟨hseg, hmem⟩
  cases hleaf : leaf q.mem t (path v) with
  | none =>
    exact absurd (path_pageOf v) (h.loaded.not_mem_of_leaf hpath rfl hleaf (seg, pageOf v) hpage)
  | some e =>
    have hflags := h.loaded.flags (path v) hpath rfl
    rw [hleaf, Option.map_some] at hflags
    obtain ⟨d, -, hde⟩ := Option.map_eq_some_iff.1 hflags.symm
    refine ⟨e, (h.stack.keep (path v) e hpath rfl hleaf).1, ?_⟩
    rw [← user_flags, ← hde, user_segmentFlags]

theorem Building.userByte_eq {own top : Nat → Prop} {e : Nat} (h : Building own top t p0 p)
    (hown : own (v / 2 ^ 39 % 512)) (hleaf : leaf p.mem t (path v) = some e)
    (huser : user e = true) : userByte p.mem t v = some (p.mem (addr e + v % 4096)) := by
  have hlast : (path v).getLast? = some (v / 2 ^ 39 % 512) := by
    rw [path_eq]
    rfl
  have htop := h.full (path v) e _ (path_own v hown) rfl hleaf hlast
  rw [userByte, userLeaf, if_pos htop, hleaf, Option.filter_some, if_pos huser, Option.map_some]

/-- The process sees the file data of its segments, and zeros behind it. -/
theorem userByte_of_load (hmap : FollowsWalk mapTo) (h : Active cr3 p0)
    (hlen : elf.length < 2 ^ 64) {entryPoint : Nat}
    (hparse : parseElfSegments elf = .ok (entryPoint, segments)) (hlaid : LaidOut elf segments)
    {r : Nat × Nat × Nat} (hok : exec (loadElfIntoNewSpace mapTo cr3 elf) p0 = (.ok r, p))
    (hseg : seg ∈ segments) {i : Nat} (hi : i < seg.memsz) :
    userByte p.mem r.1 (seg.vaddr + i) =
      some (if i < seg.filesz then elf.getD (seg.offset + i) 0 else 0) := by
  have hload : Loadable cr3 p0 := .of_unshared h.freeFrame h.freeNodup h.frame h.taken h.stack
  obtain ⟨q, hprogram⟩ := exec_loadElfIntoNewSpace hmap hload hparse
    (fun seg hs => (hlaid.fits seg hs).placed (unshared_zero cr3 p0)) hok
  have hbuilding := ((loadElfIntoNewSpace_building hmap h fun e s hes => by
    rw [hparse] at hes
    cases hes
    exact hlaid.user).ok rfl hok).1
  have hfit := hlaid.fits seg hseg
  have hlt := hfit.lt
  have hv : seg.Covers (seg.vaddr + i) := ⟨Nat.le_add_right .., by omega⟩
  have hzero : (seg.vaddr + i) / 2 ^ 39 % 512 = 0 := by omega
  have hown : Unshared cr3 p0 ((seg.vaddr + i) / 2 ^ 39 % 512) := hzero ▸ unshared_zero cr3 p0
  have hpages := hfit.pageOf_mem hv
  obtain ⟨e, hleaf, huser⟩ := hprogram.user hown hseg hpages
  have hmem : (seg, pageOf (seg.vaddr + i)) ∈ loadOrder segments := mem_loadOrder.2 ⟨hseg, hpages⟩
  have hbyte := hprogram.translate_eq hown hmem (path_pageOf _)
  rw [Memory.translate_eq hprogram.stack.loading.tree hown, hleaf, Option.map_some, Option.map_some,
    imageByte_eq hlaid hlen hseg hv] at hbyte
  rw [hbuilding.userByte_eq hown hleaf huser, hbyte]
  simp only [Nat.add_lt_add_iff_left, Nat.add_sub_cancel_left]

end load

/-! ## Taking frames -/

theorem Active.within {cr3 : Nat} {p0 p : Phys} (h : Active cr3 p0) (hw : Within p0 p) :
    Active cr3 p where
  freeFrame := fun f hf => h.freeFrame f (hw.free.subset hf)
  freeNodup := h.freeNodup.sublist hw.free.sublist
  frame := h.frame
  taken := fun hf => h.taken (hw.free.subset hf)
  stack := by
    have he := hw.entry h.freeFrame h.frame h.taken (show 255 < 512 by decide)
    unfold Shared at *
    rw [he]
    exact h.stack

/-- A space that is complete, with none of its frames free. -/
structure Settled (p : Phys) (t : Nat) : Prop where
  space : Space p.mem t
  taken : ∀ f, Holds p.mem t f → f ∉ p.free

namespace Settled

variable {p0 p : Phys} {t : Nat} (h : Settled p0 t) (hframe : ∀ f ∈ p0.free, IsFrame f)
  (hw : Within p0 p)
include h hframe hw

theorem eq_of_within {g x : Nat} (hg : Holds p0.mem t g) (hx : InFrame g x) :
    p.mem x = p0.mem x :=
  hw.eq_of_not_free hframe (h.space.isFrame hg) (h.taken g hg) hx

theorem within : Settled p t := by
  obtain ⟨hspace, hholds, -⟩ :=
    h.space.congr fun g x hg hx => h.eq_of_within hframe hw hg.holds hx
  exact ⟨hspace, fun f hf hfree => h.taken f ((hholds f).1 hf) (hw.free.subset hfree)⟩

theorem userByte_within (v : Nat) : userByte p.mem t v = userByte p0.mem t v :=
  userByte_congr (fun _ _ hg hx => h.eq_of_within hframe hw hg hx) v

end Settled

/-! ## Processes that are ready -/

section Runs

variable {mapTo : MapTo} {top : Fin MAX_PROCESSES → Nat} {w : World} {i : Fin MAX_PROCESSES}
  {elf name : List UInt8} {n : Nat}

/-- The slot holds a process that is ready to run the file, and sees the file in its
memory. -/
structure Runs (top : Fin MAX_PROCESSES → Nat) (w : World) (i : Fin MAX_PROCESSES)
    (elf name : List UInt8) : Prop where
  live : (w.kernel.table.processes i).pid ≠ 0
  state : (w.kernel.table.processes i).state = .ready
  parent : (w.kernel.table.processes i).parentPid = 0
  named : (w.kernel.table.processes i).name = (Process.empty.setName name).name
  stack : (w.kernel.table.processes i).userRsp = USER_STACK_TOP
  kernelStack : w.kernel.kernelStacks i = ⟨top i - 56, true⟩
  image : ∃ segments,
    parseElfSegments elf = .ok ((w.kernel.table.processes i).entryPoint, segments) ∧
      ∀ seg ∈ segments, ∀ k < seg.memsz,
        userByte w.phys.mem (w.kernel.table.processes i).cr3 (seg.vaddr + k) =
          some (if k < seg.filesz then elf.getD (seg.offset + k) 0 else 0)

/-- The processes are those of before, and one for some of the files.  There are pids for
`n` more. -/
structure Started (top : Fin MAX_PROCESSES → Nat) (Old : Process → Prop)
    (programs : List (List UInt8 × List UInt8)) (n : Nat) (w : World) : Prop where
  active : Active w.cr3 w.phys
  first : w.kernel.table.nextPid ≠ 0
  ids : w.kernel.table.nextPid + n < 2 ^ 32
  older : ∀ i, (w.kernel.table.processes i).pid < w.kernel.table.nextPid
  slots : ∀ i, (w.kernel.table.processes i).pid ≠ 0 → Old (w.kernel.table.processes i) ∨
    ∃ x ∈ programs, Runs top w i x.1 x.2 ∧ Settled w.phys (w.kernel.table.processes i).cr3

/-- The files have their segments in the first entry of the PML4, without overlap. -/
def WellLaid (elf : List UInt8) : Prop :=
  elf.length < 2 ^ 64 ∧ ∀ entryPoint segments,
    parseElfSegments elf = .ok (entryPoint, segments) → LaidOut elf segments

/-- The record that `spawn_user_process` writes. -/
theorem spawnUserProcess_record (top : Fin MAX_PROCESSES → Nat) {k : Scheduler.Kernel}
    (hfirst : k.table.nextPid ≠ 0)
    (holder : ∀ i, (k.table.processes i).pid < k.table.nextPid) (name : List UInt8)
    (entry stackTop cr3 : Nat) :
    (∃ k', k.spawnUserProcess top name entry stackTop cr3 = (none, k') ∧ k'.table = k.table ∧
      k'.kernelStacks = k.kernelStacks) ∨
    ∃ i k', k.spawnUserProcess top name entry stackTop cr3 = (some k.table.nextPid, k') ∧
      (k.table.processes i).pid = 0 ∧
      k'.table.processes = Function.update k.table.processes i
        { ProcessTable.fresh k.table.nextPid 0 name with
          entryPoint := entry, userRsp := stackTop, cr3 := cr3, state := .ready } ∧
      k'.table.nextPid = (k.table.nextPid + 1) % 2 ^ 32 ∧
      k'.kernelStacks = Function.update k.kernelStacks i ⟨top i - 56, true⟩ := by
  rw [Scheduler.Kernel.spawnUserProcess]
  rcases k.table.alloc_cases 0 name with ⟨-, he⟩ | ⟨i, hi, he⟩
  · rw [he]
    exact Or.inl ⟨_, rfl, rfl, rfl⟩
  · rw [he]
    simp only [if_neg hfirst]
    have hslot : (k.table.fill i 0 name).slotOf k.table.nextPid = some i := by
      refine position_eq_some_of_unique (by simp) fun j hj => ?_
      by_contra hne
      rw [k.table.fill_ne hne, beq_iff_eq] at hj
      exact (holder j).ne hj
    refine Or.inr ⟨i, _, rfl, ProcessTable.slotOf_pid hi, ?_, rfl, ?_⟩
    · funext j
      by_cases hj : j = i
      · subst hj
        simp only [Scheduler.Kernel.initProcessStack, ProcessTable.modify_processes, if_pos hslot,
          ProcessTable.fill_self, Function.update_self]
      · have hno : ¬ (k.table.fill i 0 name).slotOf k.table.nextPid = some j := fun h =>
          hj (Option.some.inj (hslot.symm.trans h)).symm
        simp only [Scheduler.Kernel.initProcessStack, ProcessTable.modify_processes, if_neg hno,
          k.table.fill_ne hj, Function.update_of_ne hj]
    · rw [ProcessTable.slotOf_modify (by intro _; rfl), hslot]
      rfl

/-- A process that is ready stays so while frames are taken. -/
theorem Runs.within {w' : World} (h : Runs top w i elf name)
    (hsettled : Settled w.phys (w.kernel.table.processes i).cr3)
    (hframe : ∀ f ∈ w.phys.free, IsFrame f) (hw : Within w.phys w'.phys)
    (hrecord : w'.kernel.table.processes i = w.kernel.table.processes i)
    (hstack : w'.kernel.kernelStacks i = w.kernel.kernelStacks i) :
    Runs top w' i elf name ∧ Settled w'.phys (w'.kernel.table.processes i).cr3 := by
  rw [hrecord]
  refine ⟨⟨hrecord ▸ h.live, hrecord ▸ h.state, hrecord ▸ h.parent, hrecord ▸ h.named, hrecord ▸ h.stack,
    hstack.trans h.kernelStack, ?_⟩, hsettled.within hframe hw⟩
  obtain ⟨segments, hparse, himage⟩ := h.image
  refine ⟨segments, hrecord ▸ hparse, fun seg hseg k hk => ?_⟩
  rw [hrecord, hsettled.userByte_within hframe hw]
  exact himage seg hseg k hk

/-- Frames were taken, and no process was made. -/
theorem Started.within {Old : Process → Prop} {programs : List (List UInt8 × List UInt8)}
    {w' : World} (h : Started top Old programs n w) (hw : Within w.phys w'.phys)
    (htable : w'.kernel.table = w.kernel.table) (hcr3 : w'.cr3 = w.cr3)
    (hstacks : w'.kernel.kernelStacks = w.kernel.kernelStacks) : Started top Old programs n w' where
  active := hcr3 ▸ h.active.within hw
  first := htable ▸ h.first
  ids := htable ▸ h.ids
  older := htable ▸ h.older
  slots := fun i hi => by
    rw [htable] at hi ⊢
    refine (h.slots i hi).imp_right fun ⟨x, hx, hruns, hsettled⟩ => ⟨x, hx, ?_⟩
    exact htable ▸ hruns.within hsettled h.active.freeFrame hw (by rw [htable]) (by rw [hstacks])

theorem Started.mono {Old : Process → Prop} {programs programs' : List (List UInt8 × List UInt8)}
    {m : Nat} (h : Started top Old programs m w) (hsub : programs ⊆ programs') (hn : n ≤ m) :
    Started top Old programs' n w :=
  { h with
    ids := (Nat.add_le_add_left hn _).trans_lt h.ids
    slots := fun i hi => (h.slots i hi).imp_right fun ⟨x, hx, hr⟩ => ⟨x, hsub hx, hr⟩ }

/-- What a load that succeeds leaves, for the record of the process. -/
theorem exec_load_ok (hmap : FollowsWalk mapTo) {cr3 pml4 entryPoint stackTop : Nat} {p0 p : Phys}
    (h : Active cr3 p0) (helf : WellLaid elf)
    (hok : exec (loadElfIntoNewSpace mapTo cr3 elf) p0 = (.ok (pml4, entryPoint, stackTop), p)) :
    Built p0 p pml4 ∧ stackTop = USER_STACK_TOP ∧ ∃ segments,
      parseElfSegments elf = .ok (entryPoint, segments) ∧ ∀ seg ∈ segments, ∀ k < seg.memsz,
        userByte p.mem pml4 (seg.vaddr + k) =
          some (if k < seg.filesz then elf.getD (seg.offset + k) 0 else 0) := by
  have hload : Loadable cr3 p0 := .of_unshared h.freeFrame h.freeNodup h.frame h.taken h.stack
  have hbuilt := (loadElfIntoNewSpace_built hmap h fun e s hes => (helf.2 e s hes).user).ok rfl hok
  obtain ⟨segments, q, hparse, hstack, -⟩ := (loadElfIntoNewSpace_spec hmap hload fun e s hes =>
    (helf.2 e s hes).user.placed).ok rfl hok
  refine ⟨hbuilt, hstack, segments, hparse, fun seg hseg k hk => ?_⟩
  exact userByte_of_load hmap h helf.1 hparse (helf.2 _ _ hparse) hok hseg hk

/-- One more call of `spawn_user_process`.  When it succeeds, the new process is ready; the
others stay as they are. -/
theorem Started.spawn (hmap : FollowsWalk mapTo) {Old : Process → Prop}
    {programs : List (List UInt8 × List UInt8)} (h : Started top Old programs (n + 1) w)
    (helf : WellLaid elf) (name : List UInt8) :
    Started top Old (programs ++ [(elf, name)]) n (w.spawn mapTo top elf name) ∧
      (∀ pid, (spawnUserProcess mapTo w.cr3 top elf name w.phys w.kernel).1 = .ok pid →
        ∃ i, Runs top (w.spawn mapTo top elf name) i elf name) ∧
      ∀ j, (w.kernel.table.processes j).pid ≠ 0 →
        (w.spawn mapTo top elf name).kernel.table.processes j = w.kernel.table.processes j := by
  have hsub := List.subset_append_left programs [(elf, name)]
  rw [World.spawn, spawnUserProcess]
  rcases hx : exec (loadElfIntoNewSpace mapTo w.cr3 elf) w.phys with ⟨r, p⟩
  cases r with
  | error e =>
    have hw := (loadElfIntoNewSpace_built hmap h.active fun e s hes =>
      (helf.2 e s hes).user).error rfl hx
    have hstep : Started top Old programs (n + 1) ⟨p, w.kernel, w.cr3⟩ := h.within hw rfl rfl rfl
    exact ⟨hstep.mono hsub (Nat.le_succ n), nofun, fun _ _ => rfl⟩
  | ok r =>
    obtain ⟨pml4, entryPoint, stackTop⟩ := r
    obtain ⟨hbuilt, rfl, segments, hparse, himage⟩ := exec_load_ok hmap h.active helf hx
    rcases spawnUserProcess_record top h.first h.older name entryPoint USER_STACK_TOP pml4 with
      ⟨k, hk, htable, hstacks⟩ | ⟨i, k, hk, hfree, hrecords, hnext, hstacks⟩
    · simp only [hk]
      have hstep : Started top Old programs (n + 1) ⟨p, k, w.cr3⟩ :=
        h.within hbuilt.within htable rfl hstacks
      exact ⟨hstep.mono hsub (Nat.le_succ n), nofun, fun _ _ => by rw [htable]⟩
    · simp only [hk]
      have hids := h.ids
      have hnext' : k.table.nextPid = w.kernel.table.nextPid + 1 := by
        rw [hnext, Nat.mod_eq_of_lt (by omega)]
      have hself := congrFun hrecords i
      rw [Function.update_self] at hself
      have hpid : (k.table.processes i).pid = w.kernel.table.nextPid := by rw [hself]; rfl
      have hruns : Runs top ⟨p, k, w.cr3⟩ i elf name :=
        { live := hpid ▸ h.first
          state := by rw [hself]
          parent := by rw [hself]; rfl
          named := by rw [hself]; rfl
          stack := by rw [hself]
          kernelStack := by rw [hstacks, Function.update_self]
          image := ⟨segments, by rw [hself]; exact hparse, by rw [hself]; exact himage⟩ }
      have hsettled : Settled p (k.table.processes i).cr3 := by
        rw [hself]
        exact ⟨hbuilt.space, fun f hf => (hbuilt.taken f hf).2⟩
      have hother : ∀ j, j ≠ i → k.table.processes j = w.kernel.table.processes j := fun j hj =>
        (congrFun hrecords j).trans (Function.update_of_ne hj _ _)
      refine ⟨⟨h.active.within hbuilt.within, ?_, ?_, fun j => ?_, fun j hj => ?_⟩,
        fun pid _ => ⟨i, hruns⟩, fun j hj => hother j fun he => hj (he ▸ hfree)⟩
      · exact hnext' ▸ Nat.succ_ne_zero _
      · show k.table.nextPid + n < 2 ^ 32
        omega
      · show (k.table.processes j).pid < k.table.nextPid
        by_cases he : j = i
        · rw [he, hpid]
          omega
        · have := h.older j
          rw [hother j he]
          omega
      · by_cases he : j = i
        · exact Or.inr ⟨_, List.mem_append_right _ List.mem_cons_self, he ▸ hruns, he ▸ hsettled⟩
        · have hrecord := hother j he
          replace hj : (w.kernel.table.processes j).pid ≠ 0 := hrecord ▸ hj
          refine (h.slots j hj).imp (fun ho => hrecord ▸ ho) fun ⟨x, hx, hr, hs⟩ => ?_
          refine ⟨x, hsub hx, hr.within hs h.active.freeFrame hbuilt.within hrecord ?_⟩
          exact (congrFun hstacks j).trans (Function.update_of_ne he _ _)

end Runs

/-! ## A process that has not run -/

section unrun

variable {mapTo : MapTo} {top : Fin MAX_PROCESSES → Nat} {stock : List Nat} {boot window pid : Nat}
  {elf name : List UInt8} {w w' : World}

/-- Behind `spawn_user_process` the new process sees its file. -/
theorem Inv.spawn_sees (hs : Stock stock boot) (hmap : FollowsWalk mapTo) (h : Inv stock boot w)
    (helf : WellLaid elf)
    (hok : (spawnUserProcess mapTo w.cr3 top elf name w.phys w.kernel).1 = .ok pid) :
    pid ≠ 0 ∧ ((w.spawn mapTo top elf name).kernel.table.get pid).isSome ∧
      ∃ entryPoint segments, parseElfSegments elf = .ok (entryPoint, segments) ∧
        ∀ seg ∈ segments, ∀ k < seg.memsz,
          memoryOf (w.spawn mapTo top elf name) pid (seg.vaddr + k) =
            some (if k < seg.filesz then elf.getD (seg.offset + k) 0 else 0) := by
  have hfirst := h.newPid.2
  have holder : ∀ i, (w.kernel.table.processes i).pid < w.kernel.table.nextPid := fun i => by
    obtain ⟨lost, -, hr, -⟩ := h
    by_cases hi : (w.kernel.table.processes i).pid = 0
    · omega
    · exact (hr.older i hi).1
  rw [World.spawn]
  rw [spawnUserProcess] at hok ⊢
  rcases hx : exec (loadElfIntoNewSpace mapTo w.cr3 elf) w.phys with ⟨r, p⟩
  rw [hx] at hok
  cases r with
  | error e => cases hok
  | ok r =>
    obtain ⟨pml4, entryPoint, stackTop⟩ := r
    obtain ⟨-, -, segments, hparse, himage⟩ := exec_load_ok hmap (h.active hs) helf hx
    rcases spawnUserProcess_record top hfirst holder name entryPoint stackTop pml4 with
      ⟨k, hk, -, -⟩ | ⟨i, k, hk, hfree, hrecords, -, -⟩
    · simp only [hk] at hok
      cases hok
    · simp only [hk] at hok ⊢
      obtain rfl : w.kernel.table.nextPid = pid := Except.ok.inj hok
      have hself := congrFun hrecords i
      rw [Function.update_self] at hself
      have hslot : k.table.slotOf w.kernel.table.nextPid = some i := by
        refine position_eq_some_of_unique (by rw [hself]; exact beq_self_eq_true _) fun j hj => ?_
        by_contra hne
        rw [congrFun hrecords j, Function.update_of_ne hne, beq_iff_eq] at hj
        exact (holder j).ne hj
      have hget : k.table.get w.kernel.table.nextPid = some (k.table.processes i) := by
        rw [ProcessTable.get, hslot]
        rfl
      refine ⟨hfirst, Option.isSome_iff_exists.2 ⟨_, hget⟩, entryPoint, segments, hparse,
        fun seg hseg j hj => ?_⟩
      rw [memoryOf, hget, Option.bind_some, hself]
      exact himage seg hseg j hj

/-- A program of one byte and two zeros, on two pages. -/
def bssElf : List UInt8 := elfFile 0x400fff [bssSegment] [7]

theorem parse_bssElf : parseElfSegments bssElf = .ok (0x400fff, [bssSegment]) := by decide +kernel

theorem bssElf_wellLaid : WellLaid bssElf := by
  refine ⟨by decide +kernel, fun entryPoint segments h => ?_⟩
  cases parse_bssElf.symm.trans h
  refine ⟨fun seg hseg => ?_, List.pairwise_singleton _ _⟩
  rw [List.mem_singleton.1 hseg]
  exact ⟨by decide, by decide +kernel, by decide⟩

end unrun

end AeroOS.Memory
