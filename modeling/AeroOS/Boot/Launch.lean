import AeroOS.Boot.Initramfs
import AeroOS.Memory.Programs
import AeroOS.Fs.Resolution

/-!
# The boot, up to the scheduler

The end of `kernel_main`: `boot_service::launch_system` reserves two processes, and then the
programs are spawned from the disk, or from the memory filesystem when none came from the
disk.

* `spawnFromPath` is `spawn_user_process_from_path`, and `launch` the two attempts.
* `boot` is the boot with a disk: the filesystems are mounted and the programs launched.
* `boot_eq` is the result for the image of the build, and for a disk without a partition.
-/

namespace AeroOS.Boot

open Fs Build Bytes Memory Fat32 Ata

variable (mapTo : MapTo) (top : Fin Proc.MAX_PROCESSES → Nat)

/-! ## The code -/

/-- What `spawn_user_process_from_path` does with the bytes of the file. -/
def spawnFile (elf name : List UInt8) (w : World) : Except String Nat × World :=
  if elf = [] then (.error "ELF file is empty", w)
  else ((spawnUserProcess mapTo w.cr3 top elf name w.phys w.kernel).1, w.spawn mapTo top elf name)

/-- The last component of a path, `rsplit('/').next()`. -/
def baseName (path : Path) : Path := ((path.splitOn slash).getLast?).getD path

/-- `spawn_user_process_from_path`. -/
def spawnFromPath {σ : Type} (v : Vfs σ) (path : Path) (s : σ) (w : World) :
    Except String Nat × σ × World :=
  match v.readAll path s with
  | (.error e, s) => (.error e, s, w)
  | (.ok elf, s) =>
    let r := spawnFile mapTo top elf (baseName path) w
    (r.1, s, r.2)

/-- The attempts to spawn the programs, and whether one has succeeded. -/
def spawnAll {σ : Type} (v : Vfs σ) (paths : List Path) (x : Bool × σ × World) : Bool × σ × World :=
  paths.foldl (fun x path =>
    let r := spawnFromPath mapTo top v path x.2.1 x.2.2
    (x.1 || r.1.isOk, r.2)) x

/-- `b"wm"`. -/
def wmName : List UInt8 := [0x77, 0x6D]

/-- `b"flutter_shell"`. -/
def shellName : List UInt8 :=
  [0x66, 0x6C, 0x75, 0x74, 0x74, 0x65, 0x72, 0x5F, 0x73, 0x68, 0x65, 0x6C, 0x6C]

/-- `launch_system`. -/
def launchSystem (w : World) : World :=
  let t := (w.kernel.table.alloc 0 wmName).2
  { w with kernel := { w.kernel with table := (t.alloc 0 shellName).2 } }

/-- The programs that the boot spawns. -/
def programs : List File := [.hello, .sysutils]

/-- The end of `kernel_main`: from the disk if there is one, else or when that fails from
`/bin`. -/
def launch {σ : Type} (v : Vfs σ) (diskPresent : Bool) (s : σ) (w : World) : Bool × σ × World :=
  let x := if diskPresent then spawnAll mapTo top v (programs.map File.path) (false, s, w)
    else (false, s, w)
  if x.1 then x else spawnAll mapTo top v (programs.map binPath) x

/-- The disk under the devices, when it has no volume. -/
def bareDiskOf (totalSectors : Nat) : DiskIn (Disk × Tmpfs) where
  get s := s.1
  put d s := (d, s.2)
  totalSectors _ := totalSectors

/-- The mount table when `fat32::init` has found nothing. -/
def bareTable (totalSectors : Nat) : Vfs (Devices × Disk × Tmpfs) :=
  ((⟨[]⟩ : Vfs (Devices × Disk × Tmpfs)).mount [slash] 1 Tmpfs.rootOps).mount devPoint 1
    (Devfs.ops (bareDiskOf totalSectors))

/-- The boot: the filesystems, then `launch_system`, then the programs. -/
def boot (upper : List UInt8 → List UInt8) (totalSectors : Nat) (c : Contents) (devices : Devices)
    (d : Disk) (w : World) : Bool × World :=
  match init d with
  | some (_, fat) =>
    let x := launch mapTo top (Vfs.bootTable upper totalSectors) d.present
      (devices, fat, populated c) (launchSystem w)
    (x.1, x.2.2)
  | none =>
    let x := launch mapTo top (bareTable totalSectors) d.present (devices, d, populated c)
      (launchSystem w)
    (x.1, x.2.2)

/-! ## What the programs are read from -/

section sources

variable {mapTo top} {σ : Type} {v : Vfs σ} {c : Contents} {fs : List File} {l : Bool} {s : σ}
  {w : World}

/-- The calls of `spawn_user_process` for the bytes of the files. -/
def spawnPrograms (mapTo : MapTo) (top : Fin Proc.MAX_PROCESSES → Nat) (c : Contents)
    (fs : List File) (x : Bool × World) : Bool × World :=
  fs.foldl (fun x f =>
    let r := spawnFile mapTo top (f.contents c) f.name x.2
    (x.1 || r.1.isOk, r.2)) x

theorem spawnPrograms_congr {c' : Contents} (h : ∀ f ∈ fs, f.contents c' = f.contents c)
    (x : Bool × World) : spawnPrograms mapTo top c' fs x = spawnPrograms mapTo top c fs x :=
  List.foldl_ext _ _ _ fun _ f hf => by rw [h f hf]

variable (mapTo top fs l w) in
/-- Paths that read as the files. -/
theorem spawnAll_eq {I : σ → Prop} {pathOf : File → Path} (hname : ∀ f, baseName (pathOf f) = f.name)
    (hread : ∀ f ∈ fs, ∀ s, I s → ∃ s', v.readAll (pathOf f) s = (.ok (f.contents c), s') ∧ I s')
    (hs : I s) : ∃ s', I s' ∧ spawnAll mapTo top v (fs.map pathOf) (l, s, w) =
      ((spawnPrograms mapTo top c fs (l, w)).1, s', (spawnPrograms mapTo top c fs (l, w)).2) := by
  induction fs generalizing l s w with
  | nil => exact ⟨s, hs, rfl⟩
  | cons f fs ih =>
    obtain ⟨s₁, hread₁, hs₁⟩ := hread f List.mem_cons_self s hs
    have hspawn : spawnFromPath mapTo top v (pathOf f) s w =
        ((spawnFile mapTo top (f.contents c) f.name w).1, s₁,
          (spawnFile mapTo top (f.contents c) f.name w).2) := by
      rw [spawnFromPath, hread₁]
      simp only [hname]
    obtain ⟨s', hs', heq⟩ := ih (l || (spawnFile mapTo top (f.contents c) f.name w).1.isOk)
      (spawnFile mapTo top (f.contents c) f.name w).2
      (fun g hg => hread g (List.mem_cons_of_mem f hg)) hs₁
    refine ⟨s', hs', ?_⟩
    rw [List.map_cons, spawnAll, List.foldl_cons, hspawn]
    exact heq

/-- Paths that cannot be read. -/
theorem spawnAll_error {paths : List Path}
    (hread : ∀ path ∈ paths, ∃ e, v.readAll path s = (.error e, s)) :
    spawnAll mapTo top v paths (l, s, w) = (l, s, w) := by
  induction paths with
  | nil => rfl
  | cons path paths ih =>
    obtain ⟨e, he⟩ := hread path List.mem_cons_self
    have hspawn : spawnFromPath mapTo top v path s w = (.error e, s, w) := by
      rw [spawnFromPath, he]
    rw [spawnAll, List.foldl_cons, hspawn]
    simp only [Except.isOk, Except.toBool, Bool.or_false]
    exact ih fun path hp => hread path (List.mem_cons_of_mem _ hp)

theorem mem_programs {f : File} : f ∈ programs ↔ f = .hello ∨ f = .sysutils := by
  simp [programs]

theorem baseName_path (f : File) : baseName f.path = f.name := by cases f <;> decide

theorem baseName_binPath (f : File) : baseName (binPath f) = f.name := by cases f <;> decide

section mounted

variable {upper : List UInt8 → List UInt8} {totalSectors : Nat} {p : Partition} {d : Disk}

variable (upper totalSectors) in
theorem bootTable_disk : (Vfs.bootTable upper totalSectors).mounts[0]? =
    some ⟨diskPoint, 1, (besideOps (fileOps upper)).onRest⟩ := rfl

variable (upper totalSectors) in
theorem bootTable_root :
    (Vfs.bootTable upper totalSectors).mounts[2]? = some Tmpfs.rootMount := rfl

variable (totalSectors) in
theorem bareTable_root : (bareTable totalSectors).mounts[1]? = some Tmpfs.rootMount := rfl

theorem target_path (f : File) :
    (Vfs.bootTable upper totalSectors).target f.path = some (0, [f.name]) := by
  cases f <;> rfl

variable (upper totalSectors) in
theorem target_binPath (f : File) :
    (Vfs.bootTable upper totalSectors).target (binPath f) = some (2, [binName, f.name]) := by
  cases f <;> rfl

theorem bareTarget_path (f : File) :
    (bareTable totalSectors).target f.path = some (1, [diskName, f.name]) := by
  cases f <;> rfl

theorem bareTarget_binPath (f : File) :
    (bareTable totalSectors).target (binPath f) = some (1, [binName, f.name]) := by
  cases f <;> rfl

variable (totalSectors) in
/-- A program below `/disk`, on a disk that holds the image. -/
theorem readAll_disk (hc : c.Fits) (hd : OnDisk c p d) (hup : UpperAscii upper) (f : File)
    {fat : Fat32} (hs : Serving c p d fat) (devices : Devices) (ram : Tmpfs) :
    ∃ fat', (Vfs.bootTable upper totalSectors).readAll f.path (devices, fat, ram) =
      (.ok (f.contents c), devices, fat', ram) ∧ Serving c p d fat' := by
  obtain ⟨id, fat', hlook, hs', hid⟩ := hs.lookup_image hc hd hup f
  refine ⟨fat', ?_, hs'⟩
  let ops : FileOps (Devices × Fat32 × Tmpfs) := (besideOps (fileOps upper)).onRest
  have hdir : ops.fileType (devices, fat, ram) 1 = .directory := by
    simp only [ops, FileOps.onRest, besideOps, fileOps, hs.root]
    rfl
  have hfound : ops.lookup (devices, fat, ram) 1 f.name = (.ok id, devices, fat', ram) := by
    show ((fat.lookup upper 1 f.name).1, devices, (fat.lookup upper 1 f.name).2, ram) = _
    rw [hlook]
  have hwalk : Vfs.walk ops [f.name] 1 (devices, fat, ram) = (.ok id, devices, fat', ram) := by
    rw [Vfs.walk, if_neg (not_not_intro hdir), hfound]
    rfl
  have hresolve : (Vfs.bootTable upper totalSectors).resolve f.path (devices, fat, ram) =
      (.ok (0, id), devices, fat', ram) := by
    rw [Vfs.resolve_of_target (target_path f) (bootTable_disk upper totalSectors), hwalk]
    rfl
  have htype : ops.fileType (devices, fat', ram) id = .regular := by
    simp only [ops, FileOps.onRest, besideOps, fileOps, hid]
    rfl
  have hsize : ops.size (devices, fat', ram) id = (f.contents c).length := by
    simp only [ops, FileOps.onRest, besideOps, fileOps, Fat32.size, hid]
    rfl
  refine readAll_of_read (bootTable_disk upper totalSectors) hresolve htype hsize fun hpos => ?_
  simp only [FileOps.onRest, besideOps, fileOps, hs'.read_image hc hd hid hpos]

/-- A program below `/bin`. -/
theorem readAll_bin {ρ : Type} {v : Vfs (Devices × ρ × Tmpfs)} {k : Nat} {f : File}
    (hm : v.mounts[k]? = some Tmpfs.rootMount)
    (ht : v.target (binPath f) = some (k, [binName, f.name])) (hf : f ∈ programs)
    (devices : Devices) (rest : ρ) : v.readAll (binPath f) (devices, rest, populated c) =
      (.ok (f.contents c), devices, rest, populated c) := by
  obtain ⟨hready, hview⟩ := populated_view c
  refine readAll_view hm ht hready ?_ devices rest
  rw [hview]
  rcases mem_programs.1 hf with rfl | rfl <;> rfl

/-- A path below `/disk`, when nothing is mounted there. -/
theorem readAll_no_disk (f : File) (devices : Devices) (rest : Disk) :
    ∃ e, (bareTable totalSectors).readAll f.path (devices, rest, populated c) =
      (.error e, devices, rest, populated c) := by
  obtain ⟨hready, hview⟩ := populated_view c
  refine readAll_view_none (bareTable_root totalSectors) (bareTarget_path f) ?_ hready devices rest
  rw [hview]
  cases f <;> rfl

end mounted

end sources

/-! ## Two boots -/

section boots

variable {mapTo top} {upper : List UInt8 → List UInt8} {totalSectors : Nat} {c c' : Contents}
  {p : Partition} {d d' : Disk} {devices devices' : Devices} {w : World}

variable (mapTo top c devices w) in
/-- The programs below `/bin`. -/
theorem spawnAll_bin {ρ : Type} {v : Vfs (Devices × ρ × Tmpfs)} {k : Nat}
    (hm : v.mounts[k]? = some Tmpfs.rootMount)
    (ht : ∀ f, v.target (binPath f) = some (k, [binName, f.name])) (rest : ρ) :
    ∃ s, spawnAll mapTo top v (programs.map binPath) (false, (devices, rest, populated c), w) =
      ((spawnPrograms mapTo top c programs (false, w)).1, s,
        (spawnPrograms mapTo top c programs (false, w)).2) := by
  obtain ⟨s, -, heq⟩ := spawnAll_eq mapTo top programs false w (I := (· = (devices, rest, populated c)))
    baseName_binPath (fun f hf s hs => ⟨s, by rw [hs, readAll_bin hm (ht f) hf], hs⟩) rfl
  exact ⟨s, heq⟩

/-- Without a volume the programs come from memory. -/
theorem boot_bare (hd : init d = none) : boot mapTo top upper totalSectors c devices d w =
    spawnPrograms mapTo top c programs (false, launchSystem w) := by
  have hdisk : spawnAll mapTo top (bareTable totalSectors) (programs.map File.path)
      (false, (devices, d, populated c), launchSystem w) =
      (false, (devices, d, populated c), launchSystem w) := by
    refine spawnAll_error fun path hpath => ?_
    obtain ⟨f, -, rfl⟩ := List.mem_map.1 hpath
    exact readAll_no_disk f devices d
  obtain ⟨s, heq⟩ := spawnAll_bin mapTo top c devices (launchSystem w)
    (bareTable_root totalSectors) bareTarget_binPath d
  rw [boot, hd]
  simp only [launch, hdisk, ite_self, Bool.false_eq_true, if_false, heq]

variable (mapTo top totalSectors c' devices w) in
/-- The programs below `/disk`. -/
theorem spawnAll_disk (hc : c.Fits) (hd : OnDisk c p d) (hup : UpperAscii upper) :
    ∃ fat, spawnAll mapTo top (Vfs.bootTable upper totalSectors) (programs.map File.path)
      (false, (devices, imageMount c p d, populated c'), w) =
        ((spawnPrograms mapTo top c programs (false, w)).1, (devices, fat, populated c'),
          (spawnPrograms mapTo top c programs (false, w)).2) := by
  obtain ⟨_, ⟨fat, rfl, -⟩, heq⟩ := spawnAll_eq mapTo top programs false w (c := c)
    (v := Vfs.bootTable upper totalSectors)
    (I := fun s => ∃ fat, s = (devices, fat, populated c') ∧ Serving c p d fat) baseName_path
    (fun f _ s ⟨fat, hs, hserv⟩ => by
      obtain ⟨fat', hread, hserv'⟩ :=
        readAll_disk totalSectors hc hd hup f hserv devices (populated c')
      exact ⟨_, by rw [hs, hread], fat', rfl, hserv'⟩)
    ⟨_, rfl, serving_imageMount c p d⟩
  exact ⟨fat, heq⟩

/-- With the image of the build they come from the disk.  When neither can be spawned, those
in memory are tried. -/
theorem boot_image (hc : c.Fits) (hd : OnDisk c p d) (hup : UpperAscii upper) :
    boot mapTo top upper totalSectors c' devices d w =
      let x := spawnPrograms mapTo top c programs (false, launchSystem w)
      if x.1 then x else spawnPrograms mapTo top c' programs (false, x.2) := by
  have hinit := init_image hc hd
  have hpresent : d.present = true := (init_eq_some hinit).1
  obtain ⟨fat, hdisk⟩ :=
    spawnAll_disk mapTo top totalSectors c' devices (launchSystem w) hc hd hup
  rw [boot, hinit]
  simp only [launch, hpresent, if_true, hdisk]
  split
  · rfl
  · rename_i hno
    obtain ⟨s, hbin⟩ := spawnAll_bin mapTo top c' devices
      (spawnPrograms mapTo top c programs (false, launchSystem w)).2
      (bootTable_root upper totalSectors) (target_binPath upper totalSectors) fat
    rw [Bool.eq_false_iff.2 hno, hbin]

/-- The image of the build starts the same processes, in the same memory, as the files that
are embedded in the kernel. -/
theorem boot_eq {totalSectors' : Nat} (hc : c.Fits) (hd : OnDisk c p d) (hup : UpperAscii upper)
    (hsame : ∀ f ∈ programs, f.contents c' = f.contents c) (hbare : init d' = none)
    (hlaunched : (boot mapTo top upper totalSectors' c' devices' d' w).1 = true) :
    boot mapTo top upper totalSectors c' devices d w =
      boot mapTo top upper totalSectors' c' devices' d' w := by
  rw [boot_bare hbare, spawnPrograms_congr hsame] at hlaunched ⊢
  rw [boot_image hc hd hup]
  exact if_pos hlaunched

/-- A volume with programs that have no segments. -/
def emptyPrograms : Contents := ⟨emptyElf, [1], emptyElf, [1]⟩

/-- No disk is attached. -/
def detached : Disk := ⟨false, fun _ => 0⟩

/-- Both programs start on a machine with 60 free frames. -/
theorem boot_eq_empty :
    boot walkTo exampleTop (List.map asciiUpper) 64 emptyPrograms ⟨none, .new, ⟨0, 0, 0⟩⟩
        (bareDisk emptyPrograms) exampleBoot =
      boot walkTo exampleTop (List.map asciiUpper) 0 emptyPrograms ⟨none, .new, ⟨0, 0, 0⟩⟩ detached
        exampleBoot := by
  refine boot_eq ⟨by decide +kernel, by decide, by decide, by decide +kernel, by decide +kernel⟩
    (onDisk_bareDisk emptyPrograms) (fun _ _ => rfl) (fun _ _ => rfl) rfl ?_
  rw [boot_bare rfl]
  decide +kernel

end boots

/-! ## The processes after the boot -/

section processes

open Proc

variable {mapTo top} {c : Contents} {fs : List File} {n : Nat} {x : Bool × World}

/-- One of the processes that `launch_system` reserves. -/
def Reserved (q : Process) : Prop :=
  q = ProcessTable.fresh 1 0 wmName ∨ q = ProcessTable.fresh 2 0 shellName

/-- The files of the programs, with the names of the processes. -/
def programFiles (c : Contents) : List (List UInt8 × List UInt8) :=
  programs.map fun f => (f.contents c, f.name)

/-- Some process is ready. -/
def SomeReady (w : World) : Prop :=
  ∃ i, (w.kernel.table.processes i).pid ≠ 0 ∧ (w.kernel.table.processes i).state = .ready

/-- The table behind `launch_system`. -/
def launchTable : ProcessTable := ((ProcessTable.new.alloc 0 wmName).2.alloc 0 shellName).2

theorem launchTable_slots (i : Fin MAX_PROCESSES) :
    (launchTable.processes i).pid < 3 ∧
      ((launchTable.processes i).pid ≠ 0 → Reserved (launchTable.processes i)) := by
  have h0 : ProcessTable.new.slotOf 0 = some 0 := by decide
  have h1 : (ProcessTable.new.fill 0 0 wmName).slotOf 0 = some 1 := by decide
  have htable : launchTable = (ProcessTable.new.fill 0 0 wmName).fill 1 0 shellName := by
    have ha : ProcessTable.new.alloc 0 wmName = (1, ProcessTable.new.fill 0 0 wmName) := by
      rw [ProcessTable.alloc, h0]
      rfl
    rw [launchTable, ha, ProcessTable.alloc, h1]
    rfl
  rw [htable]
  by_cases hi1 : i = 1
  · rw [hi1, ProcessTable.fill_self]
    exact ⟨by decide, fun _ => Or.inr rfl⟩
  · rw [ProcessTable.fill_ne _ hi1]
    by_cases hi0 : i = 0
    · rw [hi0, ProcessTable.fill_self]
      exact ⟨by decide, fun _ => Or.inl rfl⟩
    · rw [ProcessTable.fill_ne _ hi0]
      exact ⟨Nat.zero_lt_succ 2, fun h => absurd rfl h⟩

theorem started_launchSystem {w : World} (hkernel : w.kernel = .boot)
    (hactive : Active w.cr3 w.phys) (l : List (List UInt8 × List UInt8)) :
    Started top Reserved l 4 (launchSystem w) := by
  obtain ⟨p, k, cr3⟩ := w
  obtain rfl : k = .boot := hkernel
  have htable : (launchSystem ⟨p, .boot, cr3⟩).kernel.table = launchTable := rfl
  have hnext : launchTable.nextPid = 3 := by decide
  refine ⟨hactive, ?_, ?_, fun i => ?_, fun i hi => Or.inl ?_⟩
  · rw [htable, hnext]
    decide
  · rw [htable, hnext]
    decide
  · rw [htable, hnext]
    exact (launchTable_slots i).1
  · rw [htable] at hi ⊢
    exact (launchTable_slots i).2 hi

theorem started_spawnFile (hmap : FollowsWalk mapTo) {Old : Process → Prop}
    {l : List (List UInt8 × List UInt8)} {w : World} (h : Started top Old l (n + 1) w)
    {elf name : List UInt8} (hx : (elf, name) ∈ l) (helf : WellLaid elf) :
    Started top Old l n (spawnFile mapTo top elf name w).2 ∧
      ((spawnFile mapTo top elf name w).1.isOk = true →
        ∃ i, Runs top (spawnFile mapTo top elf name w).2 i elf name) ∧
      ∀ j, (w.kernel.table.processes j).pid ≠ 0 →
        (spawnFile mapTo top elf name w).2.kernel.table.processes j = w.kernel.table.processes j := by
  rw [Boot.spawnFile]
  split
  · exact ⟨h.mono (List.Subset.refl l) (Nat.le_succ n), nofun, fun _ _ => rfl⟩
  · obtain ⟨hstarted, hruns, hkept⟩ := h.spawn hmap helf name
    have hsub : l ++ [(elf, name)] ⊆ l := by
      refine List.append_subset.2 ⟨List.Subset.refl l, ?_⟩
      rintro y hy
      exact List.mem_singleton.1 hy ▸ hx
    refine ⟨hstarted.mono hsub (Nat.le_refl n), fun hok => ?_, hkept⟩
    cases hr : (spawnUserProcess mapTo w.cr3 top elf name w.phys w.kernel).1 with
    | error e => rw [hr] at hok; cases hok
    | ok pid => exact hruns pid hr

/-- Behind the calls for the programs there is a process that is ready, when one of the
calls has succeeded. -/
theorem spawnPrograms_started (hmap : FollowsWalk mapTo) (hfs : fs ⊆ programs)
    (helf : ∀ f ∈ fs, WellLaid (f.contents c))
    (h : Started top Reserved (programFiles c) (n + fs.length) x.2)
    (hready : x.1 = true → SomeReady x.2) :
    Started top Reserved (programFiles c) n (spawnPrograms mapTo top c fs x).2 ∧
      ((spawnPrograms mapTo top c fs x).1 = true → SomeReady (spawnPrograms mapTo top c fs x).2) := by
  induction fs generalizing x with
  | nil => exact ⟨h, hready⟩
  | cons f fs ih =>
    have hf : (f.contents c, f.name) ∈ programFiles c :=
      List.mem_map_of_mem (hfs List.mem_cons_self)
    obtain ⟨hstarted, hruns, hkept⟩ :=
      started_spawnFile hmap h hf (helf f List.mem_cons_self)
    refine ih (fun g hg => hfs (List.mem_cons_of_mem f hg))
      (fun g hg => helf g (List.mem_cons_of_mem f hg)) hstarted fun hor => ?_
    rcases Bool.or_eq_true_iff.1 hor with hbefore | hok
    · obtain ⟨i, hpid, hstate⟩ := hready hbefore
      exact ⟨i, by rw [hkept i hpid]; exact hpid, by rw [hkept i hpid]; exact hstate⟩
    · obtain ⟨i, hi⟩ := hruns hok
      exact ⟨i, hi.live, hi.state⟩

/-- The disk has the image of the build with the programs, or no volume. -/
def Bootable (c : Contents) (d : Disk) : Prop :=
  init d = none ∨ ∃ c' p, c'.Fits ∧ OnDisk c' p d ∧ ∀ f ∈ programs, f.contents c = f.contents c'

/-- The image of the build with that program twice. -/
def bssPrograms : Contents := ⟨bssElf, [1], bssElf, [1]⟩

end processes

end AeroOS.Boot
