import AeroOS.Build.ReadBack
import AeroOS.Fs.PathMap
import AeroOS.Fs.WholeFiles

/-!
# The initial filesystem

`fs/initramfs.rs` and the helpers at the end of `fs/tmpfs.rs`: the boot puts the programs
into the memory filesystem before anything else is mounted.

* `createFileWithData_refines`: on the map of paths it adds one file.
* `populated` is the filesystem after `initramfs::init`, and `populated_view` its map.
* `readAll_view`: `read_all` of a path gives the file that the map names, behind any mount
  table that has the filesystem at `/`.
-/

namespace AeroOS.Fs.Vfs

variable {σ : Type} (v : Vfs σ)

/-- What `create_file_with_data` and `mkdir` begin with: a new inode in the parent of the
path. -/
def makeAt (make : FileOps σ → σ → Nat → Path → Except String Nat × σ) (path : Path) (s : σ) :
    Except String (Mount σ × Nat) × σ :=
  match v.findMount path with
  | none => (.error "no mount", s)
  | some (idx, _) =>
    match v.mounts[idx]? with
    | none => (.error "no mount", s)
    | some m =>
      match v.resolve (splitParentName path).1 s with
      | (.error e, s) => (.error e, s)
      | (.ok (_, parent), s) =>
        match make m.ops s parent (splitParentName path).2 with
        | (.error e, s) => (.error e, s)
        | (.ok inode, s) => (.ok (m, inode), s)

/-- `create_file_with_data`. -/
def createFileWithData (path : Path) (data : List UInt8) (s : σ) : Except String Unit × σ :=
  match v.makeAt (·.create) path s with
  | (.error e, s) => (.error e, s)
  | (.ok (m, inode), s) =>
    match m.ops.write s inode 0 data with
    | (.error e, s) => (.error e, s)
    | (.ok _, s) => (.ok (), s)

/-- `tmpfs::mkdir`. -/
def makeDirectory (path : Path) (s : σ) : Except String Unit × σ :=
  match v.makeAt (·.mkdir) path s with
  | (.error e, s) => (.error e, s)
  | (.ok _, s) => (.ok (), s)

end AeroOS.Fs.Vfs

namespace AeroOS.Boot

open Fs Build Bytes

/-- Steps up to the first one that fails. -/
def untilError {σ : Type} : List (σ → Except String Unit × σ) → σ → σ
  | [], s => s
  | step :: steps, s =>
    match step s with
    | (.error _, s) => s
    | (.ok (), s) => untilError steps s

/-- `/bin`. -/
def binPoint : Path := [0x2F, 0x62, 0x69, 0x6E]

/-- `/README`. -/
def readmePath : Path := [0x2F, 0x52, 0x45, 0x41, 0x44, 0x4D, 0x45]

/-- The path of a program in memory. -/
def binPath (f : File) : Path := binPoint ++ slash :: f.name

/-- The mount table when only `tmpfs::init` has run. -/
def ramVfs : Vfs Tmpfs := (⟨[]⟩ : Vfs Tmpfs).mount [slash] Tmpfs.rootInode Tmpfs.ops

/-- `initramfs::init`, with what is embedded in the kernel. -/
def initramfs (c : Contents) : Tmpfs → Tmpfs :=
  untilError
    [ramVfs.makeDirectory binPoint,
      ramVfs.createFileWithData (binPath .hello) c.hello,
      ramVfs.createFileWithData (binPath .forktest) c.forktest,
      ramVfs.createFileWithData (binPath .sysutils) c.sysutils,
      ramVfs.createFileWithData readmePath c.readme]

/-- The filesystem after the boot. -/
def populated (c : Contents) : Tmpfs := initramfs c Tmpfs.new

/-! ## New files and directories -/

section make

open Labelled Tmpfs

variable {s : Tmpfs} {path name : Path} {dir : List Path} {n : Nat}

theorem walk_ops_state (cs : List Path) (d : Nat) (s : Tmpfs) : (Vfs.walk ops cs d s).2 = s := by
  induction cs generalizing d with
  | nil => rfl
  | cons c cs ih =>
    have hlookup : ops.lookup s d c = (s.lookup d c, s) := rfl
    rw [Vfs.walk, hlookup]
    split
    · rfl
    · cases s.lookup d c with
      | error e => rfl
      | ok x => exact ih x

/-- The parent of the path, and the last name. -/
def Splits (path : Path) (dir : List Path) (name : Path) : Prop :=
  (ramVfs.findMount path).map (·.1) = some 0 ∧
    ramVfs.target (Vfs.splitParentName path).1 = some (0, dir) ∧
    (Vfs.splitParentName path).2 = name

/-- The new inode is in the parent. -/
theorem makeAt_link (make : FileOps Tmpfs → Tmpfs → Nat → Path → Except String Nat × Tmpfs)
    {fileType : FileType} {taken : String}
    (hmake : ∀ d, make ops s d name = addInode fileType taken s d name)
    (hpath : Splits path dir name) (h : Ready s n) (hdir : s.view dir = some .directory)
    (hfree : s.view (dir ++ [name]) = none) :
    ∃ d, Follows s.Enters rootInode dir d ∧ s.CanAdd d name ∧ ramVfs.makeAt make path s =
      (.ok (⟨[slash], rootInode, ops⟩, s.nextInode), s.link fileType d name) := by
  obtain ⟨hmount, htarget, hname⟩ := hpath
  obtain ⟨d, hd⟩ : ∃ d, Follows s.Enters rootInode dir d := by
    by_contra hno
    rw [view_of_not_follows fun x hx => hno ⟨x, hx⟩] at hdir
    cases hdir
  have hcan : s.CanAdd d name := (h.inv.canAdd_iff hd).2 ⟨hdir, hfree⟩
  refine ⟨d, hd, hcan, ?_⟩
  obtain ⟨r, hr, hr0⟩ := Option.map_eq_some_iff.1 hmount
  have hresolve : ramVfs.resolve (Vfs.splitParentName path).1 s = (.ok (0, d), s) := by
    rw [Vfs.resolve_of_target htarget rfl]
    refine Prod.ext ?_ (walk_ops_state dir rootInode s)
    exact congrArg (Except.map fun inode => (0, inode)) (find_ok_iff.2 hd)
  have hadd : addInode fileType taken s d name = (.ok s.nextInode, s.link fileType d name) :=
    ((addInode_cases s fileType taken d name).resolve_left fun hno => hno.1 hcan).2
  obtain ⟨i, rel⟩ := r
  obtain rfl : i = 0 := hr0
  have hm : ramVfs.mounts[0]? = some ⟨[slash], rootInode, ops⟩ := rfl
  rw [Vfs.makeAt, hr]
  simp only [hm, hresolve, hname, hmake, hadd]

theorem makeDirectory_refines (hpath : Splits path dir name) (h : Ready s (n + 1))
    (hdir : s.view dir = some .directory) (hfree : s.view (dir ++ [name]) = none) :
    ∃ s', ramVfs.makeDirectory path s = (.ok (), s') ∧ Ready s' n ∧
      s'.view = Function.update s.view (dir ++ [name]) (some .directory) := by
  obtain ⟨d, hd, hcan, hmake⟩ := makeAt_link (·.mkdir) (fun _ => rfl) hpath h hdir hfree
  have hexec : s.exec (.mkdir d name) = s.link .directory d name :=
    congrArg Prod.snd ((addInode_cases s _ _ d name).resolve_left fun hno => hno.1 hcan).2
  refine ⟨_, ?_, hexec ▸ h.exec _, h.inv.view_link hd hcan .directory⟩
  rw [Vfs.makeDirectory, hmake]

theorem overlay_nil (data : List UInt8) : overlay [] 0 data = data := by
  refine (eq_tabulate ?_ fun k hk => ?_).symm
  · rw [List.length_nil, Nat.zero_add, Nat.zero_max]
  · rw [List.length_nil, Nat.zero_add, Nat.zero_max] at hk
    rw [if_pos ⟨Nat.zero_le k, by omega⟩, Nat.sub_zero]

/-- The file is made, and then written. -/
theorem createFileWithData_refines (data : List UInt8) (hpath : Splits path dir name)
    (h : Ready s (n + 2)) (hdir : s.view dir = some .directory)
    (hfree : s.view (dir ++ [name]) = none) :
    ∃ s', ramVfs.createFileWithData path data s = (.ok (), s') ∧ Ready s' n ∧
      s'.view = Function.update s.view (dir ++ [name]) (some (.file data)) := by
  obtain ⟨d, hd, hcan, hmake⟩ := makeAt_link (·.create) (fun _ => rfl) hpath h hdir hfree
  have hexec : s.exec (.create d name) = s.link .regular d name :=
    congrArg Prod.snd ((addInode_cases s _ _ d name).resolve_left fun hno => hno.1 hcan).2
  have hlinked : Ready (s.link .regular d name) (n + 1) := hexec ▸ h.exec _
  have hne : d ≠ s.nextInode := fun he => h.inv.nextInode_not_mem (he ▸ h.inv.follows_mem hd)
  have hfile : (s.link .regular d name).inodes[s.nextInode]? = some (emptyInode .regular) :=
    s.link_getElem? hne .regular
  have hfound : Follows (s.link .regular d name).Enters rootInode (dir ++ [name]) s.nextInode :=
    (h.inv.addsLeaf hcan .regular).follows_iff.2 (Or.inr ⟨dir, rfl, hd, rfl⟩)
  have hwrite := write_regular hfile rfl 0 data
  refine ⟨_, ?_, hlinked.exec (.write s.nextInode 0 data), ?_⟩
  · rw [Vfs.createFileWithData, hmake]
    simp only [ops, hwrite, exec]
  · rw [exec, hwrite, hlinked.inv.view_setData hfound hfile rfl, h.inv.view_link hd hcan .regular,
      Function.update_idem]
    refine congrArg (fun node => Function.update s.view (dir ++ [name]) (some (.file node))) ?_
    exact overlay_nil data

end make

/-! ## The filesystem after the boot -/

open Tmpfs

/-- `bin`. -/
def binName : Path := [0x62, 0x69, 0x6E]

theorem untilError_ok {σ : Type} {step : σ → Except String Unit × σ}
    {steps : List (σ → Except String Unit × σ)} {s s' : σ} (h : step s = (.ok (), s')) :
    untilError (step :: steps) s = untilError steps s' := by
  rw [untilError, h]

/-- `README`. -/
def readmeName : Path := [0x52, 0x45, 0x41, 0x44, 0x4D, 0x45]

theorem splits_binPoint : Splits binPoint [] binName := ⟨by decide, by decide, rfl⟩

theorem splits_binPath (f : File) : Splits (binPath f) [binName] f.name := by
  cases f <;> exact ⟨by decide, by decide, by decide⟩

theorem splits_readmePath : Splits readmePath [] readmeName := ⟨by decide, by decide, rfl⟩

/-- The map of the filesystem after the boot. -/
def initialMap (c : Contents) : PathMap :=
  Function.update (Function.update (Function.update (Function.update (Function.update PathMap.empty
    [binName] (some .directory))
    [binName, File.hello.name] (some (.file c.hello)))
    [binName, File.forktest.name] (some (.file c.forktest)))
    [binName, File.sysutils.name] (some (.file c.sysutils)))
    [readmeName] (some (.file c.readme))

/-- No step of `initramfs::init` fails. -/
theorem populated_view (c : Contents) : Ready (populated c) 0 ∧ (populated c).view = initialMap c := by
  have h0 : Ready Tmpfs.new 9 := new_ready (by decide)
  obtain ⟨s1, e1, h1, v1⟩ := makeDirectory_refines splits_binPoint h0 (by rw [new_view]; rfl)
    (by rw [new_view]; rfl)
  rw [new_view] at v1
  obtain ⟨s2, e2, h2, v2⟩ := createFileWithData_refines c.hello (splits_binPath .hello) h1
    (by rw [v1]; rfl) (by rw [v1]; rfl)
  rw [v1] at v2
  obtain ⟨s3, e3, h3, v3⟩ := createFileWithData_refines c.forktest (splits_binPath .forktest) h2
    (by rw [v2]; rfl) (by rw [v2]; rfl)
  rw [v2] at v3
  obtain ⟨s4, e4, h4, v4⟩ := createFileWithData_refines c.sysutils (splits_binPath .sysutils) h3
    (by rw [v3]; rfl) (by rw [v3]; rfl)
  rw [v3] at v4
  obtain ⟨s5, e5, h5, v5⟩ := createFileWithData_refines c.readme splits_readmePath h4
    (by rw [v4]; rfl) (by rw [v4]; rfl)
  have hpop : populated c = s5 := by
    rw [populated, initramfs, untilError_ok e1, untilError_ok e2, untilError_ok e3, untilError_ok e4,
      untilError_ok e5, untilError]
  rw [hpop]
  exact ⟨h5, v5.trans (by rw [v4]; rfl)⟩

/-! ## Reading a program -/

variable {ρ : Type}

theorem slice_all (data : List UInt8) : slice data 0 data.length = data := by
  refine (eq_tabulate ?_ fun k _ => ?_).symm
  · rw [Nat.sub_zero, Nat.min_self]
  · rw [Nat.zero_add]

/-- A file that one call of `read` returns whole. -/
theorem readAll_of_read {σ : Type} {v : Vfs σ} {m : Mount σ} {path : Path} {k id : Nat} {s s' : σ}
    {bytes : List UInt8} (hm : v.mounts[k]? = some m)
    (hresolve : v.resolve path s = (.ok (k, id), s')) (htype : m.ops.fileType s' id = .regular)
    (hsize : m.ops.size s' id = bytes.length)
    (hread : 0 < bytes.length → m.ops.read s' id 0 (List.replicate bytes.length 0) =
      (.ok (bytes.length, bytes), s')) : v.readAll path s = (.ok bytes, s') := by
  have hopen : v.openPath path false s = (.ok ⟨id, k, 0, .regular⟩, s') := by
    rw [Vfs.openPath, hresolve]
    simp only [Vfs.fileAt, hm, htype]
  have hlen : v.size ⟨id, k, 0, .regular⟩ s' = bytes.length := by
    rw [Vfs.size, hm]
    exact hsize
  rw [Vfs.readAll, hopen]
  simp only [hlen]
  by_cases h0 : bytes.length = 0
  · rw [h0, Vfs.readAllLoop_zero, List.eq_nil_of_length_eq_zero h0]
  · refine v.readAllLoop_of_read ⟨id, k, bytes.length, .regular⟩ (Nat.pos_of_ne_zero h0) rfl ?_
    simp only [Vfs.read, hm, hread (Nat.pos_of_ne_zero h0), Nat.zero_add]

/-- Where `/` is the memory filesystem, `read_all` of a path that leads there returns the
file and changes nothing. -/
theorem readAll_view {v : Vfs (Devices × ρ × Tmpfs)} {path : Path} {k : Nat} {cs : List Path}
    (hm : v.mounts[k]? = some rootMount) (ht : v.target path = some (k, cs)) {s : Tmpfs}
    {n : Nat} (h : Ready s n) {data : List UInt8} (hview : s.view cs = some (.file data))
    (devices : Devices) (rest : ρ) :
    v.readAll path (devices, rest, s) = (.ok data, devices, rest, s) := by
  obtain ⟨x, hx⟩ : ∃ x, Labelled.Follows s.Enters rootInode cs x := by
    by_contra hno
    rw [view_of_not_follows fun x hx => hno ⟨x, hx⟩] at hview
    cases hview
  obtain ⟨i, hi, ⟨hk, hv⟩ | ⟨-, -, hv⟩⟩ := h.inv.view_cases h.plain hx
  swap
  · cases hv.symm.trans hview
  obtain rfl : i.data = data := Node.file.inj (Option.some.inj (hv.symm.trans hview))
  have hresolve : v.resolve path (devices, rest, s) = (.ok (k, x), devices, rest, s) := by
    rw [Vfs.resolve_of_target ht hm]
    refine Prod.ext ?_ (walk_state cs rootInode _)
    exact congrArg (Except.map fun inode => (k, inode)) (walk_ok_iff.2 hx)
  have hsize : rootOps.size (devices, rest, s) x = i.data.length := by
    show s.size x = i.data.length
    rw [size, hi]
    rfl
  refine readAll_of_read hm hresolve ((fileType_of_getElem? hi).trans hk) hsize fun _ => ?_
  have hread := read_regular hi hk 0 (List.replicate i.data.length 0)
  rw [List.length_replicate, slice_all, List.drop_of_length_le (by rw [List.length_replicate]),
    List.append_nil] at hread
  exact congrArg (·, devices, rest, s) hread

/-- A path that leads nowhere. -/
theorem readAll_view_none {v : Vfs (Devices × ρ × Tmpfs)} {path : Path} {k : Nat} {cs : List Path}
    (hm : v.mounts[k]? = some rootMount) (ht : v.target path = some (k, cs)) {s : Tmpfs}
    (hview : s.view cs = none) {n : Nat} (h : Ready s n) (devices : Devices) (rest : ρ) :
    ∃ e, v.readAll path (devices, rest, s) = (.error e, devices, rest, s) := by
  have hwalk : ∃ e, (Vfs.walk rootOps cs rootInode (devices, rest, s)).1 = .error e := by
    cases hw : (Vfs.walk rootOps cs rootInode (devices, rest, s)).1 with
    | error e => exact ⟨e, rfl⟩
    | ok x => exact absurd hview (h.inv.view_ne_none (walk_ok_iff.1 hw))
  obtain ⟨e, he⟩ := hwalk
  have hresolve : v.resolve path (devices, rest, s) = (.error e, devices, rest, s) := by
    rw [Vfs.resolve_of_target ht hm]
    exact Prod.ext (congrArg (Except.map fun inode => (k, inode)) he) (walk_state cs rootInode _)
  refine ⟨e, ?_⟩
  rw [Vfs.readAll, Vfs.openPath, hresolve]
  rfl

end AeroOS.Boot
