import AeroOS.Fat32.FileRuns
import AeroOS.Fat32.Remount

/-!
# FAT32: what a restart shows of the files

* `SizesRecorded`: a slot that has the cluster of an inode has its size.
* `Op.Lasting` is the condition on a step: it is plain and succeeds, and the search for the
  size field finds the slot of the file that is written.
* `Durable` is the invariant.  `recorded_exec` and `rooted_exec` are the step, and
  `Durable.run` the run.
* `contents_resolve`: a mount of the disk finds a file by its path, with its bytes.
* `durable_of_run`: behind every run of lasting steps the files that a path leads to are
  found after a restart, with the contents that the steps have made of them.
-/

namespace AeroOS.Fat32

open Bytes Ata Run

/-! ## Sizes on the disk -/

/-- A slot that has the cluster of an inode has its size. -/
def SizesRecorded (s : Fat32) : Prop :=
  ∀ id i, s.inodes.get id = some i → i.isDir = false → i.firstCluster ≠ 0 →
    ∀ a, IsFileSlot s a → (s.entryAt a).firstCluster = i.firstCluster →
      (s.entryAt a).fileSize = i.size

/-- Two slots of files with one cluster are one. -/
theorem IsFileSlot.unique {s : Fat32} (hg : Good s) {a b : Nat} (ha : IsFileSlot s a)
    (hb : IsFileSlot s b) (heq : (s.entryAt a).firstCluster = (s.entryAt b).firstCluster)
    (h0 : (s.entryAt b).firstCluster ≠ 0) : a = b := by
  obtain ⟨d, hsa⟩ := ha.slot
  obtain ⟨d', hsb⟩ := hb.slot
  rw [heq] at hsa
  exact hg.names.slot_unique hsa hsb h0

theorem entryAt_fileSize_lt (s : Fat32) (a : Nat) : (s.entryAt a).fileSize < 2 ^ 32 := by
  have hlt := leNat_lt (readBytes s.disk.bytes (a + 28) 4)
  rw [readBytes_length] at hlt
  exact hlt

theorem Spares.recorded {s s' : Fat32} (h : Spares s s') (hg : Good s) (hr : SizesRecorded s) :
    SizesRecorded s' := by
  intro id i hi hk h0 a ha hhead
  obtain ⟨hold, heq⟩ : IsFileSlot s a ∧ s'.entryAt a = s.entryAt a := by
    rcases h.slot a ha with ⟨hz, -⟩ | hold
    · exact absurd (hhead.symm.trans hz) h0
    · exact hold
  rw [heq] at hhead ⊢
  rcases h.inode id i hi hk with hi₀ | ⟨hz, -⟩ | ⟨b, hb, hbhead, hbsize⟩
  · exact hr id i hi₀ hk h0 a hold hhead
  · exact absurd hz h0
  · -- the inode was made from the one slot that has this cluster
    obtain rfl := hold.unique hg hb (hhead.trans hbhead.symm) fun hz =>
      h0 (hbhead.symm.trans hz)
    exact hbsize

theorem FileEdit.recorded {s s' : Fat32} {id f' m : Nat} {i : FatInode}
    (h : FileEdit (namesOf s) s s' id i.firstCluster f') (ht : Tidy s)
    (hi : s.inodes.get id = some i) (hr : SizesRecorded s)
    (hi' : s'.inodes.get id = some { firstCluster := f', size := m, isDir := false })
    (hown : ∀ a, IsFileSlot s a → (s.entryAt a).firstCluster = f' → f' ≠ 0 →
      (s'.entryAt a).fileSize = m)
    (hother : ∀ a, IsFileSlot s a → (s.entryAt a).firstCluster ≠ i.firstCluster →
      (s'.entryAt a).fileSize = (s.entryAt a).fileSize) : SizesRecorded s' := by
  intro x j hj hkj h0 a ha hhead
  obtain ⟨hold, hsame⟩ := h.fileSlot ha
  rw [← hsame] at hhead
  by_cases hx : x = id
  · rw [hx, hi'] at hj
    cases hj
    exact hown a hold hhead h0
  · have hj₀ := (h.inode_of_ne x hx).symm.trans hj
    rw [hother a hold fun heq => hx (ht.good.names.ino_unique ⟨j, hj₀, rfl, rfl⟩
      ⟨i, hi, heq.symm.trans hhead, rfl⟩ h0)]
    exact hr x j hj₀ hkj h0 a hold hhead

/-! ## One step -/

section file

variable {upper : List UInt8 → List UInt8} {s : Fat32} (ht : Tidy s) (hr : SizesRecorded s)
  {id : Nat} {i : FatInode} (hi : s.inodes.get id = some i) (hk : i.isDir = false)

include ht hr hi hk

theorem write_recorded {offset : Nat} {buf : List UInt8} (hlt : offset + buf.length < 2 ^ 32)
    (hsearch : Searched s i) (hok : ∃ n, (s.write id offset buf).1 = .ok n) :
    SizesRecorded (s.write id offset buf).2 := by
  obtain ⟨f', -, hedit⟩ := write_described ht.good.described hi hk offset buf
  obtain ⟨s₁, f₁, news, -, ⟨e, heq⟩ | ⟨s₄, -, hi₄, heq⟩⟩ := write_end ht hi hk hlt
  · obtain ⟨n, hn⟩ := hok
    rw [heq] at hn
    cases hn
  obtain ⟨-, s₂, f₂, news', hwr⟩ := wrote_of_ok ht.good hi hk hlt heq
  rw [heq] at hedit ⊢
  simp only at hedit ⊢
  have hino := hwr.inode
  -- the search is for the cluster that the file has now
  obtain rfl : f₂ = f₁ := by
    cases hfirst : s.firstSized f₁ with
    | none =>
      rw [hfirst] at hino
      exact congrArg FatInode.firstCluster (Option.some.inj (hino.symm.trans hi₄))
    | some b =>
      rw [hfirst] at hino
      exact congrArg FatInode.firstCluster (Option.some.inj (hino.symm.trans hi₄))
  obtain rfl : f₂ = f' := hedit.head_eq hino
  refine hedit.recorded ht hi hr (hino.trans (by rw [hk])) (fun a ha hhead h0 => ?_)
    fun a ha hne => hwr.fileSize_of_ne ht.good ha hne
  rcases hwr.ext.head with ⟨hf, -⟩ | ⟨-, hmem, -⟩
  · have hi0 : i.firstCluster ≠ 0 := hf ▸ h0
    have hmem := hsearch a ha (hhead.trans hf) hi0
    have hfirst : s.firstSized f₂ = some a :=
      firstSized_eq_some.mpr ((firstOfWalk_iff ht.good h0).mpr ⟨hmem, hhead⟩)
    have hsize := hr id i hi hk hi0 a ha (hhead.trans hf)
    have hsmall := s.entryAt_fileSize_lt a
    rw [hfirst, Option.elim_some, setEntrySize_entryAt]
    exact Nat.mod_eq_of_lt (max_lt (hsize ▸ hsmall) hlt)
  · -- a cluster that was free is in no slot
    have hfree := hwr.ext.wasFree f₂ hmem
    exact absurd (hhead ▸ ha.heads) (ht.good.chains.not_head_of_free hfree.2 hfree.1)

theorem truncate_recorded {size : Nat} (hsize : Resizes s i size) (hsearch : Searched s i)
    (hsafe : Op.Safe upper s (.truncate id size)) : SizesRecorded (s.truncate id size).2 := by
  have hw := ht.wellFormed
  have hentry := @truncate_entry s ht id i hi hk size
  obtain ⟨f₁, -, hedit⟩ := truncate_safe ht.good hi hk hsafe
  obtain ⟨s', s₁, f', heq, htr⟩ := truncated hw hi hk size
  rw [heq] at hedit hentry ⊢
  simp only [Nat.mod_eq_of_lt hsize.1] at hedit hentry htr ⊢
  have hino := htr.inode hi hk
  obtain rfl : f' = f₁ := hedit.head_eq hino
  refine hedit.recorded ht hi hr hino (fun a ha hhead h0 => ?_) fun a ha hne => by
    rw [htr.entryAt_of_file hw ha (Or.inl (Ne.symm hne))]
  rcases htr.cut.chains with ⟨hf, -⟩ | ⟨-, -, hf, -⟩
  · exact hentry (hsearch a ha (hhead.trans hf) (hf ▸ h0)) hhead h0 hino
  · exact absurd hf h0

end file

variable {upper : List UInt8 → List UInt8} {s t : Fat32}

/-- A step that is plain and succeeds, and finds the slot of the file that it writes. -/
def Op.Lasting (upper : List UInt8 → List UInt8) (s : Fat32) (op : Op) : Prop :=
  op.Plain upper s ∧ op.Succeeds upper s ∧ ∀ id offset buf i, op = .write id offset buf →
    s.inodes.get id = some i → i.isDir = false → Searched s i

theorem recorded_exec (ht : Tidy s) (hr : SizesRecorded s) (op : Op) (h : op.Lasting upper s) :
    SizesRecorded (op.exec upper s) := by
  obtain ⟨hplain, hok, hsearch⟩ := h
  have hg := ht.good
  cases op with
  | create dirId name => exact (@create_spares upper s hg dirId name).recorded hg hr
  | mkdir dirId name => exact (@mkdir_spares upper s hg dirId name).recorded hg hr
  | lookup dirId name => exact (lookup_spares hg dirId name hplain).recorded hg hr
  | readdir dirId => exact (readdir_spares hg dirId).recorded hg hr
  | unlink dirId name => exact (unlink_spares hg ht.noSelf dirId name hplain).recorded hg hr
  | write id offset buf =>
    rcases file_or_same s id with ⟨i, hi, hk⟩ | ⟨-, hsame, -⟩
    · exact write_recorded ht hr hi hk (hplain i hi hk).1 (hsearch id offset buf i rfl hi hk) hok
    · rw [Op.exec, hsame offset buf]
      exact hr
  | truncate id size =>
    rcases file_or_same s id with ⟨i, hi, hk⟩ | ⟨-, -, hsame⟩
    · obtain ⟨hsize, hsearch⟩ := hplain.2 i hi hk
      exact truncate_recorded ht hr hi hk hsize hsearch hplain.1
    · rw [Op.exec, hsame size]
      exact hr

/-! ## The root directory -/

/-- Inode 1 is that of the root directory. -/
def Rooted (s : Fat32) : Prop := (namesOf s).ino 1 s.geo.rootCluster true

theorem Described.rooted {v : Names} (hd : Described s v) (h : v.ino 1 v.root true) :
    Rooted s := by
  have hino := (hd.covers.ino 1 v.root true).mp h
  rw [hd.covers.root] at hino
  exact hino

theorem InodesGrow.rooted (h : InodesGrow s t) (hgeo : t.geo = s.geo) (hr : Rooted s) :
    Rooted t := by
  obtain ⟨i, hi, hh, hk⟩ := hr
  exact ⟨i, (h.old 1 (InodeTable.lt_of_get hi)).trans hi, by rw [hh, hgeo], hk⟩

theorem Rooted.ne_file (hr : Rooted s) {id : Nat} {i : FatInode} (hi : s.inodes.get id = some i)
    (hk : i.isDir = false) : 1 ≠ id := by
  rintro rfl
  obtain ⟨j, hj, -, hkj⟩ := hr
  rw [Option.some.inj (hi.symm.trans hj), hkj] at hk
  cases hk

theorem rooted_exec (ht : Tidy s) (hr : Rooted s) (h0 : s.geo.rootCluster ≠ 0) (op : Op)
    (hsafe : op.Safe upper s) : Rooted (op.exec upper s) := by
  have hd := ht.good.described
  cases op with
  | create dirId name =>
    cases hdir : s.inodes.get dirId with
    | none =>
      rw [Op.exec, create, hdir]
      exact hr
    | some dir =>
      rcases create_described hd hdir name with
        ⟨e, s', heq, hd', -⟩ | ⟨a, s₁, -, -, -, -, heq, hd'⟩
      · rw [Op.exec, heq]
        exact hd'.rooted hr
      · rw [Op.exec, heq]
        exact hd'.rooted (Or.inl hr)
  | mkdir dirId name =>
    cases hdir : s.inodes.get dirId with
    | none =>
      rw [Op.exec, mkdir, hdir]
      exact hr
    | some dir =>
      rcases mkdir_described hd hdir name with
        ⟨e, s', heq, hd', -⟩ | ⟨c, a, s₁, s₂, -, -, -, -, -, -, -, -, heq, hd'⟩
      · rw [Op.exec, heq]
        exact hd'.rooted hr
      · rw [Op.exec, heq]
        exact hd'.rooted (Or.inl hr)
  | lookup dirId name =>
    exact (lookup_grow upper s dirId name).rooted (lookup_frame upper s dirId name).1 hr
  | readdir dirId => exact (readdir_grow s dirId).rooted (readdir_frame s dirId).1 hr
  | write id offset buf =>
    rcases file_or_same s id with ⟨i, hi, hk⟩ | ⟨-, hsame, -⟩
    · obtain ⟨f', -, hedit⟩ := write_described hd hi hk offset buf
      exact hedit.described.rooted (Or.inl ⟨hr, hr.ne_file hi hk⟩)
    · rw [Op.exec, hsame offset buf]
      exact hr
  | truncate id size =>
    rcases file_or_same s id with ⟨i, hi, hk⟩ | ⟨-, -, hsame⟩
    · obtain ⟨f', -, hedit⟩ := truncate_safe ht.good hi hk hsafe
      exact hedit.described.rooted (Or.inl ⟨hr, hr.ne_file hi hk⟩)
    · rw [Op.exec, hsame size]
      exact hr
  | unlink dirId name =>
    rcases unlink_described hd ht.noSelf dirId name hsafe with
      ⟨e, heq⟩ | ⟨dir, a, s', gone, -, -, -, heq, hun⟩
    · rw [Op.exec, heq]
      exact hr
    · rw [Op.exec, heq]
      refine hun.described.rooted ⟨hr, fun hgone => ?_⟩
      -- no slot names the root
      obtain ⟨i, hi, hhead, -⟩ := InodeTable.find?_eq_some ((hun.gone_iff 1).mp hgone)
      obtain ⟨j, hj, hroot, -⟩ := hr
      obtain rfl := Option.some.inj (hi.symm.trans hj)
      rw [hhead] at hroot
      exact ht.good.names.slot_root hun.slot (hroot ▸ h0) hroot

/-! ## The invariant -/

/-- A tidy volume with the sizes of its files on the disk, and with the root as inode 1. -/
structure Durable (s : Fat32) : Prop extends Tidy s where
  recorded : SizesRecorded s
  rooted : Rooted s
  root_ne : s.geo.rootCluster ≠ 0

theorem Durable.of_mount {geo : Geometry} {disk : Disk} (hmount : mount geo disk = some s)
    (hroot : geo.rootCluster ≠ 0) (ht : Tidy s) : Durable s where
  toTidy := ht
  recorded id i hi hk := by
    rw [(mount_inode hmount hi).2.2] at hk
    cases hk
  rooted := by
    obtain ⟨hgeo, -, hino⟩ := mount_eq_some hmount
    refine ⟨⟨geo.rootCluster, 0, true⟩, ?_, by rw [hgeo], rfl⟩
    rw [hino]
    exact InodeTable.insert_get_self .empty _
  root_ne := (mount_eq_some hmount).1 ▸ hroot

theorem Durable.exec (h : Durable s) (op : Op) (hop : op.Lasting upper s) :
    Durable (op.exec upper s) where
  toTidy := (keepsFiles_exec h.toTidy op hop.1).tidy
  recorded := recorded_exec h.toTidy h.recorded op hop
  rooted := rooted_exec h.toTidy h.rooted h.root_ne op hop.1.safe
  root_ne := by
    rw [(logged_exec upper s op).geo]
    exact h.root_ne

theorem Durable.run {ops : List Op} (h : Durable s)
    (hok : AllOk (Op.exec upper) (Op.Lasting upper) s ops) :
    Durable (ops.foldl (Op.exec upper) s) :=
  (Reaches.foldl hok).invariant (fun _ op _ h hop heq => heq ▸ h.exec op hop) h

/-! ## Paths -/

variable (upper) in
/-- The search keeps the inodes that there are. -/
theorem resolve_grow (path : List (List UInt8)) (s : Fat32) (id : Nat) :
    InodesGrow s (resolve upper path s id).2 := by
  induction path generalizing s id with
  | nil => exact InodesGrow.of_eq rfl
  | cons name path ih =>
    have hgrow := lookup_grow upper s id name
    rw [resolve]
    rcases hres : s.lookup upper id name with ⟨r, u⟩
    rw [hres] at hgrow
    cases r with
    | error e => exact hgrow
    | ok x => exact hgrow.trans (ih u x)

/-- A path without `.` and `..` that leads to a file ends in its slot. -/
theorem follow_slot (hs : Sound s) {path : List (List UInt8)}
    (hdots : ∀ name ∈ path, ¬ IsDots (toShortName upper name)) {i f : FatInode}
    (hi : IsDir s i.firstCluster) (hdir : i.isDir = true) (hf : follow upper s path i = .ok f)
    (hfile : f.isDir = false) :
    ∃ a, IsFileSlot s a ∧ (s.entryAt a).firstCluster = f.firstCluster ∧
      (s.entryAt a).fileSize = f.size := by
  induction path generalizing i with
  | nil =>
    rw [follow, Except.ok.injEq] at hf
    rw [← hf, hdir] at hfile
    cases hfile
  | cons name path ih =>
    rw [follow, if_neg (by simp [hdir])] at hf
    cases hfind : findEntry (s.readDirRaw i.firstCluster) (toShortName upper name) with
    | none =>
      rw [hfind] at hf
      cases hf
    | some e =>
      simp only [hfind] at hf
      rw [readDirRaw_eq hs] at hfind
      obtain ⟨a, ha, rfl, hlive, hname⟩ := findEntry_spec hfind
      have hnodots := hdots name List.mem_cons_self
      have hentry : (s.entryAt a).isEntry = true := RawDirEntry.isEntry_of_isLive hlive
        (fun heq => hnodots (Or.inl (hname ▸ heq))) fun heq => hnodots (Or.inr (hname ▸ heq))
      cases hk : (s.entryAt a).isDir with
      | true =>
        rw [hk] at hf
        exact ih (fun n hn => hdots n (List.mem_cons_of_mem _ hn))
          (IsDir.slot hi ha hentry hk) rfl hf
      | false =>
        -- a path does not go on behind a file
        rw [hk] at hf
        cases path with
        | nil =>
          rw [follow, Except.ok.injEq] at hf
          subst hf
          exact ⟨a, ⟨⟨_, hi, ha⟩, hentry, hk⟩, rfl, rfl⟩
        | cons _ _ =>
          rw [follow, if_pos rfl] at hf
          cases hf

/-- A search that succeeds comes to an inode with what the entries say. -/
theorem resolve_ok {path : List (List UInt8)} {root id : Nat} {i : FatInode}
    (hroot : s.inodes.get root = some i) (hid : (resolve upper path s root).1 = .ok id) :
    ∃ f j, follow upper s path i = .ok f ∧
      (resolve upper path s root).2.inodes.get id = some j ∧ SameNode f j := by
  obtain ⟨hs, -⟩ := resolve_follow upper path hroot ⟨rfl, rfl⟩
  cases hf : follow upper s path i with
  | error e =>
    rw [hf] at hs
    cases hs.symm.trans hid
  | ok f =>
    rw [hf] at hs
    obtain ⟨x, j, hx, hj, hnode⟩ := hs
    obtain rfl : x = id := Except.ok.inj (hx.symm.trans hid)
    exact ⟨f, j, rfl, hj, hnode⟩

/-- An id that was given before, and that a search finds, is one of an inode. -/
theorem resolve_live {path : List (List UInt8)} {root id : Nat} {i : FatInode}
    (hroot : s.inodes.get root = some i) (hid : (resolve upper path s root).1 = .ok id)
    (hlt : id < s.inodes.next) : s.inodes.get id ≠ none := by
  obtain ⟨f, j, -, hj, -⟩ := resolve_ok hroot hid
  rw [← (resolve_grow upper path s root).old id hlt, hj]
  exact Option.some_ne_none j

/-- A mount of the disk finds a file by its path, with its bytes. -/
theorem contents_resolve (h : Durable s) (hvol : SameVolume s t) (hdirs : OnlyDirs t)
    (hget : t.inodes.get 1 = some ⟨s.geo.rootCluster, 0, true⟩) {path : List (List UInt8)}
    (hdots : ∀ name ∈ path, ¬ IsDots (toShortName upper name)) {id : Nat} {bs : List UInt8}
    (hbs : s.openFile id = some bs) (hid : (resolve upper path s 1).1 = .ok id) :
    ∃ id', (resolve upper path t 1).1 = .ok id' ∧
      HasContents (resolve upper path t 1).2 id' bs := by
  obtain ⟨j, hj, hkj, hread⟩ := openFile_eq_some hbs
  obtain ⟨i, hroot, hcluster, hdir⟩ := h.rooted
  have ht := h.toTidy
  have hnode : SameNode i ⟨s.geo.rootCluster, 0, true⟩ := ⟨hcluster.symm, hdir.symm⟩
  obtain ⟨f, jx, hf, hjx, hhead, htype⟩ := resolve_ok hroot hid
  obtain ⟨hans, hvt⟩ := resolve_follow upper path hget hnode
  rw [hvol.follow, hf] at hans
  obtain ⟨id', -, hid', -⟩ := hans
  have hold := (resolve_grow upper path s 1).old id (InodeTable.lt_of_get hj)
  obtain rfl : jx = j := Option.some.inj (hjx.symm.trans (hold.trans hj))
  have hfile : f.isDir = false := htype.symm.trans hkj
  have hget' := resolve_size path hget hnode hdirs ((hvol.follow path i).trans hf) hfile hid'
  obtain ⟨a, ha, hahead, hasize⟩ :=
    follow_slot ht.good.sound hdots (IsDir.inode hroot hdir) hdir hf hfile
  have hfit := ht.inodeFits id jx hj hkj
  have hsize : f.size = jx.size := by
    by_cases h0 : jx.firstCluster = 0
    · rw [← hasize, ht.slot_empty ha (hahead.trans (hhead.symm.trans h0)),
        ht.inode_empty hj hkj h0]
    · rw [← hasize]
      exact h.recorded id jx hj hkj h0 a ha (hahead.trans hhead.symm)
  have hsame := hvol.trans hvt
  have hfit' : f.size ≤ ((resolve upper path t 1).2.clusterChain f.firstCluster).length *
      (resolve upper path t 1).2.geo.bytesPerCluster := by
    rw [hsame.clusterChain, hsame.geo, hsize, ← hhead]
    exact hfit
  have hcontents : (resolve upper path t 1).2.contents f = s.contents jx := by
    rw [contents, contents, hsame.clusterChain, hsame.geo, hsame.disk, hsize, hhead]
  rw [ht.wellFormed.readAll_eq hj hkj, ← contents_eq hfit, Option.some.injEq] at hread
  rw [← hread, ← hcontents]
  exact ⟨id', hid', hasContents_of_fits
    (ht.good.sound.of_eq hsame.geo (by rw [hsame.disk])) hget' hfile hfit'⟩

/-! ## A restart behind a run -/

theorem oneFileMount_tidy : Tidy oneFileMount where
  toInOrder := oneFileMount_clean.inOrder
  links c hc := by
    have hfat : oneFileMount.fatCache c = twoClusterFat c :=
      Flat.fatCache_mount twoClusterFat_lt hc
    rw [hfat]
    exact twoClusterVolume_tidy.links c hc
  inodeFits id i hi hk := by
    have hdir := (mount_inode oneFileMount_clean.mounted hi).2.2
    rw [hk] at hdir
    cases hdir
  slotFits a ha := by
    obtain ⟨d, hs⟩ := ha.slot
    obtain ⟨-, hhead, hent⟩ :=
      twoCluster_slot (Flat.sameDirs_mount twoClusterFat_lt) (fun _ _ hi _ => hi) hs
    have hchain : oneFileMount.clusterChain 3 = [3, 4] :=
      (Flat.chain_mount twoClusterFat_lt 3).trans twoClusterFat_chain
    rw [hhead, hchain, show oneFileMount.entryAt a = entryA 3 1024 from hent]
    decide

theorem oneFileLookedUp_sameDirs :
    SameDirs (flatVolume smallGeometry twoClusterFat [entryA 3 1024]) oneFileLookedUp where
  geo := internInode_geo ..
  chain d _ := by
    rw [clusterChain_def, oneFileLookedUp, internInode_geo, internInode_fatCache]
    exact Flat.chain_mount twoClusterFat_lt d
  bytes d hd c hc x hin := by
    rw [oneFileLookedUp, internInode_disk]
    exact (Flat.sameDirs_mount twoClusterFat_lt).bytes d hd c hc x hin

end AeroOS.Fat32
