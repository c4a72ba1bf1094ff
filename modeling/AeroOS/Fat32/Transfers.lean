import AeroOS.Fat32.NoCrossLink

/-!
# FAT32: the writes of an operation

The calls of `ata::write_sectors` that each operation makes, in their order.

* `…Calls` follow the code of the operations and list the sector number and the
  buffer of each call, also of one that fails.
* `Logged` ties such a list to the operation: the disk behind it is the disk
  before it with the calls made one after another, and each call goes to a
  copy of the table or to a cluster that the table has an entry for.
-/

namespace AeroOS.Fat32

open Bytes Ata

/-- A call of `write_sectors`: the first sector and the buffer. -/
structure Call where
  lba : Nat
  buf : List UInt8

/-- The disk after the calls. -/
def replay (d : Disk) (calls : List Call) : Disk :=
  calls.foldl (fun d c => (writeSectors d c.lba c.buf).2) d

theorem replay_cons (d : Disk) (c : Call) (l : List Call) :
    replay d (c :: l) = replay (writeSectors d c.lba c.buf).2 l := rfl

theorem replay_append (d : Disk) (l k : List Call) : replay d (l ++ k) = replay (replay d l) k :=
  List.foldl_append

/-! ## Clusters and tables -/

def writeClusterCalls (s : Fat32) (cluster : Nat) (buf : List UInt8) : List Call :=
  if buf.length < s.geo.bytesPerCluster then []
  else [⟨s.geo.clusterToLba cluster, buf.take s.geo.bytesPerCluster⟩]

def flushCopiesCalls (g : Geometry) (table : List UInt8) : Nat → Nat → Disk → List Call
  | 0, _, _ => []
  | n + 1, i, d =>
    ⟨g.fatStart + i * g.fatSz32, table⟩ ::
      match writeSectors d (g.fatStart + i * g.fatSz32) table with
      | (false, _) => []
      | (true, d) => flushCopiesCalls g table n (i + 1) d

def flushFatCalls (s : Fat32) : List Call :=
  ⟨s.geo.fatStart, s.fatTable⟩ ::
    match writeSectors s.disk s.geo.fatStart s.fatTable with
    | (false, _) => []
    | (true, d) => flushCopiesCalls s.geo s.fatTable (s.geo.numFats - 1) 1 d

/-! ## Directories -/

def writeFreeSlotCalls (s : Fat32) (entry : RawDirEntry) : List Nat → List Call
  | [] => []
  | c :: cs =>
    match s.readCluster c with
    | none => []
    | some buf =>
      match (List.range s.slotCount).find? (slotFree buf) with
      | some i => s.writeClusterCalls c (patch buf (i * 32) entry.pack)
      | none => s.writeFreeSlotCalls entry cs

def extendDirCalls (s : Fat32) (entry : RawDirEntry) (chain : List Nat) : List Call :=
  match s.allocCluster with
  | none => []
  | some (newCluster, s) =>
    match chain.getLast? with
    | none => []
    | some last =>
      let s := (s.setFat last newCluster).setFat newCluster fatEoc
      let buf := patch (List.replicate s.geo.bytesPerCluster 0) 0 entry.pack
      s.writeClusterCalls newCluster buf ++
        match s.writeCluster newCluster buf with
        | (false, _) => []
        | (true, s) => s.flushFatCalls

def writeDirEntryCalls (s : Fat32) (dirCluster : Nat) (entry : RawDirEntry) (createNew : Bool) :
    List Call :=
  let chain := s.clusterChain dirCluster
  s.writeFreeSlotCalls entry chain ++
    match s.writeFreeSlot entry chain with
    | some _ => []
    | none => if createNew = false then [] else s.extendDirCalls entry chain

def removeClustersCalls (s : Fat32) (short : List UInt8) : List Nat → List Call
  | [] => []
  | c :: cs =>
    match s.readCluster c with
    | none => []
    | some buf =>
      match removeScan buf short (List.range s.slotCount) with
      | .endMark => []
      | .hit i => s.writeClusterCalls c (patch buf (i * 32) [0xE5])
      | .pass => s.removeClustersCalls short cs

def updateSizeClustersCalls (s : Fat32) (target newSize : Nat) : List Nat → List Call
  | [] => []
  | c :: cs =>
    match s.readCluster c with
    | none => []
    | some buf =>
      match (List.range s.slotCount).find?
          fun i => sizeSlot buf i && slotCluster buf i == target with
      | some i => s.writeClusterCalls c (patch buf (i * 32 + 28) (leBytes 4 newSize))
      | none => s.updateSizeClustersCalls target newSize cs

/-- The calls of `firstTrue f`, where `calls` are the calls of `f`. -/
def firstTrueCalls (f : Fat32 → Nat → Except String Bool × Fat32)
    (calls : Fat32 → Nat → List Call) : List Nat → Fat32 → List Call
  | [], _ => []
  | d :: ds, s =>
    calls s d ++
      match f s d with
      | (.error _, _) => []
      | (.ok true, _) => []
      | (.ok false, s) => firstTrueCalls f calls ds s

def updateSizeRecursiveCalls : Nat → Fat32 → Nat → Nat → Nat → List Call
  | 0, _, _, _, _ => []
  | depth + 1, s, dirCluster, target, newSize =>
    s.updateSizeClustersCalls target newSize (s.clusterChain dirCluster) ++
      match s.updateSizeClusters target newSize (s.clusterChain dirCluster) [] with
      | (.error _, _) => []
      | (.ok none, _) => []
      | (.ok (some subdirs), s) =>
        firstTrueCalls (fun s d => updateSizeRecursive depth s d target newSize)
          (fun s d => updateSizeRecursiveCalls depth s d target newSize) subdirs s

def updateDirEntrySizeCalls (s : Fat32) (id : Nat) : List Call :=
  match s.inodes.get id with
  | none => []
  | some inode =>
    if inode.isDir then []
    else
      updateSizeRecursiveCalls s.maxDepth s s.geo.rootCluster inode.firstCluster inode.size

/-! ## The operations -/

def writeLoopCalls (s : Fat32) (chain : List Nat) (offset stop pos : Nat) (buf : List UInt8)
    (written : Nat) : List Call :=
  if _h : pos < stop then
    let clusterIdx := (pos - offset) / s.geo.bytesPerCluster
    if chain.length ≤ clusterIdx then []
    else
      let inCluster := pos % s.geo.bytesPerCluster
      match s.readCluster (chain.getD clusterIdx 0) with
      | none => []
      | some scratch =>
        let take := min (stop - pos) (s.geo.bytesPerCluster - inCluster)
        let patched := patch scratch inCluster ((buf.drop written).take take)
        s.writeClusterCalls (chain.getD clusterIdx 0) patched ++
          match s.writeCluster (chain.getD clusterIdx 0) patched with
          | (false, _) => []
          | (true, s') => writeLoopCalls s' chain offset stop (pos + take) buf (written + take)
  else []
termination_by stop - pos
decreasing_by
  have := Nat.mod_lt pos s.geo.bytesPerCluster_pos
  omega

def writeCalls (s : Fat32) (id offset : Nat) (buf : List UInt8) : List Call :=
  match s.inodes.get id with
  | none => []
  | some inode =>
    if inode.isDir then []
    else
      let stop := (offset + buf.length) % 2 ^ 64
      let chain := s.clusterChain inode.firstCluster
      match extendChain id (s.clustersFor stop - chain.length) s inode chain with
      | (.error _, _) => []
      | (.ok (inode, chain), s) =>
        let s := if inode.firstCluster = 0 ∧ chain ≠ [] then s.setFirstCluster id (chain.getD 0 0)
          else s
        s.writeLoopCalls chain offset stop offset buf 0 ++
          match s.writeLoop chain offset stop offset buf 0 with
          | (.error _, _) => []
          | (.ok _, s) =>
            let s := if inode.size < stop then s.setSize id (stop % 2 ^ 32) else s
            s.flushFatCalls ++
              match s.flushFat with
              | (false, _) => []
              | (true, s) => s.updateDirEntrySizeCalls id

section names

variable (upper : List UInt8 → List UInt8)

def createCalls (s : Fat32) (dirId : Nat) (name : List UInt8) : List Call :=
  match s.inodes.get dirId with
  | none => []
  | some dir =>
    if dir.isDir = false then []
    else
      match findEntry (s.readDirRaw dir.firstCluster) (toShortName upper name) with
      | some _ => []
      | none =>
        let entry := RawDirEntry.new (toShortName upper name) (toShortName_length upper name)
          attrArchive 0
        s.writeDirEntryCalls dir.firstCluster entry true ++
          match s.writeDirEntry dir.firstCluster entry true with
          | (.error _, _) => []
          | (.ok (), s) => s.flushFatCalls

def mkdirCalls (s : Fat32) (dirId : Nat) (name : List UInt8) : List Call :=
  match s.inodes.get dirId with
  | none => []
  | some dir =>
    if dir.isDir = false then []
    else
      match findEntry (s.readDirRaw dir.firstCluster) (toShortName upper name) with
      | some _ => []
      | none =>
        match s.allocCluster with
        | none => []
        | some (newCluster, s) =>
          let dot := RawDirEntry.new dotName dotName_length attrDir newCluster
          let dotdot := RawDirEntry.new dotdotName dotdotName_length attrDir dir.firstCluster
          let buf := patch (patch (List.replicate s.geo.bytesPerCluster 0) 0 dot.pack) 32
            dotdot.pack
          s.writeClusterCalls newCluster buf ++
            match s.writeCluster newCluster buf with
            | (false, _) => []
            | (true, s) =>
              let entry := RawDirEntry.new (toShortName upper name) (toShortName_length upper name)
                attrDir newCluster
              s.writeDirEntryCalls dir.firstCluster entry true ++
                match s.writeDirEntry dir.firstCluster entry true with
                | (.error _, _) => []
                | (.ok (), s) => s.flushFatCalls

def truncateCalls (s : Fat32) (id size : Nat) : List Call :=
  match s.inodes.get id with
  | none => []
  | some inode =>
    if inode.isDir then []
    else
      let newSize := size % 2 ^ 32
      let needed := s.clustersFor newSize
      let chain := s.clusterChain inode.firstCluster
      let s :=
        if needed < chain.length ∧ chain ≠ [] then
          let keep := max needed (if newSize = 0 then 0 else 1)
          let s := s.freeClusters (chain.drop keep)
          if newSize = 0 then
            (s.setFat (chain.getD 0 0) fatFree).setFirstCluster id 0
          else s.setFat (chain.getD (keep - 1) 0) fatEoc
        else s
      let s := s.setSize id newSize
      s.flushFatCalls ++
        match s.flushFat with
        | (false, _) => []
        | (true, s) => s.updateDirEntrySizeCalls id

def unlinkCalls (s : Fat32) (dirId : Nat) (name : List UInt8) : List Call :=
  match s.inodes.get dirId with
  | none => []
  | some dir =>
    if dir.isDir = false then []
    else
      match findEntry (s.readDirRaw dir.firstCluster) (toShortName upper name) with
      | none => []
      | some t =>
        let s := if 2 ≤ t.firstCluster then s.freeChain t.firstCluster else s
        s.removeClustersCalls (toShortName upper name) (s.clusterChain dir.firstCluster) ++
          match s.removeDirEntry dir.firstCluster (toShortName upper name) with
          | (.error _, _) => []
          | (.ok (), s) => s.flushFatCalls

/-- The calls of an operation. -/
def Op.calls (s : Fat32) : Op → List Call
  | .create dirId name => s.createCalls upper dirId name
  | .mkdir dirId name => s.mkdirCalls upper dirId name
  | .lookup _ _ => []
  | .readdir _ => []
  | .write id offset buf => s.writeCalls id offset buf
  | .truncate id size => s.truncateCalls id size
  | .unlink dirId name => s.unlinkCalls upper dirId name

end names

/-! ## Where the calls go -/

/-- The call writes one copy of the table, or one cluster that the table has an
entry for. -/
def Geometry.Placed (g : Geometry) (c : Call) : Prop :=
  (∃ i < max 1 g.numFats, c.lba = g.fatStart + i * g.fatSz32 ∧ c.buf.length = g.fatBytes) ∨
    ∃ k, g.validCluster k = true ∧ c.lba = g.clusterToLba k ∧ c.buf.length = g.bytesPerCluster

/-- From `s` to `s'` the disk changes by the calls, each to a place of the volume. -/
structure Logged (s : Fat32) (calls : List Call) (s' : Fat32) : Prop where
  geo : s'.geo = s.geo
  disk : s'.disk = replay s.disk calls
  placed : ∀ c ∈ calls, s.geo.Placed c

namespace Logged

variable {s s' s'' : Fat32} {l k : List Call}

/-- No call: the disk is as it was. -/
theorem nil (hg : s'.geo = s.geo) (hd : s'.disk = s.disk) : Logged s [] s' :=
  ⟨hg, hd, by simp⟩

theorem refl (s : Fat32) : Logged s [] s := nil rfl rfl

theorem append (h : Logged s l s') (h' : Logged s' k s'') : Logged s (l ++ k) s'' where
  geo := h'.geo.trans h.geo
  disk := by rw [h'.disk, h.disk, replay_append]
  placed c hc := (List.mem_append.1 hc).elim (h.placed c) fun hk => h.geo ▸ h'.placed c hk

/-- Calls behind a change of the memory alone. -/
theorem after (h : Logged s' l s'') (hg : s'.geo = s.geo) (hd : s'.disk = s.disk) :
    Logged s l s'' :=
  (nil hg hd).append h

/-- Calls before a change of the memory alone. -/
theorem before (h : Logged s l s') (hg : s''.geo = s'.geo) (hd : s''.disk = s'.disk) :
    Logged s l s'' := by
  simpa using h.append (nil hg hd)

theorem single {c : Call} (hg : s'.geo = s.geo) (hd : s'.disk = (writeSectors s.disk c.lba c.buf).2)
    (hp : s.geo.Placed c) : Logged s [c] s' :=
  ⟨hg, hd, fun _ hc => List.mem_singleton.1 hc ▸ hp⟩

end Logged

section steps

variable {s : Fat32}

theorem logged_writeCluster {c : Nat} (hc : s.geo.validCluster c = true) (buf : List UInt8) :
    Logged s (s.writeClusterCalls c buf) (s.writeCluster c buf).2 := by
  unfold writeClusterCalls writeCluster
  by_cases h : buf.length < s.geo.bytesPerCluster
  · rw [if_pos h, if_pos h]
    exact Logged.refl s
  · rw [if_neg h, if_neg h]
    exact Logged.single rfl rfl (Or.inr ⟨c, hc, rfl, by rw [List.length_take]; omega⟩)

theorem logged_flushCopies {g : Geometry} {table : List UInt8} (hlen : table.length = g.fatBytes)
    {n i : Nat} (hn : n + i ≤ max 1 g.numFats) (d : Disk) :
    (flushCopies g table n i d).2 = replay d (flushCopiesCalls g table n i d) ∧
      ∀ c ∈ flushCopiesCalls g table n i d, g.Placed c := by
  induction n generalizing i d with
  | zero => exact ⟨rfl, by simp [flushCopiesCalls]⟩
  | succ n ih =>
    have hp : g.Placed ⟨g.fatStart + i * g.fatSz32, table⟩ := Or.inl ⟨i, by omega, rfl, hlen⟩
    rw [flushCopies, flushCopiesCalls]
    rcases hw : writeSectors d (g.fatStart + i * g.fatSz32) table with ⟨ok, d'⟩
    have hd : (writeSectors d (g.fatStart + i * g.fatSz32) table).2 = d' := by rw [hw]
    cases ok with
    | false => exact ⟨hd.symm, by simpa using hp⟩
    | true =>
      obtain ⟨hd', hcalls⟩ := ih (i := i + 1) (by omega) d'
      refine ⟨hd'.trans ?_, List.forall_mem_cons.2 ⟨hp, hcalls⟩⟩
      rw [replay_cons, hd]

theorem logged_flushFat (s : Fat32) : Logged s s.flushFatCalls s.flushFat.2 := by
  have hp : s.geo.Placed ⟨s.geo.fatStart, s.fatTable⟩ :=
    Or.inl ⟨0, by omega, by simp, s.fatTable_length⟩
  unfold flushFatCalls flushFat
  rcases hw : writeSectors s.disk s.geo.fatStart s.fatTable with ⟨ok, d⟩
  have hd : (writeSectors s.disk s.geo.fatStart s.fatTable).2 = d := by rw [hw]
  cases ok with
  | false => exact Logged.single rfl hd.symm hp
  | true =>
    obtain ⟨hd', hcalls⟩ := logged_flushCopies (n := s.geo.numFats - 1) (i := 1)
      s.fatTable_length (by omega) d
    refine ⟨rfl, hd'.trans ?_, List.forall_mem_cons.2 ⟨hp, hcalls⟩⟩
    rw [replay_cons, hd]

/-! ## Directories -/

theorem logged_writeFreeSlot (entry : RawDirEntry) {cs : List Nat}
    (hcs : ∀ c ∈ cs, s.geo.validCluster c = true) :
    Logged s (s.writeFreeSlotCalls entry cs) ((s.writeFreeSlot entry cs).elim s (·.2)) := by
  induction cs with
  | nil => exact Logged.refl s
  | cons c cs ih =>
    rw [writeFreeSlotCalls, writeFreeSlot]
    cases hr : s.readCluster c with
    | none => exact Logged.refl s
    | some buf =>
      cases hf : (List.range s.slotCount).find? (slotFree buf) with
      | none =>
        simpa only [hf] using ih fun x hx => hcs x (List.mem_cons_of_mem _ hx)
      | some i =>
        have hw := logged_writeCluster (hcs c List.mem_cons_self) (patch buf (i * 32) entry.pack)
        simp only [hf]
        rcases hres : s.writeCluster c (patch buf (i * 32) entry.pack) with ⟨ok, s'⟩
        rw [hres] at hw
        cases ok <;> exact hw

/-- A directory without a free slot is extended. -/
theorem logged_extendDir {entry : RawDirEntry} {dirCluster : Nat}
    (hfull : s.writeFreeSlot entry (s.clusterChain dirCluster) = none) :
    Logged s (s.extendDirCalls entry (s.clusterChain dirCluster))
      (s.writeDirEntry dirCluster entry true).2 := by
  unfold extendDirCalls writeDirEntry
  simp only [hfull, Bool.true_eq_false, if_false]
  cases ha : s.allocCluster with
  | none => exact Logged.refl s
  | some r =>
    obtain ⟨newCluster, t⟩ := r
    obtain ⟨hvalid, -, rfl⟩ := allocCluster_spec ha
    cases hl : (s.clusterChain dirCluster).getLast? with
    | none => exact Logged.nil rfl rfl
    | some last =>
      simp only
      generalize hu : ((s.setFat newCluster fatEoc).setFat last newCluster).setFat newCluster
        fatEoc = u
      have hw : Logged s _ (u.writeCluster newCluster
          (patch (List.replicate u.geo.bytesPerCluster 0) 0 entry.pack)).2 :=
        (logged_writeCluster (by rw [← hu]; exact hvalid) _).after (by rw [← hu]; rfl)
          (by rw [← hu]; rfl)
      rcases hres : u.writeCluster newCluster
        (patch (List.replicate u.geo.bytesPerCluster 0) 0 entry.pack) with ⟨ok, v⟩
      rw [hres] at hw
      cases ok with
      | false => simpa using hw
      | true =>
        have hf := hw.append (logged_flushFat v)
        simp only
        rcases hflush : v.flushFat with ⟨ok, w⟩
        rw [hflush] at hf
        cases ok <;> exact hf

theorem logged_writeDirEntry (s : Fat32) (dirCluster : Nat) (entry : RawDirEntry) :
    Logged s (s.writeDirEntryCalls dirCluster entry true)
      (s.writeDirEntry dirCluster entry true).2 := by
  have hslot := logged_writeFreeSlot entry (s.valid_clusterChain dirCluster)
  unfold writeDirEntryCalls
  cases hr : s.writeFreeSlot entry (s.clusterChain dirCluster) with
  | some r =>
    rw [hr] at hslot
    simpa [writeDirEntry, hr] using hslot
  | none =>
    rw [hr] at hslot
    simp only [hr]
    exact hslot.append (logged_extendDir hr)

theorem logged_removeClusters (short : List UInt8) {cs : List Nat}
    (hcs : ∀ c ∈ cs, s.geo.validCluster c = true) :
    Logged s (s.removeClustersCalls short cs) (s.removeClusters short cs).2 := by
  induction cs with
  | nil => exact Logged.refl s
  | cons c cs ih =>
    rw [removeClustersCalls, removeClusters]
    cases hr : s.readCluster c with
    | none => exact Logged.refl s
    | some buf =>
      cases hf : removeScan buf short (List.range s.slotCount) with
      | endMark => simpa only [hf] using Logged.refl s
      | pass => simpa only [hf] using ih fun x hx => hcs x (List.mem_cons_of_mem _ hx)
      | hit i =>
        have hw := logged_writeCluster (hcs c List.mem_cons_self) (patch buf (i * 32) [0xE5])
        simp only [hf]
        rcases hres : s.writeCluster c (patch buf (i * 32) [0xE5]) with ⟨ok, s'⟩
        rw [hres] at hw
        cases ok <;> exact hw

theorem logged_updateSizeClusters (target newSize : Nat) {cs : List Nat}
    (hcs : ∀ c ∈ cs, s.geo.validCluster c = true) (subdirs : List Nat) :
    Logged s (s.updateSizeClustersCalls target newSize cs)
      (s.updateSizeClusters target newSize cs subdirs).2 := by
  induction cs generalizing subdirs with
  | nil => exact Logged.refl s
  | cons c cs ih =>
    rw [updateSizeClustersCalls, updateSizeClusters]
    cases hr : s.readCluster c with
    | none => exact Logged.refl s
    | some buf =>
      cases hf : (List.range s.slotCount).find?
          fun i => sizeSlot buf i && slotCluster buf i == target with
      | none => simpa only [hf] using ih (fun x hx => hcs x (List.mem_cons_of_mem _ hx)) _
      | some i =>
        have hw := logged_writeCluster (hcs c List.mem_cons_self)
          (patch buf (i * 32 + 28) (leBytes 4 newSize))
        simp only [hf]
        rcases hres : s.writeCluster c (patch buf (i * 32 + 28) (leBytes 4 newSize)) with
          ⟨ok, s'⟩
        rw [hres] at hw
        cases ok <;> exact hw

theorem logged_firstTrue {f : Fat32 → Nat → Except String Bool × Fat32}
    {calls : Fat32 → Nat → List Call} (hf : ∀ s d, Logged s (calls s d) (f s d).2)
    (ds : List Nat) (s : Fat32) :
    Logged s (firstTrueCalls f calls ds s) (firstTrue f ds s).2 := by
  induction ds generalizing s with
  | nil => exact Logged.refl s
  | cons d ds ih =>
    have hd := hf s d
    rw [firstTrueCalls, firstTrue]
    rcases hres : f s d with ⟨r, t⟩
    rw [hres] at hd
    rcases r with e | b
    · simpa using hd
    · cases b with
      | true => simpa using hd
      | false => exact hd.append (ih t)

theorem logged_updateSizeRecursive (depth : Nat) (s : Fat32) (dirCluster target newSize : Nat) :
    Logged s (updateSizeRecursiveCalls depth s dirCluster target newSize)
      (updateSizeRecursive depth s dirCluster target newSize).2 := by
  induction depth generalizing s dirCluster with
  | zero => exact Logged.refl s
  | succ depth ih =>
    have hcl := logged_updateSizeClusters target newSize (s.valid_clusterChain dirCluster) []
    rw [updateSizeRecursiveCalls, updateSizeRecursive]
    rcases hres : s.updateSizeClusters target newSize (s.clusterChain dirCluster) [] with ⟨r, t⟩
    rw [hres] at hcl
    rcases r with e | (_ | subdirs)
    · simpa using hcl
    · simpa using hcl
    · exact hcl.append (logged_firstTrue (fun s d => ih s d) subdirs t)

theorem logged_updateDirEntrySize (s : Fat32) (id : Nat) :
    Logged s (s.updateDirEntrySizeCalls id) (s.updateDirEntrySize id).2 := by
  unfold updateDirEntrySizeCalls updateDirEntrySize
  cases hi : s.inodes.get id with
  | none => exact Logged.refl s
  | some inode =>
    by_cases hd : inode.isDir = true
    · simpa [hd] using Logged.refl s
    · have hup := logged_updateSizeRecursive s.maxDepth s s.geo.rootCluster inode.firstCluster
        inode.size
      simp only [hd]
      rcases hres : updateSizeRecursive s.maxDepth s s.geo.rootCluster inode.firstCluster
        inode.size with ⟨r, t⟩
      rw [hres] at hup
      cases r <;> exact hup

/-! ## Operations -/

/-- The clusters that a chain is extended by are clusters of the table; nothing is
written. -/
theorem extendChain_valid (id n : Nat) {s : Fat32} (inode : FatInode) {chain : List Nat}
    (hcs : ∀ c ∈ chain, s.geo.validCluster c = true) :
    (extendChain id n s inode chain).2.geo = s.geo ∧
      (extendChain id n s inode chain).2.disk = s.disk ∧
      ∀ r, (extendChain id n s inode chain).1 = .ok r →
        ∀ c ∈ r.2, s.geo.validCluster c = true := by
  induction n generalizing s inode chain with
  | zero =>
    refine ⟨rfl, rfl, fun r hr => ?_⟩
    cases hr
    exact hcs
  | succ n ih =>
    rw [extendChain]
    cases ha : s.allocCluster with
    | none => exact ⟨rfl, rfl, fun r hr => by cases hr⟩
    | some r =>
      obtain ⟨newCluster, t⟩ := r
      obtain ⟨hvalid, -, rfl⟩ := allocCluster_spec ha
      have hlonger : ∀ c ∈ chain ++ [newCluster], s.geo.validCluster c = true := by
        intro c hc
        rcases List.mem_append.1 hc with hc | hc
        · exact hcs c hc
        · rw [List.mem_singleton.1 hc]
          exact hvalid
      cases chain.getLast? with
      | none => exact ih _ (by exact hlonger)
      | some last => exact ih _ (by exact hlonger)

theorem logged_writeLoop {s : Fat32} {chain : List Nat}
    (hcs : ∀ c ∈ chain, s.geo.validCluster c = true) (offset stop pos : Nat) (buf : List UInt8)
    (written : Nat) :
    Logged s (s.writeLoopCalls chain offset stop pos buf written)
      (s.writeLoop chain offset stop pos buf written).2 := by
  induction hn : stop - pos using Nat.strongRecOn generalizing s pos written with
  | ind n ih =>
    rw [writeLoopCalls, writeLoop]
    by_cases hlt : pos < stop
    · rw [dif_pos hlt, dif_pos hlt]
      simp only
      by_cases hidx : chain.length ≤ (pos - offset) / s.geo.bytesPerCluster
      · rw [if_pos hidx, if_pos hidx]
        exact Logged.refl s
      · rw [if_neg hidx, if_neg hidx]
        have hmem : chain.getD ((pos - offset) / s.geo.bytesPerCluster) 0 ∈ chain :=
          getD_mem (by omega)
        cases hr : s.readCluster (chain.getD ((pos - offset) / s.geo.bytesPerCluster) 0) with
        | none => exact Logged.refl s
        | some scratch =>
          have hmod := Nat.mod_lt pos s.geo.bytesPerCluster_pos
          have hw := logged_writeCluster (hcs _ hmem) (patch scratch (pos % s.geo.bytesPerCluster)
            ((buf.drop written).take
              (min (stop - pos) (s.geo.bytesPerCluster - pos % s.geo.bytesPerCluster))))
          simp only
          rcases hres : s.writeCluster (chain.getD ((pos - offset) / s.geo.bytesPerCluster) 0)
            (patch scratch (pos % s.geo.bytesPerCluster) ((buf.drop written).take
              (min (stop - pos) (s.geo.bytesPerCluster - pos % s.geo.bytesPerCluster)))) with
            ⟨ok, t⟩
          rw [hres] at hw
          cases ok with
          | false => simpa using hw
          | true => exact hw.append (ih _ (by omega) (hw.geo ▸ hcs) _ _ rfl)
    · rw [dif_neg hlt, dif_neg hlt]
      exact Logged.refl s

theorem logged_write (s : Fat32) (id offset : Nat) (buf : List UInt8) :
    Logged s (s.writeCalls id offset buf) (s.write id offset buf).2 := by
  unfold writeCalls write
  cases hi : s.inodes.get id with
  | none => exact Logged.refl s
  | some inode =>
    by_cases hd : inode.isDir = true
    · simpa [hd] using Logged.refl s
    · simp only [hd]
      obtain ⟨hgeo, hdisk, hvalid⟩ := extendChain_valid id
        (s.clustersFor ((offset + buf.length) % 2 ^ 64) -
          (s.clusterChain inode.firstCluster).length) inode (s.valid_clusterChain inode.firstCluster)
      rcases hext : extendChain id (s.clustersFor ((offset + buf.length) % 2 ^ 64) -
        (s.clusterChain inode.firstCluster).length) s inode
        (s.clusterChain inode.firstCluster) with ⟨r, t⟩
      rw [hext] at hgeo hdisk hvalid
      rcases r with e | ⟨inode', chain⟩
      · exact Logged.nil hgeo hdisk
      · simp only
        generalize hu : (if inode'.firstCluster = 0 ∧ chain ≠ [] then
          t.setFirstCluster id (chain.getD 0 0) else t) = u
        have hugeo : u.geo = s.geo := by rw [← hu]; split <;> exact hgeo
        have hudisk : u.disk = s.disk := by rw [← hu]; split <;> exact hdisk
        have hloop := (logged_writeLoop (s := u) (hugeo ▸ hvalid _ rfl) offset
          ((offset + buf.length) % 2 ^ 64) offset buf 0).after hugeo hudisk
        rcases hres : u.writeLoop chain offset ((offset + buf.length) % 2 ^ 64) offset buf 0 with
          ⟨r, v⟩
        rw [hres] at hloop
        cases r with
        | error e => simpa using hloop
        | ok written =>
          simp only
          generalize hw : (if inode'.size < (offset + buf.length) % 2 ^ 64 then
            v.setSize id ((offset + buf.length) % 2 ^ 64 % 2 ^ 32) else v) = w
          have hsized : Logged s _ w := hloop.before (by rw [← hw]; split <;> rfl)
            (by rw [← hw]; split <;> rfl)
          refine hsized.append ?_
          have hflush := logged_flushFat w
          rcases hfl : w.flushFat with ⟨ok, x⟩
          rw [hfl] at hflush
          cases ok with
          | false => simpa using hflush
          | true =>
            have hup := hflush.append (logged_updateDirEntrySize x id)
            simp only
            rcases hsz : x.updateDirEntrySize id with ⟨r, y⟩
            rw [hsz] at hup
            cases r <;> exact hup

section names

variable (upper : List UInt8 → List UInt8)

theorem logged_create (s : Fat32) (dirId : Nat) (name : List UInt8) :
    Logged s (s.createCalls upper dirId name) (s.create upper dirId name).2 := by
  unfold createCalls create
  cases hi : s.inodes.get dirId with
  | none => exact Logged.refl s
  | some dir =>
    by_cases hd : dir.isDir = false
    · simpa [hd] using Logged.refl s
    · simp only [if_neg hd]
      cases hfind : findEntry (s.readDirRaw dir.firstCluster) (toShortName upper name) with
      | some e => exact Logged.refl s
      | none =>
        have hdir := logged_writeDirEntry s dir.firstCluster (RawDirEntry.new
          (toShortName upper name) (toShortName_length upper name) attrArchive 0)
        simp only
        rcases hres : s.writeDirEntry dir.firstCluster (RawDirEntry.new
          (toShortName upper name) (toShortName_length upper name) attrArchive 0) true with ⟨r, t⟩
        rw [hres] at hdir
        cases r with
        | error e => simpa using hdir
        | ok =>
          have hflush := hdir.append (logged_flushFat t)
          simp only
          rcases hfl : t.flushFat with ⟨ok, u⟩
          rw [hfl] at hflush
          cases ok with
          | false => exact hflush
          | true => exact hflush.before (internInode_geo _ _ _ _) (internInode_disk _ _ _ _)

theorem logged_mkdir (s : Fat32) (dirId : Nat) (name : List UInt8) :
    Logged s (s.mkdirCalls upper dirId name) (s.mkdir upper dirId name).2 := by
  unfold mkdirCalls mkdir
  cases hi : s.inodes.get dirId with
  | none => exact Logged.refl s
  | some dir =>
    by_cases hd : dir.isDir = false
    · simpa [hd] using Logged.refl s
    · simp only [if_neg hd]
      cases hfind : findEntry (s.readDirRaw dir.firstCluster) (toShortName upper name) with
      | some e => exact Logged.refl s
      | none =>
        cases ha : s.allocCluster with
        | none => exact Logged.refl s
        | some r =>
          obtain ⟨newCluster, t⟩ := r
          obtain ⟨hvalid, -, ht⟩ := allocCluster_spec ha
          have hgeo : t.geo = s.geo := by rw [ht]; rfl
          have hdisk : t.disk = s.disk := by rw [ht]; rfl
          simp only
          generalize hbuf : patch (patch (List.replicate t.geo.bytesPerCluster 0) 0
            (RawDirEntry.new dotName dotName_length attrDir newCluster).pack) 32
            (RawDirEntry.new dotdotName dotdotName_length attrDir dir.firstCluster).pack = buf
          have hw := (logged_writeCluster (s := t) (hgeo ▸ hvalid) buf).after hgeo hdisk
          rcases hres : t.writeCluster newCluster buf with ⟨ok, u⟩
          rw [hres] at hw
          cases ok with
          | false => simpa using hw
          | true =>
            simp only
            refine hw.append ?_
            have hdir := logged_writeDirEntry u dir.firstCluster (RawDirEntry.new
              (toShortName upper name) (toShortName_length upper name) attrDir newCluster)
            rcases hent : u.writeDirEntry dir.firstCluster (RawDirEntry.new
              (toShortName upper name) (toShortName_length upper name) attrDir newCluster) true with
              ⟨r, v⟩
            rw [hent] at hdir
            cases r with
            | error e => simpa using hdir
            | ok =>
              have hflush := hdir.append (logged_flushFat v)
              simp only
              rcases hfl : v.flushFat with ⟨ok, w⟩
              rw [hfl] at hflush
              cases ok with
              | false => exact hflush
              | true => exact hflush.before (internInode_geo _ _ _ _) (internInode_disk _ _ _ _)

theorem logged_truncate (s : Fat32) (id size : Nat) :
    Logged s (s.truncateCalls id size) (s.truncate id size).2 := by
  unfold truncateCalls truncate
  cases hi : s.inodes.get id with
  | none => exact Logged.refl s
  | some inode =>
    by_cases hd : inode.isDir = true
    · simpa [hd] using Logged.refl s
    · simp only [if_neg hd]
      generalize ht : (if s.clustersFor (size % 2 ^ 32) < (s.clusterChain inode.firstCluster).length ∧
          s.clusterChain inode.firstCluster ≠ [] then
        if size % 2 ^ 32 = 0 then
          (((s.freeClusters ((s.clusterChain inode.firstCluster).drop
            (max (s.clustersFor (size % 2 ^ 32)) (if size % 2 ^ 32 = 0 then 0 else 1)))).setFat
              ((s.clusterChain inode.firstCluster).getD 0 0) fatFree).setFirstCluster id 0)
        else
          (s.freeClusters ((s.clusterChain inode.firstCluster).drop
            (max (s.clustersFor (size % 2 ^ 32)) (if size % 2 ^ 32 = 0 then 0 else 1)))).setFat
              ((s.clusterChain inode.firstCluster).getD
                (max (s.clustersFor (size % 2 ^ 32)) (if size % 2 ^ 32 = 0 then 0 else 1) - 1) 0)
              fatEoc
        else s) = t
      have hgeo : t.geo = s.geo := by
        rw [← ht]
        split
        · split <;> exact freeClusters_geo _ _
        · rfl
      have hdisk : t.disk = s.disk := by
        rw [← ht]
        split
        · split <;> exact freeClusters_disk _ _
        · rfl
      have hflush := (logged_flushFat (t.setSize id (size % 2 ^ 32))).after hgeo hdisk
      rcases hfl : (t.setSize id (size % 2 ^ 32)).flushFat with ⟨ok, u⟩
      rw [hfl] at hflush
      cases ok with
      | false => simpa using hflush
      | true => exact hflush.append (logged_updateDirEntrySize u id)

theorem logged_unlink (s : Fat32) (dirId : Nat) (name : List UInt8) :
    Logged s (s.unlinkCalls upper dirId name) (s.unlink upper dirId name).2 := by
  unfold unlinkCalls unlink
  cases hi : s.inodes.get dirId with
  | none => exact Logged.refl s
  | some dir =>
    by_cases hd : dir.isDir = false
    · simpa [hd] using Logged.refl s
    · simp only [if_neg hd]
      cases hfind : findEntry (s.readDirRaw dir.firstCluster) (toShortName upper name) with
      | none => exact Logged.refl s
      | some e =>
        simp only
        generalize ht : (if 2 ≤ e.firstCluster then s.freeChain e.firstCluster else s) = t
        have hgeo : t.geo = s.geo := by
          rw [← ht]
          split
          · exact freeClusters_geo _ _
          · rfl
        have hdisk : t.disk = s.disk := by
          rw [← ht]
          split
          · exact freeClusters_disk _ _
          · rfl
        have hrm := (logged_removeClusters (toShortName upper name)
          (t.valid_clusterChain dir.firstCluster)).after hgeo hdisk
        have hdef : t.removeClusters (toShortName upper name) (t.clusterChain dir.firstCluster) =
          t.removeDirEntry dir.firstCluster (toShortName upper name) := rfl
        rw [hdef] at hrm
        rcases hres : t.removeDirEntry dir.firstCluster (toShortName upper name) with ⟨r, u⟩
        rw [hres] at hrm
        cases r with
        | error e => simpa using hrm
        | ok =>
          have hflush := hrm.append (logged_flushFat u)
          simp only
          rcases hfl : u.flushFat with ⟨ok, v⟩
          rw [hfl] at hflush
          cases ok with
          | false => exact hflush
          | true =>
            simp only
            cases v.inodes.find? e.firstCluster e.isDir with
            | none => exact hflush
            | some victim => exact hflush.before rfl rfl

/-- The calls of an operation are what changes the disk. -/
theorem logged_exec (s : Fat32) (op : Op) : Logged s (op.calls upper s) (op.exec upper s) := by
  cases op with
  | create dirId name => exact logged_create upper s dirId name
  | mkdir dirId name => exact logged_mkdir upper s dirId name
  | lookup dirId name =>
    obtain ⟨hg, -, hd⟩ := lookup_frame upper s dirId name
    exact Logged.nil hg hd
  | readdir dirId =>
    obtain ⟨hg, -, hd⟩ := readdir_frame s dirId
    exact Logged.nil hg hd
  | write id offset buf => exact logged_write s id offset buf
  | truncate id size => exact logged_truncate s id size
  | unlink dirId name => exact logged_unlink upper s dirId name

end names

end steps

end AeroOS.Fat32
