import AeroOS.Fat32.NoCrossLink

/-!
# FAT32: the cached table and the copies on the disk

Each operation edits the cached table, flushes it, and writes nothing but
directory slots from then on.

* `SameTable` is a change that leaves the table alone, cached and on the disk.
  What an operation does behind its flush is one: a cluster lies above every
  copy of the table, whatever its number.
* `Held` is a change that leaves the volume where it is, and the table made of
  32-bit words.  What an operation does before its flush is one.
* `Flushed` is the shape of an operation that succeeds, and
  `cacheOnDisk_of_run` the result for runs.

Nothing here asks for the volume to fit on the disk: a transfer that reports
success wrote all of its buffer.
-/

namespace AeroOS.Fat32

open Bytes Ata Run

/-! ## The table on the disk -/

/-- Every copy of the table on the disk is the cached table. -/
def CopiesMatch (s : Fat32) : Prop :=
  ∀ i < s.geo.numFats,
    readBytes s.disk.bytes (512 * (s.geo.fatStart + i * s.geo.fatSz32)) s.geo.fatBytes =
      (List.range s.geo.fatLen).flatMap fun c => leBytes 4 (s.fatCache c)

/-- The table that is loaded from the disk is the cached one. -/
def Reloads (s : Fat32) : Prop :=
  ∃ t, mount s.geo s.disk = some t ∧ ∀ c < s.geo.fatLen, t.fatCache c = s.fatCache c

/-- The disk agrees with the cached table. -/
structure CacheOnDisk (s : Fat32) : Prop where
  copies : CopiesMatch s
  reload : Reloads s

section statement

variable (upper : List UInt8 → List UInt8)

/-- The operation writes to the volume. -/
def Op.Edits : Op → Prop
  | .lookup _ _ | .readdir _ => False
  | _ => True

/-- The operation succeeds.  A search of a directory may fail as well. -/
def Op.Succeeds (s : Fat32) : Op → Prop
  | .create dirId name => ∃ id, (s.create upper dirId name).1 = .ok id
  | .mkdir dirId name => ∃ id, (s.mkdir upper dirId name).1 = .ok id
  | .write id offset buf => ∃ n, (s.write id offset buf).1 = .ok n
  | .truncate id size => (s.truncate id size).1 = .ok ()
  | .unlink dirId name => (s.unlink upper dirId name).1 = .ok ()
  | .lookup _ _ | .readdir _ => True

/-- A run of operations that all succeed. -/
def SucceedingRun : Fat32 → Fat32 → Prop :=
  Reaches (fun s op s' => s' = op.exec upper s) (Op.Succeeds upper)

end statement

/-! ## Changes that leave the table alone -/

/-- From `s` to `s'` the table is the same, cached and on the disk. -/
structure SameTable (s s' : Fat32) : Prop where
  geo : s'.geo = s.geo
  fatCache : s'.fatCache = s.fatCache
  disk : SameBelow s.geo.dataAddr s.disk s'.disk

namespace SameTable

variable {s s' s'' : Fat32}

theorem refl (s : Fat32) : SameTable s s := ⟨rfl, rfl, SameBelow.refl _ _⟩

theorem trans (h : SameTable s s') (h' : SameTable s' s'') : SameTable s s'' :=
  ⟨h'.geo.trans h.geo, h'.fatCache.trans h.fatCache, h.disk.trans (h.geo ▸ h'.disk)⟩

/-- The disk was not written. -/
theorem of_eq (hg : s'.geo = s.geo) (hf : s'.fatCache = s.fatCache) (hd : s'.disk = s.disk) :
    SameTable s s' :=
  ⟨hg, hf, hd ▸ SameBelow.refl _ _⟩

theorem writeCluster (s : Fat32) (c : Nat) (buf : List UInt8) :
    SameTable s (s.writeCluster c buf).2 := by
  rw [Fat32.writeCluster]
  split
  · exact refl s
  · refine ⟨rfl, rfl, writeSectors_below _ _ ?_⟩
    exact Geometry.dataAddr_le_clusterAddr c

theorem internInode (s : Fat32) (first size : Nat) (isDir : Bool) :
    SameTable s (s.internInode first size isDir).2 :=
  of_eq (internInode_geo ..) (internInode_fatCache ..) (internInode_disk ..)

/-- A slot filled in the first pass. -/
theorem writeFreeSlot (s : Fat32) (entry : RawDirEntry) (cs : List Nat) :
    ∀ r ∈ s.writeFreeSlot entry cs, SameTable s r.2 := by
  induction cs with
  | nil =>
    intro r hr
    cases hr
  | cons c cs ih =>
    rw [Fat32.writeFreeSlot]
    cases s.readCluster c with
    | none =>
      rintro r ⟨⟩
      exact refl s
    | some buf =>
      simp only
      split
      · rename_i i _
        have hw := writeCluster s c (patch buf (i * 32) entry.pack)
        rcases hres : s.writeCluster c (patch buf (i * 32) entry.pack) with ⟨ok, t⟩
        rw [hres] at hw
        cases ok with
        | false =>
          rintro r ⟨⟩
          exact hw
        | true =>
          rintro r ⟨⟩
          exact hw
      · exact ih

/-- The mark of a removed entry. -/
theorem removeClusters (s : Fat32) (short : List UInt8) (cs : List Nat) :
    SameTable s (s.removeClusters short cs).2 := by
  induction cs with
  | nil => exact refl s
  | cons c cs ih =>
    rw [Fat32.removeClusters]
    cases s.readCluster c with
    | none => exact refl s
    | some buf =>
      simp only
      split
      · exact refl s
      · rename_i i _
        have hw := writeCluster s c (patch buf (i * 32) [0xE5])
        rcases hres : s.writeCluster c (patch buf (i * 32) [0xE5]) with ⟨ok, t⟩
        rw [hres] at hw
        cases ok with
        | false => exact hw
        | true => exact hw
      · exact ih

/-- The size field in the first slot that is hit. -/
theorem updateSizeClusters (s : Fat32) (target newSize : Nat) (cs subdirs : List Nat) :
    SameTable s (s.updateSizeClusters target newSize cs subdirs).2 := by
  induction cs generalizing subdirs with
  | nil => exact refl s
  | cons c cs ih =>
    rw [Fat32.updateSizeClusters]
    cases hr : s.readCluster c with
    | none => exact refl s
    | some buf =>
      simp only
      split
      · rename_i i _
        have hw := writeCluster s c (patch buf (i * 32 + 28) (leBytes 4 newSize))
        cases hres : s.writeCluster c (patch buf (i * 32 + 28) (leBytes 4 newSize)) with
        | mk ok t =>
          rw [hres] at hw
          cases ok with
          | false => exact hw
          | true => exact hw
      · exact ih _

theorem firstTrue {f : Fat32 → Nat → Except String Bool × Fat32}
    (hf : ∀ s d, SameTable s (f s d).2) (ds : List Nat) (s : Fat32) :
    SameTable s (firstTrue f ds s).2 := by
  induction ds generalizing s with
  | nil => exact refl s
  | cons d ds ih =>
    have hd := hf s d
    rw [Fat32.firstTrue]
    rcases hres : f s d with ⟨r, t⟩
    rw [hres] at hd
    rcases r with e | b
    · exact hd
    · cases b with
      | true => exact hd
      | false => exact hd.trans (ih t)

theorem updateSizeRecursive (depth : Nat) (s : Fat32) (d target newSize : Nat) :
    SameTable s (Fat32.updateSizeRecursive depth s d target newSize).2 := by
  induction depth generalizing s d with
  | zero => exact refl s
  | succ depth ih =>
    have hcl := updateSizeClusters s target newSize (s.clusterChain d) []
    rw [Fat32.updateSizeRecursive]
    rcases hres : s.updateSizeClusters target newSize (s.clusterChain d) [] with ⟨r, t⟩
    rw [hres] at hcl
    rcases r with e | _ | subdirs
    · exact hcl
    · exact hcl
    · exact hcl.trans (firstTrue (fun s d => ih s d) subdirs t)

theorem updateDirEntrySize (s : Fat32) (id : Nat) : SameTable s (s.updateDirEntrySize id).2 := by
  rw [Fat32.updateDirEntrySize]
  cases s.inodes.get id with
  | none => exact refl s
  | some inode =>
    simp only
    split
    · exact refl s
    · have hup := updateSizeRecursive s.maxDepth s s.geo.rootCluster inode.firstCluster inode.size
      rcases hres : Fat32.updateSizeRecursive s.maxDepth s s.geo.rootCluster inode.firstCluster
        inode.size with ⟨r, t⟩
      rw [hres] at hup
      cases r with
      | error e => exact hup
      | ok b => exact hup

/-- The data loop of `write`. -/
theorem writeLoop (s : Fat32) (chain : List Nat) (offset stop pos : Nat) (buf : List UInt8)
    (written : Nat) : SameTable s (s.writeLoop chain offset stop pos buf written).2 := by
  induction hn : stop - pos using Nat.strongRecOn generalizing s pos written with
  | ind n ih =>
    rw [Fat32.writeLoop]
    split
    swap
    · exact refl s
    have hmod := Nat.mod_lt pos s.geo.bytesPerCluster_pos
    simp only
    split
    · exact refl s
    cases s.readCluster (chain.getD ((pos - offset) / s.geo.bytesPerCluster) 0) with
    | none => exact refl s
    | some scratch =>
      simp only
      generalize hout : patch scratch (pos % s.geo.bytesPerCluster) _ = out
      have hw := writeCluster s (chain.getD ((pos - offset) / s.geo.bytesPerCluster) 0) out
      rcases hres : s.writeCluster (chain.getD ((pos - offset) / s.geo.bytesPerCluster) 0) out
        with ⟨ok, t⟩
      rw [hres] at hw
      cases ok with
      | false => exact hw
      | true => exact hw.trans (ih _ (by omega) t _ _ rfl)

end SameTable

/-! ## Changes before a flush -/

/-- From `s` to `s'` the volume stays where it is, and the table keeps 32-bit words. -/
structure Held (s s' : Fat32) : Prop where
  geo : s'.geo = s.geo
  present : s'.disk.present = s.disk.present
  words : Words s → Words s'

theorem SameTable.held {s s' : Fat32} (h : SameTable s s') : Held s s' :=
  ⟨h.geo, h.disk.present, fun hw x => by rw [h.fatCache]; exact hw x⟩

namespace Held

variable {s s' s'' : Fat32}

theorem refl (s : Fat32) : Held s s := ⟨rfl, rfl, id⟩

theorem trans (h : Held s s') (h' : Held s' s'') : Held s s'' :=
  ⟨h'.geo.trans h.geo, h'.present.trans h.present, h'.words ∘ h.words⟩

theorem setFat (s : Fat32) (c : Nat) {v : Nat} (hv : v < 2 ^ 32) : Held s (s.setFat c v) :=
  ⟨rfl, rfl, fun hw => hw.setFat c hv⟩

theorem allocCluster {c : Nat} (h : s.allocCluster = some (c, s')) : Held s s' ∧ c < 2 ^ 32 := by
  obtain ⟨hv, -, rfl⟩ := allocCluster_spec h
  exact ⟨setFat s c (by decide), Geometry.validCluster_lt hv⟩

theorem freeClusters (s : Fat32) (l : List Nat) : Held s (s.freeClusters l) := by
  refine ⟨freeClusters_geo s l, by rw [freeClusters_disk], fun hw x => ?_⟩
  rw [fatCache_freeClusters]
  split
  · decide
  · exact hw x

theorem flushCopies (g : Geometry) (table : List UInt8) (n i : Nat) (d : Disk) :
    (Fat32.flushCopies g table n i d).2.present = d.present := by
  induction n generalizing i d with
  | zero => rfl
  | succ n ih =>
    have hw := (writeSectors_below d table (Nat.zero_le (512 * (g.fatStart + i * g.fatSz32)))).present
    rw [Fat32.flushCopies]
    rcases hres : writeSectors d (g.fatStart + i * g.fatSz32) table with ⟨ok, d'⟩
    rw [hres] at hw
    cases ok with
    | false => exact hw
    | true => exact (ih (i + 1) d').trans hw

theorem flushFat (s : Fat32) : Held s s.flushFat.2 := by
  have hw := (writeSectors_below s.disk s.fatTable (Nat.zero_le (512 * s.geo.fatStart))).present
  rw [Fat32.flushFat]
  rcases hres : writeSectors s.disk s.geo.fatStart s.fatTable with ⟨ok, d⟩
  rw [hres] at hw
  cases ok with
  | false => exact ⟨rfl, hw, id⟩
  | true => exact ⟨rfl, (flushCopies s.geo s.fatTable (s.geo.numFats - 1) 1 d).trans hw, id⟩

theorem writeDirEntry (s : Fat32) (d : Nat) (entry : RawDirEntry) (createNew : Bool) :
    Held s (s.writeDirEntry d entry createNew).2 := by
  have hslot := SameTable.writeFreeSlot s entry (s.clusterChain d)
  rw [Fat32.writeDirEntry]
  cases hfree : s.writeFreeSlot entry (s.clusterChain d) with
  | some r => exact (hslot r hfree).held
  | none =>
    simp only
    split
    · exact refl s
    cases halloc : s.allocCluster with
    | none => exact refl s
    | some p =>
      obtain ⟨c, s₁⟩ := p
      obtain ⟨h₁, hc⟩ := allocCluster halloc
      cases (s.clusterChain d).getLast? with
      | none => exact h₁
      | some last =>
        simp only
        have h₂ := h₁.trans ((setFat s₁ last hc).trans (setFat _ c (v := fatEoc) (by decide)))
        generalize (s₁.setFat last c).setFat c fatEoc = s₂ at *
        have hw := (SameTable.writeCluster s₂ c
          (patch (List.replicate s₂.geo.bytesPerCluster 0) 0 entry.pack)).held
        rcases hres : s₂.writeCluster c
          (patch (List.replicate s₂.geo.bytesPerCluster 0) 0 entry.pack) with ⟨ok, s₃⟩
        rw [hres] at hw
        cases ok with
        | false => exact h₂.trans hw
        | true =>
          have hf := h₂.trans (hw.trans (flushFat s₃))
          simp only
          rcases hfl : s₃.flushFat with ⟨ok, s₄⟩
          rw [hfl] at hf
          cases ok with
          | false => exact hf
          | true => exact hf

/-- The loop of `write` that makes the chain long enough. -/
theorem extendChain (id n : Nat) (s : Fat32) (inode : FatInode) (chain : List Nat) :
    Held s (Fat32.extendChain id n s inode chain).2 := by
  induction n generalizing s inode chain with
  | zero => exact refl s
  | succ n ih =>
    rw [Fat32.extendChain]
    cases halloc : s.allocCluster with
    | none => exact refl s
    | some p =>
      obtain ⟨c, s₁⟩ := p
      obtain ⟨h₁, hc⟩ := allocCluster halloc
      simp only
      cases chain.getLast? with
      | none =>
        have hset : Held s₁ (s₁.setFirstCluster id c) := ⟨rfl, rfl, fun h => h⟩
        exact h₁.trans (hset.trans (ih _ _ _))
      | some last => exact h₁.trans ((setFat s₁ last hc).trans (ih _ _ _))

end Held

/-! ## The flush -/

theorem flushCopies_of_ok {g : Geometry} {table : List UInt8} {n i : Nat} {d d' : Disk}
    (h : flushCopies g table n i d = (true, d')) :
    d' = { d with bytes := writeCopies g table n i d.bytes } := by
  induction n generalizing i d with
  | zero => exact (Prod.mk.inj h).2.symm
  | succ n ih =>
    rw [flushCopies] at h
    rcases hres : writeSectors d (g.fatStart + i * g.fatSz32) table with ⟨ok, d₁⟩
    rw [hres] at h
    cases ok with
    | false => cases h
    | true =>
      rw [ih h, writeSectors_of_ok hres]
      rfl

/-- A flush that reports success rewrote every copy of the table. -/
theorem flushFat_of_ok {s s' : Fat32} (hn : 1 ≤ s.geo.numFats) (h : s.flushFat = (true, s')) :
    s' = s.setBytes s.flushedBytes := by
  rw [flushFat] at h
  rcases hres : writeSectors s.disk s.geo.fatStart s.fatTable with ⟨ok, d⟩
  rw [hres] at h
  cases ok with
  | false => cases h
  | true =>
    simp only [Prod.mk.injEq] at h
    obtain ⟨hok, rfl⟩ := h
    have hcopies : flushCopies s.geo s.fatTable (s.geo.numFats - 1) 1 d =
        (true, (flushCopies s.geo s.fatTable (s.geo.numFats - 1) 1 d).2) := Prod.ext hok rfl
    have hone : s.geo.numFats = s.geo.numFats - 1 + 1 := by omega
    rw [flushCopies_of_ok hcopies, writeSectors_of_ok hres, flushedBytes, hone, writeCopies,
      Nat.zero_mul, Nat.add_zero]
    rfl

/-- Every copy of the table is the cached one behind a flush. -/
theorem copiesMatch_flushed (s : Fat32) : CopiesMatch (s.setBytes s.flushedBytes) := by
  intro i hi
  refine (readBytes_writeCopies s.fatTable_length (Nat.zero_le i) ?_ s.disk.bytes).trans
    s.fatTable_eq
  rw [Nat.zero_add]
  exact hi

/-- The copies lie below the data region. -/
theorem SameTable.readBytes_copy {s s' : Fat32} (h : SameTable s s') {i : Nat}
    (hi : i < s.geo.numFats) :
    readBytes s'.disk.bytes (512 * (s.geo.fatStart + i * s.geo.fatSz32)) s.geo.fatBytes =
      readBytes s.disk.bytes (512 * (s.geo.fatStart + i * s.geo.fatSz32)) s.geo.fatBytes := by
  have hmul := Nat.mul_le_mul_right s.geo.fatSz32 (show i + 1 ≤ s.geo.numFats from hi)
  rw [Nat.add_mul, Nat.one_mul] at hmul
  refine readBytes_congr fun x _ hx => h.disk.bytes x ?_
  rw [s.geo.fatBytes_eq] at hx
  simp only [Geometry.dataAddr, Geometry.fatStart, Geometry.dataStartLba] at *
  omega

theorem CopiesMatch.of_sameTable {s s' : Fat32} (h : CopiesMatch s) (hst : SameTable s s') :
    CopiesMatch s' := by
  intro i hi
  rw [hst.geo] at hi
  rw [hst.geo, hst.fatCache, ← h i hi]
  exact hst.readBytes_copy hi

/-! ## The shape of an operation -/

/-- From `s` to `s'` by a change, a flush, and a change that leaves the table alone. -/
def Flushed (s s' : Fat32) : Prop :=
  ∃ u u', Held s u ∧ u.flushFat = (true, u') ∧ SameTable u' s'

theorem Flushed.held {s s' : Fat32} (h : Flushed s s') : Held s s' := by
  obtain ⟨u, u', hu, hflush, hst⟩ := h
  have hf := Held.flushFat u
  rw [hflush] at hf
  exact hu.trans (hf.trans hst.held)

theorem Flushed.copiesMatch {s s' : Fat32} (hn : 1 ≤ s.geo.numFats) (h : Flushed s s') :
    CopiesMatch s' := by
  obtain ⟨u, u', hu, hflush, hst⟩ := h
  rw [← hu.geo] at hn
  rw [flushFat_of_ok hn hflush] at hst
  exact u.copiesMatch_flushed.of_sameTable hst

section operations

variable {upper : List UInt8 → List UInt8} {s : Fat32}

theorem create_flushed {dirId id : Nat} {name : List UInt8}
    (h : (s.create upper dirId name).1 = .ok id) : Flushed s (s.create upper dirId name).2 := by
  unfold create at h ⊢
  cases hi : s.inodes.get dirId with
  | none => simp [hi] at h
  | some dir =>
    simp only [hi] at h ⊢
    split at h
    · cases h
    rename_i hd
    rw [if_neg hd]
    cases hfind : findEntry (s.readDirRaw dir.firstCluster) (toShortName upper name) with
    | some e => simp [hfind] at h
    | none =>
      simp only [hfind] at h ⊢
      generalize RawDirEntry.new _ _ _ _ = entry at *
      have hw := Held.writeDirEntry s dir.firstCluster entry true
      rcases hres : s.writeDirEntry dir.firstCluster entry true with ⟨r, u⟩
      rw [hres] at hw
      cases r with
      | error e => simp [hres] at h
      | ok _ =>
        simp only [hres] at h ⊢
        rcases hfl : u.flushFat with ⟨ok, u'⟩
        cases ok with
        | false => simp [hfl] at h
        | true => exact ⟨u, u', hw, hfl, SameTable.internInode u' 0 0 false⟩

theorem mkdir_flushed {dirId id : Nat} {name : List UInt8}
    (h : (s.mkdir upper dirId name).1 = .ok id) : Flushed s (s.mkdir upper dirId name).2 := by
  unfold mkdir at h ⊢
  cases hi : s.inodes.get dirId with
  | none => simp [hi] at h
  | some dir =>
    simp only [hi] at h ⊢
    split at h
    · cases h
    rename_i hd
    rw [if_neg hd]
    cases hfind : findEntry (s.readDirRaw dir.firstCluster) (toShortName upper name) with
    | some e => simp [hfind] at h
    | none =>
      simp only [hfind] at h ⊢
      cases halloc : s.allocCluster with
      | none => simp [halloc] at h
      | some p =>
        obtain ⟨c, s₁⟩ := p
        obtain ⟨h₁, -⟩ := Held.allocCluster halloc
        simp only [halloc] at h ⊢
        generalize patch _ _ _ = buf at *
        have hc := (SameTable.writeCluster s₁ c buf).held
        rcases hres : s₁.writeCluster c buf with ⟨ok, s₂⟩
        rw [hres] at hc
        cases ok with
        | false => simp [hres] at h
        | true =>
          simp only [hres] at h ⊢
          generalize RawDirEntry.new (toShortName upper name) _ _ _ = entry at *
          have hw := Held.writeDirEntry s₂ dir.firstCluster entry true
          rcases hres : s₂.writeDirEntry dir.firstCluster entry true with ⟨r, u⟩
          rw [hres] at hw
          cases r with
          | error e => simp [hres] at h
          | ok _ =>
            simp only [hres] at h ⊢
            rcases hfl : u.flushFat with ⟨ok, u'⟩
            cases ok with
            | false => simp [hfl] at h
            | true =>
              exact ⟨u, u', h₁.trans (hc.trans hw), hfl, SameTable.internInode u' c 0 true⟩

/-- The table edit of `truncate`. -/
theorem Held.cutFile (s : Fat32) (id : Nat) (chain : List Nat) (newSize : Nat) :
    Held s (s.cutFile id chain newSize) := by
  rw [Fat32.cutFile]
  split
  · have hfree := Held.freeClusters s
    simp only
    split
    · exact (hfree _).trans ((Held.setFat _ _ (v := fatFree) (by decide)).trans
        ⟨rfl, rfl, fun h => h⟩)
    · exact (hfree _).trans (Held.setFat _ _ (by decide))
  · exact Held.refl s

theorem truncate_flushed {id size : Nat} (h : (s.truncate id size).1 = .ok ()) :
    Flushed s (s.truncate id size).2 := by
  cases hi : s.inodes.get id with
  | none => simp [truncate, hi] at h
  | some inode =>
    cases hk : inode.isDir with
    | true => simp [truncate, hi, hk] at h
    | false =>
      rw [truncate_eq hi hk, commit] at h ⊢
      have hcut := Held.cutFile s id (s.clusterChain inode.firstCluster) (size % 2 ^ 32)
      generalize s.cutFile id (s.clusterChain inode.firstCluster) (size % 2 ^ 32) = t at *
      have hsize : Held t (t.setSize id (size % 2 ^ 32)) := ⟨rfl, rfl, fun h => h⟩
      rcases hfl : (t.setSize id (size % 2 ^ 32)).flushFat with ⟨ok, u'⟩
      rw [hfl] at h
      cases ok with
      | false => cases h
      | true => exact ⟨_, u', hcut.trans hsize, hfl, SameTable.updateDirEntrySize u' id⟩

theorem unlink_flushed {dirId : Nat} {name : List UInt8}
    (h : (s.unlink upper dirId name).1 = .ok ()) : Flushed s (s.unlink upper dirId name).2 := by
  unfold unlink at h ⊢
  cases hi : s.inodes.get dirId with
  | none => simp [hi] at h
  | some dir =>
    simp only [hi] at h ⊢
    split at h
    · cases h
    rename_i hd
    rw [if_neg hd]
    cases hfind : findEntry (s.readDirRaw dir.firstCluster) (toShortName upper name) with
    | none => simp [hfind] at h
    | some t =>
      simp only [hfind] at h ⊢
      generalize hs₁ : (if 2 ≤ t.firstCluster then s.freeChain t.firstCluster else s) = s₁
        at h ⊢
      have hfree : Held s s₁ := by
        rw [← hs₁]
        split
        · exact Held.freeClusters s _
        · exact Held.refl s
      have hrem := (SameTable.removeClusters s₁ (toShortName upper name)
        (s₁.clusterChain dir.firstCluster)).held
      rw [removeDirEntry] at h ⊢
      rcases hres : s₁.removeClusters (toShortName upper name)
        (s₁.clusterChain dir.firstCluster) with ⟨r, u⟩
      rw [hres] at hrem
      cases r with
      | error e => simp [hres] at h
      | ok _ =>
        simp only [hres] at h ⊢
        rcases hfl : u.flushFat with ⟨ok, u'⟩
        cases ok with
        | false => simp [hfl] at h
        | true =>
          refine ⟨u, u', hfree.trans hrem, hfl, ?_⟩
          simp only
          split
          · exact SameTable.refl u'
          · exact SameTable.of_eq rfl rfl rfl

theorem write_flushed {id offset n : Nat} {buf : List UInt8}
    (h : (s.write id offset buf).1 = .ok n) : Flushed s (s.write id offset buf).2 := by
  unfold write at h ⊢
  cases hi : s.inodes.get id with
  | none => simp [hi] at h
  | some inode =>
    simp only [hi] at h ⊢
    split at h
    · cases h
    rename_i hd
    rw [if_neg hd]
    generalize (offset + buf.length) % 2 ^ 64 = stop at *
    have hext := Held.extendChain id
      (s.clustersFor stop - (s.clusterChain inode.firstCluster).length) s inode
      (s.clusterChain inode.firstCluster)
    rcases hres : extendChain id
      (s.clustersFor stop - (s.clusterChain inode.firstCluster).length) s inode
      (s.clusterChain inode.firstCluster) with ⟨r, s₁⟩
    rw [hres] at hext
    cases r with
    | error e => simp [hres] at h
    | ok p =>
      obtain ⟨inode', chain⟩ := p
      simp only [hres] at h ⊢
      generalize hs₂ : (if inode'.firstCluster = 0 ∧ chain ≠ [] then
        s₁.setFirstCluster id (chain.getD 0 0) else s₁) = s₂ at h ⊢
      have hhead : Held s₁ s₂ := by
        rw [← hs₂]
        split
        · exact ⟨rfl, rfl, fun h => h⟩
        · exact Held.refl s₁
      have hloop := (SameTable.writeLoop s₂ chain offset stop offset buf 0).held
      rcases hres : s₂.writeLoop chain offset stop offset buf 0 with ⟨r, s₃⟩
      rw [hres] at hloop
      cases r with
      | error e => simp [hres] at h
      | ok written =>
        simp only [hres] at h ⊢
        generalize hs₄ : (if inode'.size < stop then s₃.setSize id (stop % 2 ^ 32) else s₃) = s₄
          at h ⊢
        have hsize : Held s₃ s₄ := by
          rw [← hs₄]
          split
          · exact ⟨rfl, rfl, fun h => h⟩
          · exact Held.refl s₃
        rcases hfl : s₄.flushFat with ⟨ok, u'⟩
        cases ok with
        | false => simp [hfl] at h
        | true =>
          simp only [hfl] at h ⊢
          have hend := SameTable.updateDirEntrySize u' id
          refine ⟨s₄, u', hext.trans (hhead.trans (hloop.trans hsize)), hfl, ?_⟩
          rcases hres : u'.updateDirEntrySize id with ⟨r, s₅⟩
          rw [hres] at hend
          cases r with
          | error e => exact hend
          | ok _ => exact hend

/-- Every operation that writes and succeeds flushes the table behind its last edit. -/
theorem Op.Succeeds.flushed {op : Op} (h : op.Succeeds upper s) (he : op.Edits) :
    Flushed s (op.exec upper s) := by
  cases op with
  | create dirId name => exact create_flushed h.choose_spec
  | mkdir dirId name => exact mkdir_flushed h.choose_spec
  | lookup dirId name => cases he
  | readdir dirId => cases he
  | write id offset buf => exact write_flushed h.choose_spec
  | truncate id size => exact truncate_flushed h
  | unlink dirId name => exact unlink_flushed h

/-- A search of a directory does not write. -/
theorem Op.sameTable_of_not_edits {op : Op} (he : ¬ op.Edits) :
    SameTable s (op.exec upper s) := by
  cases op with
  | lookup dirId name =>
    obtain ⟨hg, hf, hd⟩ := lookup_frame upper s dirId name
    exact SameTable.of_eq hg hf hd
  | readdir dirId =>
    obtain ⟨hg, hf, hd⟩ := readdir_frame s dirId
    exact SameTable.of_eq hg hf hd
  | create _ _ | mkdir _ _ | write _ _ _ | truncate _ _ | unlink _ _ => exact absurd trivial he

end operations

/-! ## Runs -/

/-- The table can be read, and the cached one is made of 32-bit words. -/
structure Loadable (s : Fat32) : Prop where
  numFats_pos : 1 ≤ s.geo.numFats
  present : s.disk.present = true
  readable : ∃ table, readSectors s.disk s.geo.fatStart s.geo.fatBytes = some table
  words : Words s

theorem Loadable.of_mount {geo : Geometry} {disk : Disk} {s : Fat32}
    (h : mount geo disk = some s) (hn : 1 ≤ geo.numFats) : Loadable s ∧ Reloads s := by
  have hmount := h
  rw [mount, Option.map_eq_some_iff] at h
  obtain ⟨table, hread, rfl⟩ := h
  have hp : disk.present = true := by
    by_contra hp
    simp [readSectors, hp] at hread
  refine ⟨⟨hn, hp, ⟨table, hread⟩, fun x => ?_⟩, ⟨_, hmount, fun _ _ => rfl⟩⟩
  have hlt := leNat_lt (readBytes (table.getD · 0) (x * 4) 4)
  rw [readBytes_length] at hlt
  exact hlt

namespace Loadable

variable {s s' : Fat32}

theorem read_eq (h : Loadable s) : readSectors s.disk s.geo.fatStart s.geo.fatBytes =
    some (readBytes s.disk.bytes (512 * s.geo.fatStart) s.geo.fatBytes) := by
  obtain ⟨table, hread⟩ := h.readable
  exact readSectors_of_some hread h.present

theorem held (h : Loadable s) (hh : Held s s') : Loadable s' := by
  obtain ⟨table, hread⟩ := h.readable
  have hp := hh.present.trans h.present
  exact ⟨hh.geo ▸ h.numFats_pos, hp, ⟨_, hh.geo ▸ readSectors_of_some hread hp⟩, hh.words h.words⟩

/-- What is loaded from copies of the cached table. -/
theorem reloads (h : Loadable s) (hc : CopiesMatch s) : Reloads s := by
  have h0 := hc 0 h.numFats_pos
  rw [Nat.zero_mul, Nat.add_zero, ← fatTable_eq] at h0
  refine ⟨_, by rw [mount, h.read_eq, h0]; rfl, fun c hc => ?_⟩
  exact (fatOfBytes_fatTable s hc).trans (Nat.mod_eq_of_lt (h.words c))

end Loadable

theorem Reloads.of_sameTable {s s' : Fat32} (h : Reloads s) (hl : Loadable s)
    (hst : SameTable s s') : Reloads s' := by
  obtain ⟨t, hmount, ht⟩ := h
  have h0 := hst.readBytes_copy hl.numFats_pos
  rw [Nat.zero_mul, Nat.add_zero] at h0
  have hl' := (hl.held hst.held).read_eq
  rw [hst.geo, h0] at hl'
  rw [mount, hl.read_eq, Option.map_some, Option.some.injEq] at hmount
  refine ⟨_, by rw [mount, hst.geo, hl']; rfl, fun c hc => ?_⟩
  rw [hst.fatCache, ← ht c (hst.geo ▸ hc), ← hmount]

section run

variable {upper : List UInt8 → List UInt8} {s s' : Fat32}

/-- A step of a run keeps the agreement, and an edit makes it. -/
theorem Op.Succeeds.sync {op : Op} (h : op.Succeeds upper s) (hl : Loadable s) :
    Loadable (op.exec upper s) ∧ (Reloads s → Reloads (op.exec upper s)) ∧
      (op.Edits ∨ CopiesMatch s → CopiesMatch (op.exec upper s)) := by
  by_cases he : op.Edits
  · have hf := h.flushed he
    have hl' := hl.held hf.held
    have hc := hf.copiesMatch hl.numFats_pos
    exact ⟨hl', fun _ => hl'.reloads hc, fun _ => hc⟩
  · have hst : SameTable s (op.exec upper s) := Op.sameTable_of_not_edits he
    refine ⟨hl.held hst.held, fun hr => hr.of_sameTable hl hst, ?_⟩
    rintro (he' | hc)
    · exact absurd he' he
    · exact hc.of_sameTable hst

theorem SucceedingRun.reloads (h : SucceedingRun upper s s') (hl : Loadable s ∧ Reloads s) :
    Loadable s' ∧ Reloads s' := by
  refine Reaches.invariant (I := fun s => Loadable s ∧ Reloads s) ?_ h hl
  rintro s op _ ⟨hl, hr⟩ hok rfl
  obtain ⟨hl', hr', -⟩ := hok.sync hl
  exact ⟨hl', hr' hr⟩

theorem SucceedingRun.copiesMatch (h : SucceedingRun upper s s') (hl : Loadable s)
    (hc : CopiesMatch s) : CopiesMatch s' := by
  have hinv : Loadable s' ∧ CopiesMatch s' := by
    refine Reaches.invariant (I := fun s => Loadable s ∧ CopiesMatch s) ?_ h ⟨hl, hc⟩
    rintro s op _ ⟨hl, hc⟩ hok rfl
    obtain ⟨hl', -, hc'⟩ := hok.sync hl
    exact ⟨hl', hc' (Or.inr hc)⟩
  exact hinv.2

end run

/-- On a volume with a copy of the table, in every run of operations that succeed: the
table that would be loaded from the disk is the cached one, and from the first operation
that writes on, every copy on the disk is the cached table. -/
theorem cacheOnDisk_of_run {upper : List UInt8 → List UInt8} {geo : Geometry} {disk : Disk}
    {s₀ s : Fat32} (hmount : mount geo disk = some s₀) (hfats : 1 ≤ geo.numFats)
    (hrun : SucceedingRun upper s₀ s) :
    Reloads s ∧ ∀ (op : Op) (s' : Fat32), op.Edits → op.Succeeds upper s →
      SucceedingRun upper (op.exec upper s) s' → CacheOnDisk s' := by
  obtain ⟨hl, hr⟩ := hrun.reloads (Loadable.of_mount hmount hfats)
  refine ⟨hr, fun op s' he hok hrun' => ?_⟩
  obtain ⟨hl₁, hr₁, hc₁⟩ := hok.sync hl
  exact ⟨hrun'.copiesMatch hl₁ (hc₁ (Or.inl he)), (hrun'.reloads ⟨hl₁, hr₁ hr⟩).2⟩

/-- The empty volume behind its first `create`. -/
theorem cacheOnDisk_of_run_create :
    (Op.create 1 [0x41]).Succeeds (fun x => x) emptyMount ∧
      CacheOnDisk ((Op.create 1 [0x41]).exec (fun x => x) emptyMount) := by
  have hmount : mount smallGeometry (flatDisk smallGeometry rootFat []) = some emptyMount :=
    flat_empty.mount_eq
  have hok : (Op.create 1 [0x41]).Succeeds (fun x => x) emptyMount := by
    obtain ⟨a, s, -, hcreate, -⟩ := emptyMount_create (fun x => x) [0x41]
    exact ⟨_, congrArg Prod.fst hcreate⟩
  exact ⟨hok, (cacheOnDisk_of_run hmount (by decide) (Reaches.refl emptyMount)).2
    (.create 1 [0x41]) _ trivial hok (Reaches.refl _)⟩

end AeroOS.Fat32
