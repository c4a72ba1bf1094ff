import AeroOS.Fat32.OutOfClusters
import AeroOS.Fat32.Removal

/-!
# FAT32: what the directory operations leave, in any state

The steps of `create`, `mkdir` and `unlink` without assumptions on the chains: a
chain may have a cycle, run through a free cluster or share clusters with another.

* `entryAt_pack_of_ne`, `entryAt_fresh` and `entryAt_fresh_of_not_mem`: the slots
  after a write of an entry or of a new cluster.
* `writeDirEntry_shape` and `mkdir_shape` are the steps as edits of the table and
  writes to the disk.
* `Keeps`: a directory has no more entries than before, a new one apart.
  `create_enters`, `mkdir_enters` and `unlink_enters` say so of the operations.
-/

namespace AeroOS.Fat32

open Bytes

variable {upper : List UInt8 → List UInt8} {s s' : Fat32} {a b c d : Nat} {cs : List Nat}
  {e : RawDirEntry} {es : List RawDirEntry} {m : Store}

/-! ## Slots -/

theorem entryAt_congr {t : Fat32} (h : ∀ i, i < 32 → t.disk.bytes (a + i) = s.disk.bytes (a + i)) :
    t.entryAt a = s.entryAt a := RawDirEntry.ofBytes_congr h

/-- Another slot than the one that an entry is written to. -/
theorem entryAt_pack_of_ne {ds : List Nat} (ha : a ∈ s.geo.slotsOf cs) (hb : b ∈ s.geo.slotsOf ds)
    (hne : b ≠ a) : (s.setBytes (writeBytes s.disk.bytes a e.pack)).entryAt b = s.entryAt b := by
  refine entryAt_congr fun i hi => writeBytes_out _ ?_
  have := Geometry.slot_disjoint ha hb (Ne.symm hne)
  rw [e.pack_length]
  omega

/-- A slot of another cluster than the one that is filled. -/
theorem entryAt_fresh_of_not_mem (hfit : es.length * 32 ≤ s.geo.bytesPerCluster)
    (hc : 2 ≤ c) (hm : ∀ x, s.geo.dataAddr ≤ x →
      m x = writeBytes s.disk.bytes (s.geo.clusterAddr c) (freshCluster s.geo es) x)
    (hcs : ∀ c' ∈ cs, s.geo.validCluster c' = true) (ha : a ∈ s.geo.slotsOf cs)
    (hnot : a ∉ s.geo.slotsOf [c]) : (s.setBytes m).entryAt a = s.entryAt a := by
  obtain ⟨c', hc', i, hi, rfl⟩ := Geometry.mem_slotsOf.mp ha
  have hne : c' ≠ c := by
    rintro rfl
    exact hnot (Geometry.mem_slotsOf.mpr ⟨c', List.mem_singleton_self _, i, hi, rfl⟩)
  refine entryAt_congr fun j hj => ?_
  have hin : s.geo.InCluster c' (s.geo.clusterAddr c' + i * 32 + j) := by
    rw [Nat.add_assoc]
    exact Geometry.inCluster_add (by omega)
  rw [setBytes_bytes, hm _ hin.dataAddr_le]
  refine writeBytes_out _ ?_
  rw [freshCluster_length hfit]
  by_contra hmeet
  exact hne (Geometry.InCluster.unique (Geometry.validCluster_iff.mp (hcs c' hc')).1 hc hin
    ⟨by omega, by omega⟩)

/-- A slot of the cluster that is filled. -/
theorem entryAt_fresh (hm : ∀ x, s.geo.dataAddr ≤ x →
      m x = writeBytes s.disk.bytes (s.geo.clusterAddr c) (freshCluster s.geo es) x)
    (i : Nat) : (s.setBytes m).entryAt (s.geo.clusterAddr c + i * 32) =
      RawDirEntry.ofBytes (writeBytes s.disk.bytes (s.geo.clusterAddr c) (freshCluster s.geo es))
        (s.geo.clusterAddr c + i * 32) := by
  refine RawDirEntry.ofBytes_congr fun j hj => hm _ ?_
  have := s.geo.dataAddr_le_clusterAddr c
  omega

/-! ## `write_dir_entry` -/

/-- The table with cluster `c` taken and hung behind `last`. -/
def linkFat (s : Fat32) (last c : Nat) : Fat32 :=
  ((s.setFat c fatEoc).setFat last c).setFat c fatEoc

@[simp] theorem linkFat_geo (s : Fat32) (last c : Nat) : (s.linkFat last c).geo = s.geo := rfl
@[simp] theorem linkFat_inodes (s : Fat32) (last c : Nat) :
    (s.linkFat last c).inodes = s.inodes := rfl
@[simp] theorem linkFat_disk (s : Fat32) (last c : Nat) : (s.linkFat last c).disk = s.disk := rfl

theorem one_fits (g : Geometry) (e : RawDirEntry) : [e].length * 32 ≤ g.bytesPerCluster := by
  have := g.sectorsPerCluster_pos
  rw [g.bytesPerCluster_eq, List.length_singleton]
  omega

/-- The entry goes into the first free slot, or into a cluster hung behind the
chain; or nothing is written, because every cluster is taken or there is no chain. -/
theorem writeDirEntry_shape (hs : Sound s) (d : Nat) (e : RawDirEntry) :
    (∃ err, Full s ∧ (∀ a ∈ s.slotAddrs d, (s.entryAt a).isFree = false) ∧
      s.writeDirEntry d e true = (.error err, s)) ∨
    (∃ c err, s.geo.validCluster c = true ∧ s.fatCache c = 0 ∧ s.clusterChain d = [] ∧
      s.writeDirEntry d e true = (.error err, s.setFat c fatEoc)) ∨
    (∃ a ∈ s.slotAddrs d, (s.entryAt a).isFree = true ∧
      s.writeDirEntry d e true = (.ok (), s.setBytes (writeBytes s.disk.bytes a e.pack))) ∨
    ∃ c last m, s.geo.validCluster c = true ∧ s.fatCache c = 0 ∧
      (s.clusterChain d).getLast? = some last ∧
      (∀ a ∈ s.slotAddrs d, (s.entryAt a).isFree = false) ∧
      (∀ x, s.geo.dataAddr ≤ x →
        m x = writeBytes s.disk.bytes (s.geo.clusterAddr c) (freshCluster s.geo [e]) x) ∧
      s.writeDirEntry d e true = (.ok (), (s.linkFat last c).setBytes m) := by
  by_cases hroom : ∃ a ∈ s.slotAddrs d, (s.entryAt a).isFree = true
  · exact Or.inr (Or.inr (Or.inl (writeDirEntry_free hs e hroom)))
  · have hused : ∀ a ∈ s.slotAddrs d, (s.entryAt a).isFree = false := by
      intro a ha
      simpa using fun hfree => hroom ⟨a, ha, hfree⟩
    rw [writeDirEntry, writeFreeSlot_full hs e hroom]
    simp only [Bool.true_eq_false, if_false]
    cases halloc : s.allocCluster with
    | none => exact Or.inl ⟨_, allocCluster_eq_none.mp halloc, hused, rfl⟩
    | some p =>
      obtain ⟨c, s₁⟩ := p
      obtain ⟨hv, hc, rfl⟩ := allocCluster_spec halloc
      cases hgl : (s.clusterChain d).getLast? with
      | none => exact Or.inr (Or.inl ⟨c, _, hv, hc, List.getLast?_eq_none_iff.mp hgl, rfl⟩)
      | some last =>
        have hlink : Sound (s.linkFat last c) := hs.of_eq rfl rfl
        have hwrite : (s.linkFat last c).writeCluster c (freshCluster s.geo [e]) =
            (true, (s.linkFat last c).setBytes
              (writeBytes s.disk.bytes (s.geo.clusterAddr c) (freshCluster s.geo [e]))) :=
          writeCluster_eq hlink hv (freshCluster_length (one_fits s.geo e))
        simp only [setFat_geo, freshCluster_one]
        rw [← linkFat, hwrite]
        simp only
        rw [flushFat_eq (hlink.setBytes _), setBytes_setBytes]
        refine Or.inr (Or.inr (Or.inr ⟨c, last, _, hv, hc, rfl, hused, ?_, rfl⟩))
        intro x hx
        exact flushedBytes_out _ hx

theorem writeDirEntry_frame (hs : Sound s) {r : Except String Unit} {t : Fat32}
    (h : s.writeDirEntry d e true = (r, t)) : t.geo = s.geo ∧ t.inodes = s.inodes ∧
      t.disk.present = s.disk.present := by
  rcases writeDirEntry_shape hs d e with ⟨err, -, -, heq⟩ | ⟨c, err, -, -, -, heq⟩ |
    ⟨a, -, -, heq⟩ | ⟨c, last, m, -, -, -, -, -, heq⟩ <;>
  · rw [heq] at h
    obtain ⟨-, rfl⟩ := Prod.mk.inj h
    exact ⟨rfl, rfl, rfl⟩

/-! ## `mkdir` -/

/-- A `mkdir` that succeeds fills a free cluster, enters it in the parent, flushes
the table and interns the directory. -/
theorem mkdir_shape (hs : Sound s) {parent id : Nat} {name : List UInt8}
    (h : s.mkdir upper parent name = (.ok id, s')) :
    ∃ dir c t, s.inodes.get parent = some dir ∧ dir.isDir = true ∧
      s.geo.validCluster c = true ∧ s.fatCache c = 0 ∧
      findEntry (s.readDirRaw dir.firstCluster) (toShortName upper name) = none ∧
      (s.makeDir c dir.firstCluster).writeDirEntry dir.firstCluster
        (newDirEntry upper name c) true = (.ok (), t) ∧
      ((t.setBytes t.flushedBytes).internInode c 0 true) = (id, s') := by
  cases hdir : s.inodes.get parent with
  | none =>
    rw [mkdir, hdir] at h
    cases h
  | some dir =>
    rcases mkdir_cases hs hdir name with ⟨e, heq⟩ | ⟨c, hv, hc, hk, hnone, ⟨e, t, -, heq⟩ |
      ⟨t, hwrite, heq⟩⟩
    · rw [h] at heq
      cases heq
    · rw [h] at heq
      cases heq
    · have hs₁ : Sound (s.makeDir c dir.firstCluster) := hs.of_eq rfl rfl
      obtain ⟨hgeo, -, hpres⟩ := writeDirEntry_frame hs₁ hwrite
      rw [heq (hs₁.of_eq hgeo hpres)] at h
      obtain ⟨hid, hst⟩ := Prod.mk.inj h
      exact ⟨dir, c, t, rfl, hk, hv, hc, hnone, hwrite, Prod.ext (Except.ok.inj hid) hst⟩

/-! ## No more entries than before -/

/-- Slot `new` apart, a used slot of the directory with an ordinary name is as it was
before. -/
def Keeps (s t : Fat32) (d : Nat) (new : Option Nat) : Prop :=
  ∀ a ∈ t.slotAddrs d, some a ≠ new → (t.entryAt a).isFree = false →
    ¬ IsDots (t.entryAt a).name → a ∈ s.slotAddrs d ∧ t.entryAt a = s.entryAt a

section keeps

variable {t u : Fat32} {new : Option Nat}

theorem Keeps.of_eq (hslots : ∀ a ∈ t.slotAddrs d, a ∈ s.slotAddrs d)
    (hentry : ∀ a ∈ t.slotAddrs d, t.entryAt a = s.entryAt a) (new : Option Nat) :
    Keeps s t d new := fun a ha _ _ _ => ⟨hslots a ha, hentry a ha⟩

theorem Keeps.refl (s : Fat32) (d : Nat) (new : Option Nat) : Keeps s s d new :=
  Keeps.of_eq (fun _ h => h) (fun _ _ => rfl) new

/-- First a step without a new slot, then one with it. -/
theorem Keeps.trans (h : Keeps s t d none) (h' : Keeps t u d new) : Keeps s u d new := by
  intro a ha hne hused hdots
  obtain ⟨ha', heq⟩ := h' a ha hne hused hdots
  rw [heq] at hused hdots ⊢
  exact h a ha' (by simp) hused hdots

/-- First the new slot, then a step that keeps it. -/
theorem Keeps.trans_same (h : Keeps s t d new) (hslots : u.slotAddrs d = t.slotAddrs d)
    (hentry : ∀ a ∈ t.slotAddrs d, u.entryAt a = t.entryAt a) : Keeps s u d new := by
  intro a ha hne hused hdots
  rw [hslots] at ha
  rw [hentry a ha] at hused hdots ⊢
  exact h a ha hne hused hdots

/-- Marking a free cluster as the end of a chain changes no chain. -/
theorem clusterChain_setFat_of_free (hc : s.fatCache c = 0) (d : Nat) :
    (s.setFat c fatEoc).clusterChain d = s.clusterChain d := by
  refine Chain.walk_congr fun x _ => ?_
  by_cases hx : x = c
  · subst hx
    rw [nextCluster_fatEoc (setFat_self s x fatEoc), nextCluster, if_pos (Or.inr hc)]
  · rw [nextCluster, nextCluster, setFat_of_ne s c fatEoc hx]

theorem slotAddrs_setFat_of_free (hc : s.fatCache c = 0) (d : Nat) :
    (s.setFat c fatEoc).slotAddrs d = s.slotAddrs d :=
  congrArg s.geo.slotsOf (clusterChain_setFat_of_free hc d)

theorem keeps_setFat (hc : s.fatCache c = 0) (new : Option Nat) :
    Keeps s (s.setFat c fatEoc) d new :=
  fun _ ha _ _ _ => ⟨slotAddrs_setFat_of_free hc d ▸ ha, rfl⟩

/-- A new directory has no entry with an ordinary name. -/
theorem keeps_makeDir (hv : s.geo.validCluster c = true) (hc : s.fatCache c = 0) (parent : Nat) :
    Keeps s (s.makeDir c parent) d none := by
  have hslots : (s.makeDir c parent).slotAddrs d = s.slotAddrs d := slotAddrs_setFat_of_free hc d
  intro a ha _ hused hdots
  by_cases hin : a ∈ s.geo.slotsOf [c]
  · rcases slot_makeDir s c parent hin with hfree | hdot
    · rw [hfree] at hused
      cases hused
    · exact absurd hdot hdots
  · refine ⟨hslots ▸ ha, ?_⟩
    rw [hslots] at ha
    exact entryAt_fresh_of_not_mem (dotEntries_fit s.geo c parent)
      (Geometry.validCluster_iff.mp hv).1 (fun _ _ => rfl) (s.valid_clusterChain d) ha hin

/-- Writing an entry makes one new slot, or fails and makes none. -/
theorem writeDirEntry_keeps (hs : Sound s) (he : e.stored = e) {r : Except String Unit}
    (h : s.writeDirEntry d e true = (r, t)) :
    (∃ err, r = .error err ∧ Keeps s t d none) ∨
      (r = .ok () ∧ ∃ a cs, Keeps s t d (some a) ∧ a ∈ t.geo.slotsOf cs ∧ t.entryAt a = e) := by
  rcases writeDirEntry_shape hs d e with ⟨err, -, -, heq⟩ | ⟨c, err, -, hc, -, heq⟩ |
    ⟨a, ha, -, heq⟩ | ⟨c, last, m, hv, hc, hgl, -, hm, heq⟩
  · rw [h] at heq
    obtain ⟨rfl, rfl⟩ := Prod.mk.inj heq
    exact Or.inl ⟨err, rfl, Keeps.refl t d none⟩
  · rw [h] at heq
    obtain ⟨rfl, rfl⟩ := Prod.mk.inj heq
    exact Or.inl ⟨err, rfl, keeps_setFat hc none⟩
  · rw [h] at heq
    obtain ⟨rfl, rfl⟩ := Prod.mk.inj heq
    refine Or.inr ⟨rfl, a, _, fun b hb hne _ _ => ⟨hb, entryAt_pack_of_ne ha hb ?_⟩, ha,
      (RawDirEntry.ofBytes_writeBytes_pack _ _ _).trans he⟩
    exact fun heq => hne (congrArg some heq)
  · rw [h] at heq
    obtain ⟨rfl, rfl⟩ := Prod.mk.inj heq
    have hB := s.geo.sectorsPerCluster_pos
    have hBeq := s.geo.bytesPerCluster_eq
    have hchain : ∀ x ∈ (s.linkFat last c).clusterChain d, x ∈ s.clusterChain d ∨ x = c := by
      intro x hx
      by_cases hlc : last = c
      · left
        have hsame : (s.linkFat last c).clusterChain d = s.clusterChain d := by
          rw [← clusterChain_setFat_of_free hc d, hlc]
          refine chainOf_congr fun y _ => ?_
          by_cases hy : y = c
          · rw [hy, linkFat, setFat_self, setFat_self]
          · rw [linkFat, setFat_of_ne _ _ _ hy, setFat_of_ne _ _ _ hy]
        rwa [hsame] at hx
      · have hsame : ∀ y, y ≠ last → y ≠ c → (s.linkFat last c).fatCache y = s.fatCache y :=
          fun y h1 h2 => by
            rw [linkFat, setFat_of_ne _ _ _ h2, setFat_of_ne _ _ _ h1, setFat_of_ne _ _ _ h2]
        have hlast : (s.linkFat last c).fatCache last = c := by
          rw [linkFat, setFat_of_ne _ _ _ hlc, setFat_self]
        exact mem_chainOf_link hsame hlast (setFat_self _ c fatEoc) hv hx
    have hnew : s.geo.clusterAddr c + 0 * 32 ∈ s.geo.slotsOf [c] :=
      Geometry.mem_slotsOf.mpr ⟨c, List.mem_singleton_self c, 0, by omega, rfl⟩
    refine Or.inr ⟨rfl, s.geo.clusterAddr c + 0 * 32, _, fun b hb hne hused _ => ?_, hnew, ?_⟩
    · by_cases hin : b ∈ s.geo.slotsOf [c]
      · obtain ⟨x, hx, i, hi, rfl⟩ := Geometry.mem_slotsOf.mp hin
        obtain rfl := List.mem_singleton.mp hx
        have hi0 : i ≠ 0 := fun h0 => hne (by rw [h0])
        have hfree := isFree_freshCluster (g := s.geo) s.disk.bytes (s.geo.clusterAddr x)
          (show [e].length ≤ i by rw [List.length_singleton]; omega) hi
        rw [← entryAt_fresh hm i] at hfree
        exact absurd (hfree.symm.trans hused) (by decide)
      · have hold : b ∈ s.slotAddrs d := by
          obtain ⟨x, hx, i, hi, rfl⟩ := Geometry.mem_slotsOf.mp hb
          refine Geometry.mem_slotsOf.mpr ⟨x, (hchain x hx).resolve_right ?_, i, hi, rfl⟩
          rintro rfl
          exact hin (Geometry.mem_slotsOf.mpr ⟨x, List.mem_singleton_self x, i, hi, rfl⟩)
        exact ⟨hold, entryAt_fresh_of_not_mem (one_fits s.geo e)
          (Geometry.validCluster_iff.mp hv).1 hm (s.valid_clusterChain d) hold hin⟩
    · have hfresh := ofBytes_freshCluster (g := s.geo) s.disk.bytes (s.geo.clusterAddr c)
        (show 0 < [e].length by simp)
      exact (entryAt_fresh hm _).trans (hfresh.trans he)

/-- A step on inode `dirId` that enters nothing in directory `d`. -/
structure EntersNone (s s' : Fat32) (dirId d : Nat) : Prop where
  sound : Sound s'
  inode : ∀ i, s'.inodes.get dirId = some i → s.inodes.get dirId = some i
  keeps : Keeps s s' d none

/-- A step on inode `dirId` that enters slot `a` in directory `d`, under a name that
no live slot had. -/
structure EntersOne (s s' : Fat32) (dirId d a : Nat) (short : List UInt8) : Prop where
  sound : Sound s'
  inode : ∀ i, s'.inodes.get dirId = some i → s.inodes.get dirId = some i
  keeps : Keeps s s' d (some a)
  name : (s'.entryAt a).name = short
  plain : (s'.entryAt a).isLfn = false
  new : ∀ b ∈ s.slotAddrs d, (s.entryAt b).isLive = true → (s.entryAt b).name ≠ short

theorem EntersNone.refl (hs : Sound s) (dirId d : Nat) : EntersNone s s dirId d :=
  ⟨hs, fun _ h => h, Keeps.refl s d none⟩

theorem internInode_inode {dirId : Nat} {i₀ : FatInode} (h₀ : s.inodes.get dirId = some i₀)
    (h size : Nat) (k : Bool) (i : FatInode)
    (hi : (s.internInode h size k).2.inodes.get dirId = some i) :
    s.inodes.get dirId = some i := by
  rw [internInode_get_of_some h₀] at hi
  exact h₀.trans hi

theorem internInode_entryAt (s : Fat32) (h size : Nat) (k : Bool) (a : Nat) :
    (s.internInode h size k).2.entryAt a = s.entryAt a := by
  rw [entryAt, internInode_disk]
  rfl

/-- A new entry is written, the table flushed and the inode interned. -/
theorem entersOne_of_write {dirId : Nat} {dir : FatInode} {short : List UInt8}
    (hs : Sound s) (hdir : s.inodes.get dirId = some dir)
    (hnone : findEntry (s.readDirRaw dir.firstCluster) short = none)
    (ht : Sound t) (hino : t.inodes = s.inodes) (hkeep : Keeps s t dir.firstCluster none)
    (he : e.stored = e) (hname : e.name = short) (hplain : e.isLfn = false)
    (h : t.writeDirEntry dir.firstCluster e true = (.ok (), u)) (first size : Nat) (k : Bool) :
    ∃ a, EntersOne s ((u.setBytes u.flushedBytes).internInode first size k).2 dirId
      dir.firstCluster a short := by
  rcases writeDirEntry_keeps ht he h with ⟨err, herr, -⟩ | ⟨-, a, cs, hstep, ha, hentry⟩
  · cases herr
  obtain ⟨hgeo, hino', hpres⟩ := writeDirEntry_frame ht h
  have hflush : ∀ ds, ∀ b ∈ u.geo.slotsOf ds,
      ((u.setBytes u.flushedBytes).internInode first size k).2.entryAt b = u.entryAt b :=
    fun ds b hb => (internInode_entryAt _ first size k b).trans (entryAt_flushed u hb)
  have hslots : ((u.setBytes u.flushedBytes).internInode first size k).2.slotAddrs
      dir.firstCluster = u.slotAddrs dir.firstCluster := by
    rw [slotAddrs, clusterChain_def, internInode_geo, internInode_fatCache]
    rfl
  have hsound : Sound ((u.setBytes u.flushedBytes).internInode first size k).2 :=
    (ht.of_eq hgeo hpres).of_eq (internInode_geo ..) (by rw [internInode_disk]; rfl)
  refine ⟨a, hsound, fun i hi => ?_,
    (hkeep.trans hstep).trans_same hslots (hflush (u.clusterChain dir.firstCluster)), ?_, ?_, ?_⟩
  · have hget : (u.setBytes u.flushedBytes).inodes.get dirId = some dir := by
      rw [setBytes_inodes, hino', hino]
      exact hdir
    rw [hdir, ← hget]
    exact internInode_inode hget first size k i hi
  · rw [hflush cs a ha, hentry, hname]
  · rw [hflush cs a ha, hentry, hplain]
  · rw [readDirRaw_eq hs] at hnone
    exact fun b hb hlive => findEntry_eq_none hnone hb hlive

theorem create_enters (hs : Sound s) (dirId : Nat) (name : List UInt8)
    (hd : ∀ i, s.inodes.get dirId = some i → i.firstCluster = d) :
    (∃ err t, s.create upper dirId name = (.error err, t) ∧ EntersNone s t dirId d) ∨
      ∃ id t a, s.create upper dirId name = (.ok id, t) ∧
        EntersOne s t dirId d a (toShortName upper name) := by
  rw [create]
  cases hdir : s.inodes.get dirId with
  | none => exact Or.inl ⟨_, s, rfl, EntersNone.refl hs dirId d⟩
  | some dir =>
    obtain rfl := hd dir hdir
    simp only
    split
    · exact Or.inl ⟨_, s, rfl, EntersNone.refl hs dirId _⟩
    cases hnone : findEntry (s.readDirRaw dir.firstCluster) (toShortName upper name) with
    | some e => exact Or.inl ⟨_, s, rfl, EntersNone.refl hs dirId _⟩
    | none =>
      simp only
      rw [← newFileEntry]
      have hstored : (newFileEntry upper name).stored = newFileEntry upper name :=
        RawDirEntry.stored_new _ _ _ _
      cases hwrite : s.writeDirEntry dir.firstCluster (newFileEntry upper name) true with
      | mk r t =>
        obtain ⟨hgeo, hino, hpres⟩ := writeDirEntry_frame hs hwrite
        cases r with
        | error err =>
          refine Or.inl ⟨err, t, rfl, hs.of_eq hgeo hpres, fun i hi => hino ▸ hi, ?_⟩
          rcases writeDirEntry_keeps hs hstored hwrite with ⟨-, -, hkeep⟩ | ⟨hok, -⟩
          · exact hkeep
          · cases hok
        | ok _ =>
          obtain ⟨a, hone⟩ := entersOne_of_write hs hdir hnone hs rfl
            (Keeps.refl s dir.firstCluster none) hstored rfl (newFileEntry_plain upper name) hwrite
            0 0 false
          refine Or.inr ⟨((t.setBytes t.flushedBytes).internInode 0 0 false).1, _, a, ?_, hone⟩
          simp only
          rw [flushFat_eq (hs.of_eq hgeo hpres)]

theorem mkdir_enters (hs : Sound s) (dirId : Nat) (name : List UInt8)
    (hd : ∀ i, s.inodes.get dirId = some i → i.firstCluster = d) :
    (∃ err t, s.mkdir upper dirId name = (.error err, t) ∧ EntersNone s t dirId d) ∨
      ∃ id t a, s.mkdir upper dirId name = (.ok id, t) ∧
        EntersOne s t dirId d a (toShortName upper name) := by
  cases hdir : s.inodes.get dirId with
  | none =>
    refine Or.inl ⟨"inode not found", s, ?_, EntersNone.refl hs dirId d⟩
    rw [mkdir, hdir]
  | some dir =>
    obtain rfl := hd dir hdir
    rcases mkdir_cases hs hdir name with ⟨err, heq⟩ | ⟨c, hv, hc, -, hnone, hcase⟩
    · exact Or.inl ⟨err, s, heq, EntersNone.refl hs dirId _⟩
    have hs₁ : Sound (s.makeDir c dir.firstCluster) := hs.of_eq rfl rfl
    have hkeep := keeps_makeDir (d := dir.firstCluster) hv hc dir.firstCluster
    have hstored : (newDirEntry upper name c).stored = newDirEntry upper name c :=
      RawDirEntry.stored_new _ _ _ _
    rcases hcase with ⟨err, t, hwrite, heq⟩ | ⟨t, hwrite, heq⟩
    · obtain ⟨hgeo, hino, hpres⟩ := writeDirEntry_frame hs₁ hwrite
      refine Or.inl ⟨err, t, heq, hs₁.of_eq hgeo hpres, fun i hi => ?_, ?_⟩
      · rw [hino] at hi
        exact hi
      · rcases writeDirEntry_keeps hs₁ hstored hwrite with ⟨-, -, hkeep'⟩ | ⟨hok, -⟩
        · exact hkeep.trans hkeep'
        · cases hok
    · obtain ⟨hgeo, -, hpres⟩ := writeDirEntry_frame hs₁ hwrite
      obtain ⟨a, hone⟩ := entersOne_of_write hs hdir hnone hs₁ rfl hkeep hstored rfl
        (newDirEntry_plain upper name c) hwrite c 0 true
      exact Or.inr ⟨_, _, a, heq (hs₁.of_eq hgeo hpres), hone⟩

/-- `unlink` enters nothing, and one that succeeds erases a slot of that name. -/
theorem unlink_enters (hs : Sound s) (dirId : Nat) (name : List UInt8)
    (hd : ∀ i, s.inodes.get dirId = some i → i.firstCluster = d) :
    EntersNone s (s.unlink upper dirId name).2 dirId d ∧
      ((s.unlink upper dirId name).1 = .ok () →
        ∃ a ∈ s.slotAddrs d, (s.entryAt a).isFree = false ∧
          (s.entryAt a).name = toShortName upper name ∧
          ((s.unlink upper dirId name).2.entryAt a).isFree = true) := by
  rcases @unlink_cases upper s hs dirId name with ⟨e, heq⟩ | ⟨dir, a, hdir, -, -, hcase⟩
  · rw [heq]
    exact ⟨EntersNone.refl hs dirId d, fun h => by cases h⟩
  obtain rfl := hd dir hdir
  obtain ⟨hgeo, hino, hdisk, -⟩ := s.freeEntry_frame (s.entryAt a).firstCluster
  have hslots := slotAddrs_freeEntry s (s.entryAt a).firstCluster dir.firstCluster
  rcases hcase with ⟨-, heq⟩ | ⟨r, hrem, heq⟩
  · rw [heq]
    refine ⟨⟨hs.of_eq hgeo (by rw [hdisk]), fun i hi => hino ▸ hi, ?_⟩, fun h => by cases h⟩
    exact Keeps.of_eq (fun b hb => hslots.subset hb)
      (fun b _ => by rw [freeEntry_entryAt]) none
  · rw [heq]
    obtain ⟨hmem, hused, -, hname⟩ := removeFind_spec hrem
    have hr := hslots.subset hmem
    have herased : Erased s (s.erase (s.entryAt a).firstCluster r (s.entryAt a).isDir)
        (s.entryAt a).firstCluster r := erased_flushed hr rfl
    refine ⟨⟨?_, ?_, ?_⟩, fun _ => ⟨r, hr, hused, hname, herased.free⟩⟩
    · refine hs.of_eq herased.geo ?_
      rw [erase, dropVictim_disk, setBytes_present, setBytes_present, hdisk]
    · intro i hi
      rw [erase, dropVictim_get] at hi
      split at hi
      · cases hi
      · rwa [setBytes_inodes, setBytes_inodes, hino] at hi
    · intro b hb _ hfree _
      have hb' : b ∈ s.slotAddrs dir.firstCluster := by
        refine hslots.subset ?_
        rwa [slotAddrs, clusterChain_def, erase, dropVictim_geo, dropVictim_fatCache] at hb
      have hne : b ≠ r := by
        rintro rfl
        rw [herased.free] at hfree
        cases hfree
      exact ⟨hb', herased.entry _ b hb' hne⟩

end keeps

end AeroOS.Fat32
