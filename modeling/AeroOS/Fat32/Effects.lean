import AeroOS.Fat32.Commit
import AeroOS.Fat32.DirWrite
import AeroOS.Fat32.NameEdits

/-!
# FAT32: what the operations on files do to the names

For a state that is described by a view `v`, each operation leaves a state that
is described by an edit of `v`, whether it succeeds or fails.

* `Described.lose`, `.setHead` and `.entered` are the rules for a lost cluster,
  a new head and a new directory entry;
* `write_described` and `truncate_described` give the operations on a file as a
  `FileEdit`, which keeps everything else.

The hypothesis of `truncate_described` is the condition under which the code
frees no chain that is still named.
-/

namespace AeroOS.Fat32

open Bytes

/-! ## Rules for a description -/

theorem KeptSlots.mono {D D' : Nat → Prop} {s s' : Fat32} (h : KeptSlots D s s')
    (hD : ∀ d, D' d → D d) : KeptSlots D' s s' where
  geo := h.geo
  chain d hd := h.chain d (hD d hd)
  slot d a hd := h.slot d a (hD d hd)

/-- A state keeps its description when its directories and inodes keep their
heads. -/
theorem Covers.of_kept {s s' : Fat32} {v w : Names} (hc : Covers s v)
    (hk : KeptSlots v.dir s s') (hroot : w.root = v.root) (hdir : ∀ d, w.dir d → v.dir d)
    (hslot : ∀ d a h k, v.slot d a h k → w.slot d a h k)
    (hino : ∀ id h k, w.ino id h k ↔
      ∃ i, s'.inodes.get id = some i ∧ i.firstCluster = h ∧ i.isDir = k) : Covers s' w where
  root := hroot.trans (hc.root.trans (congrArg Geometry.rootCluster hk.geo.symm))
  slot d a hd ha he := by
    have hd' := hdir d hd
    rw [hk.slotAddrs hd'] at ha
    have hkey := hk.slot d a hd' ha
    rw [hkey.firstCluster, hkey.isDir]
    exact hslot _ _ _ _ (hc.slot d a hd' ha (hkey.isEntry ▸ he))
  ino := hino

namespace Described

variable {s s' : Fat32} {v : Names}

/-- A cluster was marked as used and lost. -/
theorem lose (hd : Described s v) {c : Nat} (hc : s.fatCache c = 0) :
    Described (s.setFat c fatEoc) v := by
  have hsame : ∀ h, v.heads h → ∀ y ∈ chainOf s.geo s.fatCache h,
      (s.setFat c fatEoc).fatCache y = s.fatCache y := fun h hh y hy =>
    setFat_of_ne _ _ _ fun heq => hd.chains.not_mem_of_free hc hh (heq ▸ hy)
  have hkept : KeptSlots v.dir s (s.setFat c fatEoc) :=
    ⟨rfl, fun d hdir => chainOf_congr (hsame d (Or.inl hdir)), fun d a _ _ => SameKey.of_eq rfl⟩
  exact ⟨hd.sound.of_eq rfl rfl,
    hd.covers.of_kept hkept rfl (fun _ h => h) (fun _ _ _ _ h => h) hd.covers.ino,
    hd.ok, hd.chains.congr hsame⟩

/-- An inode got another head. -/
theorem setHead (hd : Described s v) (hkept : KeptSlots v.dir s s')
    (hp : s'.disk.present = s.disk.present) {id f n : Nat}
    (hino : s'.inodes.get id = some { firstCluster := f, size := n, isDir := false })
    (hne : ∀ x, x ≠ id → s'.inodes.get x = s.inodes.get x)
    (hnew : f ≠ 0 → ¬ v.heads f ∨ v.ino id f false)
    (hchains : ChainsOk s'.geo s'.fatCache (v.setIno id f).heads) :
    Described s' (v.setIno id f) := by
  refine ⟨hd.sound.of_eq hkept.geo hp,
    hd.covers.of_kept hkept rfl (fun _ h => h) (fun _ _ _ _ h => h) fun x h k => ?_,
    hd.ok.setIno hnew, hchains⟩
  by_cases hx : x = id
  · subst hx
    rw [hino]
    constructor
    · rintro (⟨-, hne⟩ | ⟨-, rfl, rfl⟩)
      · exact absurd rfl hne
      · exact ⟨_, rfl, rfl, rfl⟩
    · rintro ⟨i, hi, rfl, rfl⟩
      cases hi
      exact Or.inr ⟨rfl, rfl, rfl⟩
  · rw [hne x hx, ← hd.covers.ino x h k]
    constructor
    · rintro (⟨hi, -⟩ | ⟨heq, -⟩)
      · exact hi
      · exact absurd heq hx
    · exact fun hi => Or.inl ⟨hi, hx⟩

/-- A directory entry was written. -/
theorem entered (hd : Described s v) {d a : Nat} (hdir : v.dir d) {e : RawDirEntry}
    (h : Entered v.heads s s' d a e) (hsub : e.isDir = true → v.dir e.firstCluster)
    (hfile : e.isDir = false → e.firstCluster ≠ 0 → ¬ v.dir e.firstCluster)
    (hroot : e.firstCluster ≠ 0 → e.firstCluster ≠ v.root)
    (hnew : e.firstCluster ≠ 0 → ∀ d' a' k', ¬ v.slot d' a' e.firstCluster k')
    (hhead : e.firstCluster = 0 ∨ v.heads e.firstCluster) :
    Described s' (v.addSlot d a e.firstCluster e.isDir) := by
  refine ⟨hd.sound.of_eq h.geo h.present, ⟨?_, ?_, ?_⟩,
    hd.ok.addSlot hsub hfile hroot hnew, ?_⟩
  · exact hd.covers.root.trans (congrArg Geometry.rootCluster h.geo.symm)
  · intro d' b hd' hb he
    by_cases hdd : d' = d
    · subst hdd
      by_cases hba : b = a
      · rw [hba, h.entry]
        exact Or.inr ⟨rfl, rfl, rfl, rfl⟩
      rcases h.slot b hb with heq | hold | hfree
      · exact absurd heq hba
      · have hsame := (h.kept b hold).2 hba
        rw [hsame] at he ⊢
        exact Or.inl (hd.covers.slot d' b hd' hold he)
      · simp [RawDirEntry.isEntry, hfree] at he
    · have hslots : s'.slotAddrs d' = s.slotAddrs d' := by
        rw [slotAddrs, slotAddrs, h.others d' (Or.inl hd') hdd, h.geo]
      rw [hslots] at hb
      have hsame := h.other_slot (Or.inl hdir) (Or.inl hd') hdd hb
      rw [hsame] at he ⊢
      exact Or.inl (hd.covers.slot d' b hd' hb he)
  · intro id x k
    rw [h.inodes]
    exact hd.covers.ino id x k
  · refine h.chains.mono fun x hx => ?_
    rcases Names.heads_addSlot hx with hx | rfl
    · exact Or.inr hx
    · exact hhead

end Described

/-! ## `write` -/

section file

variable {s : Fat32} {v : Names} (hd : Described s v) {id : Nat} {i : FatInode}
  (hi : s.inodes.get id = some i) (hk : i.isDir = false)

include hd hi hk

theorem Described.ino_self : v.ino id i.firstCluster false :=
  (hd.covers.ino _ _ _).mpr ⟨i, hi, rfl, hk⟩

theorem Described.heads_self : v.heads i.firstCluster :=
  Or.inr (Or.inr ⟨id, false, hd.ino_self hi hk⟩)

/-- A directory with the head of a file has none. -/
theorem Described.zero_of_dir {d : Nat} (hdir : v.dir d) (heq : d = i.firstCluster) : d = 0 := by
  by_contra h0
  exact hd.ok.ino_file (hd.ino_self hi hk) (heq ▸ h0) (heq ▸ hdir)

end file

/-- An edit of the file behind inode `id`, whose head goes from `f` to `f'`: the
directories, the other inodes and the other files are kept. -/
structure FileEdit (v : Names) (s s' : Fat32) (id f f' : Nat) : Prop where
  described : Described s' (v.setIno id f')
  kept : KeptSlots v.dir s s'
  inode_of_ne : ∀ x, x ≠ id → s'.inodes.get x = s.inodes.get x
  next : s'.inodes.next = s.inodes.next
  chain : ∀ h, v.heads h → h ≠ f → s'.clusterChain h = s.clusterChain h
  bytes : ∀ h, v.heads h → h ≠ f → ¬ v.dir h → ∀ c ∈ s.clusterChain h, ∀ x,
    s.geo.InCluster c x → s'.disk.bytes x = s.disk.bytes x

/-- The end of the operations is part of the edit. -/
theorem FileEdit.commit {v : Names} {s s' : Fat32} {id f f' : Nat}
    (h : FileEdit v s s' id f f') (hd : Described s v) {i : FatInode}
    (hi : s'.inodes.get id = some i) (hk : i.isDir = false) :
    FileEdit v s (s'.commit id).2 id f f' := by
  have hc := commit_spec h.described.sound hi hk
  have hchain : ∀ x, (s'.commit id).2.clusterChain x = s'.clusterChain x := fun x => by
    rw [clusterChain_def, clusterChain_def, hc.geo, hc.fatCache]
  refine ⟨⟨hc.sound, ?_, h.described.ok, ?_⟩, h.kept.trans (hc.kept v.dir), ?_, ?_, ?_, ?_⟩
  · refine h.described.covers.of_kept (hc.kept _) rfl (fun _ h => h) (fun _ _ _ _ h => h) ?_
    rw [hc.inodes]
    exact h.described.covers.ino
  · rw [hc.geo, hc.fatCache]
    exact h.described.chains
  · intro x hx
    rw [hc.inodes, h.inode_of_ne x hx]
  · rw [hc.inodes, h.next]
  · intro x hx hne
    rw [hchain, h.chain x hx hne]
  · intro x hx hne hnd c hcx y hin
    have hv := (Geometry.validCluster_iff.mp (s.valid_clusterChain x c hcx)).1
    rw [hc.bytes c y hv ?_ (h.kept.geo.symm ▸ hin), h.bytes x hx hne hnd c hcx y hin]
    intro d hdir hmem
    have hvd : v.dir d := h.described.covers.dir_of_isDir h.described.ok hdir
    rw [h.kept.chain d hvd] at hmem
    have hxd : x ≠ d := fun heq => hnd (heq ▸ hvd)
    exact hd.chains.disj x d hx (Or.inl hvd) hxd c hcx hmem

section write

variable {s : Fat32} {v : Names} (hd : Described s v) {id : Nat} {i : FatInode}
  (hi : s.inodes.get id = some i) (hk : i.isDir = false)

include hd hi hk

/-- `write` edits its file, and gives it a head of its own. -/
theorem write_described (offset : Nat) (buf : List UInt8) :
    ∃ f', (f' = i.firstCluster ∨ i.firstCluster = 0 ∧ ¬ v.heads f') ∧
      FileEdit v s (s.write id offset buf).2 id i.firstCluster f' := by
  have hf := hd.heads_self hi hk
  obtain ⟨s₁, f', news, hx, hcases⟩ := write_phases hd.sound hd.chains hi hk hf offset buf
  have hhead : f' = i.firstCluster ∨ i.firstCluster = 0 ∧ ¬ v.heads f' := by
    rcases hx.head with ⟨heq, -⟩ | ⟨h0, hmem, -⟩
    · exact Or.inl heq
    · obtain ⟨hfree, hv⟩ := hx.wasFree f' hmem
      exact Or.inr ⟨h0, hd.chains.not_head_of_free hv hfree⟩
  have hnew : f' ≠ 0 → ¬ v.heads f' ∨ v.ino id f' false := fun _ => by
    rcases hhead with heq | ⟨-, hnot⟩
    · exact Or.inr (heq ▸ hd.ino_self hi hk)
    · exact Or.inl hnot
  have hdirs : ∀ d, v.dir d → v.heads d ∧ (d = i.firstCluster → d = 0) := fun d hdir =>
    ⟨Or.inl hdir, hd.zero_of_dir hi hk hdir⟩
  have hheads : ∀ x, (v.setIno id f').heads x → x = 0 ∨ v.heads x ∨ x = f' := fun x hx' =>
    Or.inr (Names.heads_setIno hx')
  have hi₁ : s₁.inodes.get id = some { firstCluster := f', size := i.size, isDir := false } := by
    rw [hx.inode hi, hk]
  refine ⟨f', hhead, ?_⟩
  rcases hcases with ⟨e, heq⟩ | ⟨s₂, n, hst, heq⟩
  · rw [heq]
    have hkept := hx.kept.mono hdirs
    exact
      { described := hd.setHead hkept (by rw [hx.disk]) hi₁ (fun x hne => hx.inode_of_ne hne)
          hnew (hx.ok.mono hheads)
        kept := hkept
        inode_of_ne := fun x hne => hx.inode_of_ne hne
        next := hx.next
        chain := hx.others
        bytes := fun _ _ _ _ _ _ _ _ => by rw [hx.disk] }
  · rw [heq]
    obtain ⟨m, hm⟩ := hst.inode _ hi₁
    have hkept := (hst.kept hx hd.chains hf).mono hdirs
    have hne : ∀ x, x ≠ id → s₂.inodes.get x = s.inodes.get x := fun x hne => by
      rw [hst.inode_of_ne x hne, hx.inode_of_ne hne]
    have hedit : FileEdit v s s₂ id i.firstCluster f' :=
      { described := by
          refine hd.setHead hkept (by rw [hst.present, hx.disk]) hm hne hnew ?_
          rw [hst.geo, hst.fatCache]
          exact hx.ok.mono hheads
        kept := hkept
        inode_of_ne := hne
        next := hst.next.trans hx.next
        chain := fun h hh hhf => by
          rw [clusterChain_def, hst.geo, hst.fatCache]
          exact hx.others h hh hhf
        bytes := fun h hh hhf _ c hc x hin => by
          rw [hst.bytes x fun c' hc' hin' => ?_, hx.disk]
          have hv := (Geometry.validCluster_iff.mp (s.valid_clusterChain h c hc)).1
          have hv' := (Geometry.validCluster_iff.mp (s₁.valid_clusterChain f' c' hc')).1
          have heq := Geometry.InCluster.unique hv hv' hin (hx.geo ▸ hin')
          subst heq
          exact hx.not_mem_chain hd.chains hh hf (fun h => absurd h hhf) hc hc' }
    exact hedit.commit hd hm rfl

end write

/-! ## `truncate` -/

/-- The table edit of `truncate`, for a file with this chain. -/
def cutFile (s : Fat32) (id : Nat) (chain : List Nat) (newSize : Nat) : Fat32 :=
  if s.clustersFor newSize < chain.length ∧ chain ≠ [] then
    let keep := max (s.clustersFor newSize) (if newSize = 0 then 0 else 1)
    let s := s.freeClusters (chain.drop keep)
    if newSize = 0 then (s.setFat (chain.getD 0 0) fatFree).setFirstCluster id 0
    else s.setFat (chain.getD (keep - 1) 0) fatEoc
  else s

/-- What `cutFile` leaves behind for the file with head `f`: its chain cut, or
all of it freed and the head given up. -/
structure Cut (H : Nat → Prop) (s s' : Fat32) (id f newSize f' : Nat) : Prop where
  geo : s'.geo = s.geo
  disk : s'.disk = s.disk
  inode : ∀ i, s.inodes.get id = some i → i.firstCluster = f →
    s'.inodes.get id = some { i with firstCluster := f' }
  inode_of_ne : ∀ x, x ≠ id → s'.inodes.get x = s.inodes.get x
  next : s'.inodes.next = s.inodes.next
  others : ∀ h, H h → h ≠ f → s'.clusterChain h = s.clusterChain h
  chains : (f' = f ∧ ChainsOk s'.geo s'.fatCache H) ∨
    (newSize = 0 ∧ s.clusterChain f ≠ [] ∧ f' = 0 ∧
      ChainsOk s'.geo s'.fatCache fun h => H h ∧ h ≠ f)

/-- How many clusters `truncate` leaves a file. -/
def keptClusters (s : Fat32) (newSize : Nat) : Nat :=
  max (s.clustersFor newSize) (if newSize = 0 then 0 else 1)

/-- What the cut makes of the chain itself: its first clusters are left, and the
others are free. -/
structure CutTo (H : Nat → Prop) (s s' : Fat32) (id f newSize f' : Nat) : Prop
    extends Cut H s s' id f newSize f' where
  chain : s'.clusterChain f' = (s.clusterChain f).take (s.keptClusters newSize)
  freed : ∀ c ∈ (s.clusterChain f).drop (s.keptClusters newSize), s'.fatCache c = fatFree

theorem cutFile_cutTo {H : Nat → Prop} {s : Fat32} (hH : ChainsOk s.geo s.fatCache H)
    {f : Nat} (hf : H f) (id newSize : Nat) :
    ∃ f', CutTo H s (s.cutFile id (s.clusterChain f) newSize) id f newSize f' := by
  rw [cutFile]
  split
  swap
  · rename_i hlt
    have hall : (s.clusterChain f).length ≤ s.keptClusters newSize := by
      refine le_trans ?_ (Nat.le_max_left _ _)
      by_contra hno
      exact hlt ⟨Nat.lt_of_not_le hno, fun hnil => hno (by simp [hnil])⟩
    refine ⟨f, ⟨rfl, rfl, fun i hi h => by rw [hi, ← h], fun _ _ => rfl, rfl, fun _ _ _ => rfl,
      Or.inl ⟨rfl, hH⟩⟩, (List.take_of_length_le hall).symm, ?_⟩
    rw [List.drop_eq_nil_of_le hall]
    exact fun c hc => absurd hc List.not_mem_nil
  rename_i hlt
  have hnodup : (s.clusterChain f).Nodup := hH.nodup f hf
  change ∃ f', CutTo H s (if newSize = 0 then
    ((s.freeClusters ((s.clusterChain f).drop (s.keptClusters newSize))).setFat
      ((s.clusterChain f).getD 0 0) fatFree).setFirstCluster id 0
    else (s.freeClusters ((s.clusterChain f).drop (s.keptClusters newSize))).setFat
      ((s.clusterChain f).getD (s.keptClusters newSize - 1) 0) fatEoc) id f newSize f'
  generalize hkeep : s.keptClusters newSize = keep
  generalize hs₁ : s.freeClusters ((s.clusterChain f).drop keep) = s₁
  have hgeo₁ : s₁.geo = s.geo := by rw [← hs₁, freeClusters_geo]
  have hino₁ : s₁.inodes = s.inodes := by rw [← hs₁, freeClusters_inodes]
  have hdisk₁ : s₁.disk = s.disk := by rw [← hs₁, freeClusters_disk]
  have hfat₁ : ∀ x, s₁.fatCache x =
      if x ∈ (s.clusterChain f).drop keep then fatFree else s.fatCache x := fun x => by
    rw [← hs₁, fatCache_freeClusters]
  have hpos : 0 < (s.clusterChain f).length := List.length_pos_iff.mpr hlt.2
  split
  · -- the whole chain is freed
    rename_i h0
    have hfirst : (s.clusterChain f).getD 0 0 ∈ s.clusterChain f := getD_mem hpos
    generalize hs₂ : s₁.setFat ((s.clusterChain f).getD 0 0) fatFree = s₂
    have hgeo₂ : s₂.geo = s.geo := by rw [← hs₂, setFat_geo, hgeo₁]
    have hino₂ : s₂.inodes = s.inodes := by rw [← hs₂, setFat_inodes, hino₁]
    have hdisk₂ : s₂.disk = s.disk := by rw [← hs₂, setFat_disk, hdisk₁]
    have hfree₂ : ∀ x, x ∉ s.clusterChain f → s₂.fatCache x = s.fatCache x := fun x hx => by
      have hxf : x ≠ (s.clusterChain f).getD 0 0 := fun heq => hx (heq ▸ hfirst)
      have hdrop : x ∉ (s.clusterChain f).drop keep := fun h => hx (List.mem_of_mem_drop h)
      rw [← hs₂, setFat_of_ne _ _ _ hxf, hfat₁, if_neg hdrop]
    obtain ⟨hother, hok⟩ := hH.free hf hfree₂
    have hkeep0 : s.keptClusters newSize = 0 := by
      rw [h0, keptClusters, clustersFor, if_pos rfl, if_pos rfl, Nat.max_self]
    refine ⟨0, ⟨hgeo₂, hdisk₂, fun i hi _ => ?_, fun x hx => ?_,
      (show s₂.inodes.next = s.inodes.next by rw [hino₂]), fun h hh hne => ?_,
      Or.inr ⟨h0, hlt.2, rfl, ?_⟩⟩, ?_, fun c hc => ?_⟩
    · rw [setFirstCluster, modify_get_self, hino₂, hi]
      rfl
    · rw [setFirstCluster, modify_get_of_ne _ _ _ hx, hino₂]
    · rw [clusterChain_def, setFirstCluster_geo, setFirstCluster_fatCache, hgeo₂]
      exact hother h hh hne
    · rw [setFirstCluster_geo, setFirstCluster_fatCache, hgeo₂]
      exact hok
    · rw [hkeep0, List.take_zero, clusterChain_def, chainOf_zero]
    · rw [setFirstCluster_fatCache, ← hs₂]
      by_cases hcf : c = (s.clusterChain f).getD 0 0
      · rw [hcf, setFat_self]
      · rw [setFat_of_ne _ _ _ hcf, hfat₁, if_pos (hkeep ▸ hc)]
  · -- the chain is cut behind the last cluster that is kept
    rename_i h0
    have hkept := hkeep
    rw [keptClusters, if_neg h0] at hkeep
    have hk1 : 1 ≤ keep := by omega
    have hkl : keep ≤ (s.clusterChain f).length := by omega
    have hgl : ((s.clusterChain f).take keep).getLast? =
        some ((s.clusterChain f).getD (keep - 1) 0) := by
      rw [List.getLast?_take, if_neg (by omega), List.getD,
        List.getElem?_eq_getElem (by omega)]
      rfl
    generalize hlast : (s.clusterChain f).getD (keep - 1) 0 = last at *
    have hlmem : last ∈ (s.clusterChain f).take keep := List.mem_of_getLast? hgl
    have hapart := List.disjoint_take_drop hnodup (Nat.le_refl keep)
    have hsame : ∀ x ∈ (s.clusterChain f).take keep, x ≠ last →
        (s₁.setFat last fatEoc).fatCache x = s.fatCache x := fun x hx hne => by
      rw [setFat_of_ne _ _ _ hne, hfat₁, if_neg fun hdrop => hapart hx hdrop]
    obtain ⟨hcut, hother, hok⟩ := hH.cut hf hk1 hgl (setFat_self s₁ last fatEoc) hsame fun x hx => by
      have hne : x ≠ last := fun heq => hx (List.mem_of_mem_take (heq ▸ hlmem))
      have hdrop : x ∉ (s.clusterChain f).drop keep := fun h => hx (List.mem_of_mem_drop h)
      rw [setFat_of_ne _ _ _ hne, hfat₁, if_neg hdrop]
    refine ⟨f, ⟨hgeo₁, hdisk₁, fun i hi h => ?_, fun x hx => ?_,
      congrArg InodeTable.next hino₁, fun h hh hne => ?_, Or.inl ⟨rfl, ?_⟩⟩, ?_, fun c hc => ?_⟩
    · rw [setFat_inodes, hino₁, hi, ← h]
    · rw [setFat_inodes, hino₁]
    · rw [clusterChain_def, setFat_geo, hgeo₁]
      exact hother h hh hne
    · rw [setFat_geo, hgeo₁]
      exact hok
    · rw [clusterChain_def, setFat_geo, hgeo₁, hkept]
      exact hcut
    · rw [hkept] at hc
      have hne : c ≠ last := fun heq => hapart hlmem (heq ▸ hc)
      rw [setFat_of_ne _ _ _ hne, hfat₁, if_pos hc]

theorem cutFile_spec {H : Nat → Prop} {s : Fat32} (hH : ChainsOk s.geo s.fatCache H)
    {f : Nat} (hf : H f) (id newSize : Nat) :
    ∃ f', Cut H s (s.cutFile id (s.clusterChain f) newSize) id f newSize f' := by
  obtain ⟨f', h⟩ := cutFile_cutTo hH hf id newSize
  exact ⟨f', h.toCut⟩

section truncate

variable {s : Fat32} {v : Names} (hd : Described s v) {id : Nat} {i : FatInode}
  (hi : s.inodes.get id = some i) (hk : i.isDir = false)

include hd hi hk

omit hd in
theorem truncate_eq (size : Nat) :
    s.truncate id size =
      ((s.cutFile id (s.clusterChain i.firstCluster) (size % 2 ^ 32)).setSize id
        (size % 2 ^ 32)).commit id := by
  rw [truncate, hi]
  simp only [hk, Bool.false_eq_true, if_false]
  rfl

/-- Cutting a file keeps the directories. -/
theorem Cut.kept {s₁ : Fat32} {newSize f' : Nat}
    (h : Cut v.heads s s₁ id i.firstCluster newSize f') (n : Nat) :
    KeptSlots v.dir s (s₁.setSize id n) where
  geo := h.geo
  chain d hdir := by
    change s₁.clusterChain d = s.clusterChain d
    by_cases hdf : d = i.firstCluster
    · rw [hd.zero_of_dir hi hk hdir hdf, clusterChain_def, clusterChain_def, chainOf_zero,
        chainOf_zero]
    · exact h.others d (Or.inl hdir) hdf
  slot d a _ _ := SameKey.of_eq (by rw [entryAt, entryAt, setSize_disk, h.disk])

omit hd in
/-- The inodes after the cut. -/
theorem Cut.inodes {H : Nat → Prop} {s₁ : Fat32} {newSize f' : Nat}
    (h : Cut H s s₁ id i.firstCluster newSize f') (n : Nat) :
    (s₁.setSize id n).inodes.get id = some { firstCluster := f', size := n, isDir := false } ∧
      ∀ x, x ≠ id → (s₁.setSize id n).inodes.get x = s.inodes.get x := by
  constructor
  · rw [setSize, modify_get_self, h.inode i hi rfl, ← hk]
    rfl
  · intro x hx
    rw [setSize, modify_get_of_ne _ _ _ hx, h.inode_of_ne x hx]

/-- `truncate` succeeds in a volume whose root directory is flat. -/
theorem truncate_ok (hflat : RootFlat s) (hroot : v.dir s.geo.rootCluster) (size : Nat) :
    (s.truncate id size).1 = .ok () := by
  obtain ⟨f', hcut⟩ := cutFile_spec hd.chains (hd.heads_self hi hk) id (size % 2 ^ 32)
  have hi₂ := (hcut.inodes hi hk (size % 2 ^ 32)).1
  have hflat₂ := hflat.of_kept (hcut.kept hd hi hk (size % 2 ^ 32)) hroot
  rw [truncate_eq hi hk]
  refine hflat₂.commit_ok (hd.sound.of_eq hcut.geo ?_) hi₂ rfl
  rw [setSize_disk, hcut.disk]

/-- `truncate` edits its file.  It gives up the head only when no slot names
it, provided that this holds whenever the whole chain goes. -/
theorem truncate_described (size : Nat)
    (hzero : size % 2 ^ 32 = 0 → s.clusterChain i.firstCluster ≠ [] →
      ∀ d a k, ¬ v.slot d a i.firstCluster k) :
    ∃ f', (f' = i.firstCluster ∨ f' = 0 ∧ ∀ d a k, ¬ v.slot d a i.firstCluster k) ∧
      FileEdit v s (s.truncate id size).2 id i.firstCluster f' := by
  have hf := hd.heads_self hi hk
  obtain ⟨f', hcut⟩ := cutFile_spec hd.chains hf id (size % 2 ^ 32)
  rw [truncate_eq hi hk]
  generalize s.cutFile id (s.clusterChain i.firstCluster) (size % 2 ^ 32) = s₁ at *
  obtain ⟨hi₂, hne⟩ := hcut.inodes hi hk (size % 2 ^ 32)
  have hkept := hcut.kept hd hi hk (size % 2 ^ 32)
  have hnew : f' ≠ 0 → ¬ v.heads f' ∨ v.ino id f' false := fun h0 => by
    rcases hcut.chains with ⟨heq, -⟩ | ⟨-, -, heq, -⟩
    · exact Or.inr (heq ▸ hd.ino_self hi hk)
    · exact absurd heq h0
  have hheads : ChainsOk s₁.geo s₁.fatCache (v.setIno id f').heads := by
    rcases hcut.chains with ⟨heq, hok⟩ | ⟨hsz, hnil, heq, hok⟩
    · refine hok.mono fun x hx => Or.inr ?_
      rcases Names.heads_setIno hx with hx | hx
      · exact hx
      · rw [hx, heq]
        exact hf
    · -- nothing else has the head that was given up
      refine hok.mono fun x hx => ?_
      by_cases hx0 : x = 0
      · exact Or.inl hx0
      refine Or.inr ?_
      rcases hx with hx | ⟨d, a, k, hx⟩ | ⟨id', k, ⟨hx, hid⟩ | ⟨-, hx, -⟩⟩
      · exact ⟨Or.inl hx, fun h => hx0 (hd.zero_of_dir hi hk hx h)⟩
      · exact ⟨Or.inr (Or.inl ⟨d, a, k, hx⟩), fun h => hzero hsz hnil d a k (h ▸ hx)⟩
      · refine ⟨Or.inr (Or.inr ⟨id', k, hx⟩), fun h => hid ?_⟩
        exact hd.ok.ino_unique (h ▸ hx) (hd.ino_self hi hk) (h ▸ hx0)
      · exact absurd (hx.trans heq) hx0
  have hedit : FileEdit v s (s₁.setSize id (size % 2 ^ 32)) id i.firstCluster f' :=
    { described := hd.setHead hkept (by rw [setSize_disk, hcut.disk]) hi₂ hne hnew hheads
      kept := hkept
      inode_of_ne := hne
      next := hcut.next
      chain := hcut.others
      bytes := fun _ _ _ _ _ _ _ _ => by rw [setSize_disk, hcut.disk] }
  refine ⟨f', ?_, hedit.commit hd hi₂ rfl⟩
  rcases hcut.chains with ⟨heq, -⟩ | ⟨hsz, hnil, heq, -⟩
  · exact Or.inl heq
  · exact Or.inr ⟨heq, hzero hsz hnil⟩

end truncate

end AeroOS.Fat32
