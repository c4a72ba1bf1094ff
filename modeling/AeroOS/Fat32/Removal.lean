import AeroOS.Fat32.NoCrossLink
import AeroOS.Lib.Tree

/-!
# FAT32: what is reachable behind `unlink`

`unlink` frees the chain of the entry that it finds, marks one slot as erased,
and looks at nothing below.

* `InTree` are the directories that can be reached from the root by live
  entries, `Reachable` the clusters, and `AllReachable` says that no cluster in
  use is lost.
* `Erased` is what `unlink` does to the table and to the slots, for every name
  (`unlink_of_ok`).
* `mem_chain_erased`: every chain of the volume loses what follows the head of
  the freed chain, and nothing else.
* `allReachable_unlink` is the result: `unlink` loses nothing just when no
  entry that it cuts off has a chain.
-/

namespace AeroOS.Fat32

open Bytes

/-! ## Reachable clusters -/

/-- A live entry of directory `d` names directory `h`. -/
def DirEdge (s : Fat32) (d h : Nat) : Prop :=
  ∃ a ∈ s.slotAddrs d, (s.entryAt a).isEntry = true ∧ (s.entryAt a).isDir = true ∧
    (s.entryAt a).firstCluster = h

/-- Directory `d` can be reached from the root. -/
def InTree (s : Fat32) (d : Nat) : Prop := Tree.Reach s.DirEdge s.geo.rootCluster d

/-- A live entry of a directory that can be reached. -/
structure TreeEntry (s : Fat32) (d a : Nat) : Prop where
  dir : InTree s d
  slot : a ∈ s.slotAddrs d
  entry : (s.entryAt a).isEntry = true

/-- The cluster belongs to a directory that can be reached, or to what an entry of one
names. -/
def Reachable (s : Fat32) (c : Nat) : Prop :=
  (∃ d, InTree s d ∧ c ∈ s.clusterChain d) ∨
    ∃ d a, TreeEntry s d a ∧ c ∈ s.clusterChain (s.entryAt a).firstCluster

/-- Every cluster that is not free can be reached. -/
def AllReachable (s : Fat32) : Prop :=
  ∀ c, s.geo.validCluster c = true → s.fatCache c ≠ 0 → Reachable s c

instance (short : List UInt8) : Decidable (IsDots short) :=
  inferInstanceAs (Decidable (_ ∨ _))

/-- The clusters whose entries are cut off when `unlink` finds slot `a` and erases slot `r`.
What keeps a name also keeps its first cluster. -/
def cutClusters (s : Fat32) (short : List UInt8) (a r : Nat) : List Nat :=
  if IsDots short ∨ r ≠ a then (s.clusterChain (s.entryAt a).firstCluster).tail
  else s.clusterChain (s.entryAt a).firstCluster

/-- Nothing that `unlink` cuts off has a chain: no live entry in the clusters above, and
not the entry that it erases in the place of the one it found. -/
def CutsNothing (upper : List UInt8 → List UInt8) (s : Fat32) (dirId : Nat)
    (name : List UInt8) : Prop :=
  ∀ dir a r, s.inodes.get dirId = some dir →
    s.findSlot dir.firstCluster (toShortName upper name) = some a →
    removeFind s.entryAt (toShortName upper name) (s.slotAddrs dir.firstCluster) = some r →
      (∀ d b, TreeEntry s d b → b ∈ s.geo.slotsOf (s.cutClusters (toShortName upper name) a r) →
        (s.entryAt b).firstCluster = 0) ∧
      (IsDots (toShortName upper name) ∨ r = a ∨ (s.entryAt r).firstCluster = 0)

theorem InTree.isDir {s : Fat32} {d : Nat} (h : InTree s d) : IsDir s d := by
  induction h with
  | refl => exact IsDir.root
  | tail _ hedge ih =>
    obtain ⟨a, ha, he, hk, rfl⟩ := hedge
    exact IsDir.slot ih ha he hk

theorem TreeEntry.live {s : Fat32} {d a : Nat} (h : TreeEntry s d a) : LiveEntry s d a :=
  ⟨h.dir.isDir, h.slot, h.entry⟩

/-! ## Slots and their directories -/

namespace Geometry

variable {g : Geometry} {cs ds : List Nat} {b : Nat}

theorem exists_mem_slotsOf (h : b ∈ g.slotsOf cs) : ∃ c ∈ cs, b ∈ g.slotsOf [c] := by
  obtain ⟨c, hc, i, hi, rfl⟩ := mem_slotsOf.1 h
  exact ⟨c, hc, mem_slotsOf.2 ⟨c, List.mem_singleton_self c, i, hi, rfl⟩⟩

theorem mem_slotsOf_of_mem {c : Nat} (hc : c ∈ cs) (h : b ∈ g.slotsOf [c]) : b ∈ g.slotsOf cs := by
  obtain ⟨c', hc', i, hi, rfl⟩ := mem_slotsOf.1 h
  exact mem_slotsOf.2 ⟨c', List.mem_singleton.1 hc' ▸ hc, i, hi, rfl⟩

/-- A slot of two lists of clusters lies in a cluster of both. -/
theorem mem_of_mem_slotsOf (hcs : ∀ c ∈ cs, g.validCluster c = true)
    (hds : ∀ c ∈ ds, g.validCluster c = true) (h : b ∈ g.slotsOf cs) (h' : b ∈ g.slotsOf ds) :
    ∃ c ∈ cs, c ∈ ds ∧ b ∈ g.slotsOf [c] := by
  obtain ⟨c, hc, hb⟩ := exists_mem_slotsOf h
  obtain ⟨d, hd, hb'⟩ := exists_mem_slotsOf h'
  obtain ⟨c', hc', hin⟩ := inCluster_of_mem_slotsOf hb
  obtain ⟨d', hd', hin'⟩ := inCluster_of_mem_slotsOf hb'
  rw [List.mem_singleton] at hc' hd'
  subst hc' hd'
  have heq := InCluster.unique (validCluster_iff.1 (hcs _ hc)).1 (validCluster_iff.1 (hds _ hd)).1
    (hin 0 (by omega)) (hin' 0 (by omega))
  exact ⟨c', hc, heq ▸ hd, hb⟩

end Geometry

/-- A slot belongs to one directory. -/
theorem Good.slot_dir {s : Fat32} (hg : Good s) {d d' b : Nat} (hd : (namesOf s).heads d)
    (hd' : (namesOf s).heads d') (hb : b ∈ s.slotAddrs d) (hb' : b ∈ s.slotAddrs d') :
    d = d' := by
  obtain ⟨c, hc, hc', -⟩ := Geometry.mem_of_mem_slotsOf (s.valid_clusterChain d)
    (s.valid_clusterChain d') hb hb'
  by_contra hne
  exact hg.chains.disj d d' hd hd' hne c hc hc'

section order

variable {s : Fat32} (hs : InOrder s)

include hs

theorem InOrder.slot_dir {d d' b : Nat} (hd : (namesOf s).heads d) (hd' : (namesOf s).heads d')
    (hb : b ∈ s.slotAddrs d) (hb' : b ∈ s.slotAddrs d') : d = d' :=
  hs.good.slot_dir hd hd' hb hb'

/-- A head in a chain is the head of the chain. -/
theorem InOrder.head_eq {x y : Nat} (hx : (namesOf s).heads x) (hy : (namesOf s).heads y)
    (h0 : x ≠ 0) (h : x ∈ s.clusterChain y) : x = y := by
  by_contra hne
  have hself : x ∈ s.clusterChain x :=
    mem_chainOf_self ((hs.good.chains.valid x hx).resolve_left h0)
  exact hs.good.chains.disj x y hx hy hne x hself h

theorem InOrder.used {x : Nat} (hx : (namesOf s).heads x) (h0 : x ≠ 0) :
    s.geo.validCluster x = true ∧ s.fatCache x ≠ 0 := by
  have hv := (hs.good.chains.valid x hx).resolve_left h0
  exact ⟨hv, hs.good.chains.alloc x hx x (mem_chainOf_self hv)⟩

omit hs in
theorem TreeEntry.heads {d b : Nat} (h : TreeEntry s d b) :
    (namesOf s).heads (s.entryAt b).firstCluster :=
  Or.inr (Or.inl ⟨d, b, _, liveEntry_iff.1 h.live⟩)

omit hs in
theorem InTree.heads {d : Nat} (h : InTree s d) : (namesOf s).heads d := Or.inl h.isDir

omit hs in
theorem ne_zero_of_slot {d b : Nat} (h : b ∈ s.slotAddrs d) : d ≠ 0 := by
  rintro rfl
  rw [slotAddrs_zero] at h
  exact List.not_mem_nil h

omit hs in
/-- A reachable cluster lies in the chain of a head. -/
theorem Reachable.exists_head {c : Nat} (h : Reachable s c) :
    ∃ x, (namesOf s).heads x ∧ c ∈ s.clusterChain x := by
  rcases h with ⟨d, hd, hc⟩ | ⟨d, a, ha, hc⟩
  · exact ⟨d, hd.heads, hc⟩
  · exact ⟨_, ha.heads, hc⟩

/-- The directories behind the inodes are in the tree. -/
theorem InOrder.inTree_of_isDir (hall : AllReachable s) {d : Nat} (hd : IsDir s d) (h0 : d ≠ 0) :
    InTree s d := by
  obtain ⟨hv, hused⟩ := hs.used (Or.inl hd) h0
  rcases hall d hv hused with ⟨d', hd', hc⟩ | ⟨d', a, ha, hc⟩
  · rw [hs.head_eq (Or.inl hd) hd'.heads h0 hc]
    exact hd'
  · have heq := hs.head_eq (Or.inl hd) ha.heads h0 hc
    have hslot := liveEntry_iff.1 ha.live
    cases hk : (s.entryAt a).isDir with
    | true => exact Relation.ReflTransGen.tail ha.dir ⟨a, ha.slot, ha.entry, hk, heq.symm⟩
    | false =>
      rw [hk, ← heq] at hslot
      exact absurd hd (hs.good.names.slot_file hslot h0)

end order

/-! ## The effect of `unlink` -/

/-- Freeing a chain makes a directory no longer. -/
theorem slotAddrs_freeEntry (s : Fat32) (h d : Nat) :
    (s.freeEntry h).slotAddrs d <+: s.slotAddrs d := by
  obtain ⟨more, hmore⟩ := chainOf_shorter (g := s.geo) (s.freeEntry_fatCache h) d
  refine ⟨s.geo.slotsOf more, ?_⟩
  rw [slotAddrs, slotAddrs, clusterChain_def, clusterChain_def, (s.freeEntry_frame h).1,
    ← Geometry.slotsOf_append, hmore]

/-- A search that hits in a part of the slots hits the same slot in all of them. -/
theorem removeFind_append {f : Nat → RawDirEntry} {short : List UInt8} {l : List Nat} {r : Nat}
    (h : removeFind f short l = some r) (m : List Nat) : removeFind f short (l ++ m) = some r := by
  induction l with
  | nil => cases h
  | cons a l ih =>
    rw [removeFind] at h
    rw [List.cons_append, removeFind]
    split at h
    · cases h
    rename_i h0
    rw [if_neg h0]
    split at h
    · rename_i hskip
      rw [if_pos hskip]
      exact ih h
    · rename_i hskip
      rw [if_neg hskip]
      exact h

theorem removeFind_spec {f : Nat → RawDirEntry} {short : List UInt8} {l : List Nat} {r : Nat}
    (h : removeFind f short l = some r) :
    r ∈ l ∧ (f r).isFree = false ∧ (f r).attr ≠ attrLfn ∧ (f r).name = short := by
  induction l with
  | nil => cases h
  | cons a l ih =>
    rw [removeFind] at h
    split at h
    · cases h
    rename_i h0
    split at h
    · obtain ⟨hmem, hspec⟩ := ih h
      exact ⟨List.mem_cons_of_mem a hmem, hspec⟩
    · rename_i hskip
      cases h
      simp only [Bool.or_eq_true, not_or, Bool.not_eq_true] at h0 hskip
      obtain ⟨⟨hdel, hlfn⟩, hname⟩ := hskip
      refine ⟨List.mem_cons_self, ?_, ?_, ?_⟩
      · rw [RawDirEntry.isFree_eq, h0, hdel]
        rfl
      · exact fun heq => by simp [heq] at hlfn
      · simpa using hname

theorem unlink_of_ok {upper : List UInt8 → List UInt8} {s s' : Fat32} (hs : Sound s)
    {dirId : Nat} {name : List UInt8} (h : s.unlink upper dirId name = (.ok (), s')) :
    ∃ dir a r, s.inodes.get dirId = some dir ∧ dir.isDir = true ∧
      s.findSlot dir.firstCluster (toShortName upper name) = some a ∧
      removeFind s.entryAt (toShortName upper name) (s.slotAddrs dir.firstCluster) = some r ∧
      Erased s s' (s.entryAt a).firstCluster r := by
  rcases @unlink_cases upper s hs dirId name with ⟨e, heq⟩ | ⟨dir, a, hdir, hk, hfind, hcase⟩
  · rw [heq] at h
    cases h
  rcases hcase with ⟨-, heq⟩ | ⟨r, hrem, heq⟩
  · rw [heq] at h
    cases h
  rw [heq] at h
  obtain ⟨more, hmore⟩ := slotAddrs_freeEntry s (s.entryAt a).firstCluster dir.firstCluster
  have hfull := removeFind_append hrem more
  rw [hmore] at hfull
  exact ⟨dir, a, r, hdir, hk, hfind, hfull,
    (Prod.mk.inj h).2 ▸ erased_flushed (removeFind_spec hfull).1 rfl⟩

/-! ## Chains and slots afterwards -/

section erased

variable {s s' : Fat32} (hs : InOrder s) (hall : AllReachable s) {h r : Nat}
  (he : Erased s s' h r)

include hs hall

/-- The freed chain ends the chain of one head. -/
theorem InOrder.exists_append (hv : s.geo.validCluster h = true) (hused : s.fatCache h ≠ 0) :
    ∃ x pre, (namesOf s).heads x ∧ s.clusterChain x = pre ++ s.clusterChain h := by
  obtain ⟨x, hx, hmem⟩ := (hall h hv hused).exists_head
  obtain ⟨pre, hpre⟩ := exists_append_of_mem_chainOf (hs.good.chains.nodup x hx) hmem
  exact ⟨x, pre, hx, hpre⟩

omit hs hall in
theorem clusterChain_cons (hv : s.geo.validCluster h = true) :
    s.clusterChain h = h :: (s.clusterChain h).tail := by
  have hhead : (chainOf s.geo s.fatCache h).head? = some h := head?_chainOf hv
  rw [← clusterChain_def] at hhead
  cases hl : s.clusterChain h with
  | nil => simp [hl] at hhead
  | cons y tail =>
    rw [hl, List.head?_cons, Option.some.injEq] at hhead
    rw [hhead, List.tail_cons]

omit hs hall in
theorem clusterChain_of_free (hv : s.geo.validCluster h = true) (hfree : s.fatCache h = 0) :
    s.clusterChain h = [h] := by
  have hlast : nextCluster s.fatCache h = none := if_pos (Or.inr hfree)
  exact Chain.walk_eq (List.IsChain.singleton h) (by simpa using hlast) (by simpa using hv)
    (by simp [chainGuard])

include he

/-- Behind `unlink` the chains have lost what followed the first freed cluster. -/
theorem InOrder.mem_chain_erased {y : Nat} (hy : (namesOf s).heads y) (c : Nat) :
    c ∈ s'.clusterChain y ↔ c ∈ s.clusterChain y ∧ c ∉ (s.clusterChain h).tail := by
  rw [clusterChain_def, he.geo]
  cases hv : s.geo.validCluster h with
  | false =>
    have hnil : s.clusterChain h = [] := chainOf_eq_nil hv
    have hsame : ∀ x, s'.fatCache x = s.fatCache x := fun x => by
      rw [he.fatCache x, hnil, if_neg List.not_mem_nil]
    rw [chainOf_congr fun x _ => hsame x, hnil, List.tail_nil]
    simp [clusterChain_def]
  | true =>
    have hcons := clusterChain_cons hv
    by_cases hused : s.fatCache h = 0
    · have hone := clusterChain_of_free hv hused
      have hsame : ∀ x, s'.fatCache x = s.fatCache x := fun x => by
        rw [he.fatCache x, hone]
        split
        · rename_i hx
          rw [List.mem_singleton.1 hx, hused]
        · rfl
      rw [chainOf_congr fun x _ => hsame x, hone]
      simp [clusterChain_def]
    · obtain ⟨x, pre, hx, hpre⟩ := hs.exists_append hall hv hused
      have hnd := hs.good.chains.nodup x hx
      by_cases hyx : y = x
      · subst hyx
        rw [chainOf_cleared hnd hpre hv he.fatCache, hpre]
        rw [← clusterChain_def, hpre, hcons] at hnd
        have hdisj := List.disjoint_of_nodup_append hnd
        have hh := (List.nodup_cons.1 (List.Nodup.of_append_right hnd)).1
        rw [List.mem_append, List.mem_append, List.mem_singleton]
        conv_rhs => rw [hcons, List.mem_cons, List.tail_cons]
        constructor
        · rintro (hc | rfl)
          · exact ⟨Or.inl hc, fun ht => hdisj hc (List.mem_cons_of_mem h ht)⟩
          · exact ⟨Or.inr (Or.inl rfl), hh⟩
        · rintro ⟨hc | hc | hc, ht⟩
          · exact Or.inl hc
          · exact Or.inr hc
          · exact absurd hc ht
      · -- the chains of other heads do not meet the freed one
        have hout : ∀ z ∈ s.clusterChain y, z ∉ s.clusterChain h := fun z hz hzh => by
          refine hs.good.chains.disj y x hy hx hyx z hz ?_
          rw [← clusterChain_def, hpre]
          exact List.mem_append_right pre hzh
        have hsame : ∀ z ∈ s.clusterChain y, s'.fatCache z = s.fatCache z := fun z hz => by
          rw [he.fatCache z, if_neg (hout z hz)]
        rw [chainOf_congr hsame, ← clusterChain_def]
        exact ⟨fun hc => ⟨hc, fun ht => hout c hc (List.mem_of_mem_tail ht)⟩, And.left⟩

/-- The slots that are left. -/
theorem InOrder.mem_slotAddrs_erased {d b : Nat} (hd : (namesOf s).heads d) :
    b ∈ s'.slotAddrs d ↔ b ∈ s.slotAddrs d ∧ b ∉ s.geo.slotsOf (s.clusterChain h).tail := by
  have hmem := hs.mem_chain_erased hall he hd
  have hvalid : ∀ c ∈ s'.clusterChain d, s.geo.validCluster c = true := fun c hc =>
    he.geo ▸ s'.valid_clusterChain d c hc
  have hvalid' : ∀ c ∈ (s.clusterChain h).tail, s.geo.validCluster c = true := fun c hc =>
    s.valid_clusterChain h c (List.mem_of_mem_tail hc)
  rw [slotAddrs, slotAddrs, he.geo]
  constructor
  · intro hb
    obtain ⟨c, hc, hbc⟩ := Geometry.exists_mem_slotsOf hb
    refine ⟨Geometry.mem_slotsOf_of_mem ((hmem c).1 hc).1 hbc, fun ht => ?_⟩
    obtain ⟨c', hc', ht', -⟩ := Geometry.mem_of_mem_slotsOf hvalid hvalid' hb ht
    exact ((hmem c').1 hc').2 ht'
  · rintro ⟨hb, ht⟩
    obtain ⟨c, hc, hbc⟩ := Geometry.exists_mem_slotsOf hb
    refine Geometry.mem_slotsOf_of_mem ((hmem c).2 ⟨hc, fun hct => ht ?_⟩) hbc
    exact Geometry.mem_slotsOf_of_mem hct hbc

/-- An entry of a directory that is still reached was one before, and was not erased. -/
theorem InOrder.treeEntry_of_erased {d b : Nat} (hd : InTree s d) (hb : b ∈ s'.slotAddrs d)
    (hent : (s'.entryAt b).isEntry = true) :
    b ≠ r ∧ TreeEntry s d b ∧ s'.entryAt b = s.entryAt b := by
  have hbr : b ≠ r := by
    rintro rfl
    simp [RawDirEntry.isEntry, he.free] at hent
  have hslot := ((hs.mem_slotAddrs_erased hall he hd.heads).1 hb).1
  have heq := he.entry _ b hslot hbr
  exact ⟨hbr, ⟨hd, hslot, heq ▸ hent⟩, heq⟩

/-- A directory that is still reached was so before. -/
theorem InOrder.inTree_of_erased {d : Nat} (hd : InTree s' d) : InTree s d := by
  induction hd with
  | refl => exact he.geo ▸ Relation.ReflTransGen.refl
  | tail _ hedge ih =>
    obtain ⟨b, hb, hent, hk, rfl⟩ := hedge
    obtain ⟨-, htree, heq⟩ := hs.treeEntry_of_erased hall he ih hb hent
    rw [heq] at hk ⊢
    exact Relation.ReflTransGen.tail ih ⟨b, htree.slot, htree.entry, hk, rfl⟩

omit hall he in
/-- An entry with a chain is the only one that names it. -/
theorem InOrder.entry_unique {d d' b b' : Nat} (hb : TreeEntry s d b) (hb' : TreeEntry s d' b')
    (heq : (s.entryAt b').firstCluster = (s.entryAt b).firstCluster)
    (h0 : (s.entryAt b).firstCluster ≠ 0) : b' = b ∧ d' = d := by
  have hslot := liveEntry_iff.1 hb'.live
  rw [heq] at hslot
  obtain rfl := hs.good.names.slot_unique hslot (liveEntry_iff.1 hb.live) h0
  exact ⟨rfl, hs.slot_dir hb'.dir.heads hb.dir.heads hb'.slot hb.slot⟩

/-- A directory that is still reached is so by its own entry. -/
theorem InOrder.kept_of_inTree {d b : Nat} (hb : TreeEntry s d b)
    (h0 : (s.entryAt b).firstCluster ≠ 0) (hx : InTree s' (s.entryAt b).firstCluster) :
    InTree s' d ∧ b ∈ s'.slotAddrs d ∧ b ≠ r := by
  rcases Relation.ReflTransGen.cases_tail hx with heq | ⟨d', hd', b', hb', hent, -, heq⟩
  · rw [he.geo] at heq
    exact absurd heq (hs.good.names.slot_root (liveEntry_iff.1 hb.live) h0)
  · obtain ⟨hne, htree, hsame⟩ :=
      hs.treeEntry_of_erased hall he (hs.inTree_of_erased hall he hd') hb' hent
    rw [hsame] at heq
    obtain ⟨rfl, rfl⟩ := hs.entry_unique hb htree heq h0
    exact ⟨hd', hb', hne⟩

/-- Where nothing is lost, an entry whose chain is not freed is still there. -/
theorem InOrder.kept_of_allReachable (hall' : AllReachable s') {d b : Nat}
    (hb : TreeEntry s d b) (h0 : (s.entryAt b).firstCluster ≠ 0)
    (hout : (s.entryAt b).firstCluster ∉ s.clusterChain h) :
    InTree s' d ∧ b ∈ s'.slotAddrs d ∧ b ≠ r := by
  obtain ⟨hv, hused⟩ := hs.used hb.heads h0
  have hused' : s'.fatCache (s.entryAt b).firstCluster ≠ 0 := by
    rw [he.fatCache, if_neg hout]
    exact hused
  rcases hall' _ (he.geo.symm ▸ hv) hused' with ⟨d', hd', hc⟩ | ⟨d', b', hb', hc⟩
  · have hold := hs.inTree_of_erased hall he hd'
    have hmem := ((hs.mem_chain_erased hall he hold.heads _).1 hc).1
    rw [← hs.head_eq hb.heads hold.heads h0 hmem] at hd'
    exact hs.kept_of_inTree hall he hb h0 hd'
  · obtain ⟨hne, htree, hsame⟩ := hs.treeEntry_of_erased hall he
      (hs.inTree_of_erased hall he hb'.dir) hb'.slot hb'.entry
    rw [hsame] at hc
    have hmem := ((hs.mem_chain_erased hall he htree.heads _).1 hc).1
    have heq := hs.head_eq hb.heads htree.heads h0 hmem
    obtain ⟨rfl, rfl⟩ := hs.entry_unique hb htree heq.symm h0
    exact ⟨hb'.dir, hb'.slot, hne⟩

end erased

/-! ## When nothing is lost -/

section result

variable {s s' : Fat32} (hs : InOrder s) (hall : AllReachable s) {d₀ a r : Nat}
  {short : List UInt8} (hd₀ : InTree s d₀) (hfind : s.findSlot d₀ short = some a)
  (hrem : removeFind s.entryAt short (s.slotAddrs d₀) = some r)
  (he : Erased s s' (s.entryAt a).firstCluster r)

include hd₀ in
omit hs hall he in
theorem treeEntry_found (hfind : s.findSlot d₀ short = some a) (hdots : ¬ IsDots short) :
    TreeEntry s d₀ a := by
  obtain ⟨ha, hlive, hname⟩ := findSlot_spec hfind
  exact ⟨hd₀, ha, RawDirEntry.isEntry_of_isLive hlive
    (fun heq => hdots (Or.inl (hname ▸ heq))) fun heq => hdots (Or.inr (hname ▸ heq))⟩

include hd₀ in
omit hs hall he in
theorem treeEntry_removed (hrem : removeFind s.entryAt short (s.slotAddrs d₀) = some r)
    (hdots : ¬ IsDots short) : TreeEntry s d₀ r := by
  obtain ⟨hr, hfree, hlfn, hname⟩ := removeFind_spec hrem
  have h1 : (s.entryAt r).name ≠ dotName := fun heq => hdots (Or.inl (hname ▸ heq))
  have h2 : (s.entryAt r).name ≠ dotdotName := fun heq => hdots (Or.inr (hname ▸ heq))
  exact ⟨hd₀, hr, by simp [RawDirEntry.isEntry, hfree, hlfn, h1, h2]⟩

theorem mem_of_mem_cutClusters {c : Nat} (h : c ∈ s.cutClusters short a r) :
    c ∈ s.clusterChain (s.entryAt a).firstCluster := by
  rw [cutClusters] at h
  split at h
  · exact List.mem_of_mem_tail h
  · exact h

include hs hall

/-- What is cut off belongs to a directory that the freed chain is the end of. -/
theorem InOrder.chain_subset {d b : Nat} (hb : TreeEntry s d b)
    (hcut : b ∈ s.geo.slotsOf (s.cutClusters short a r)) :
    s.geo.validCluster (s.entryAt a).firstCluster = true ∧
      (∀ x ∈ s.clusterChain (s.entryAt a).firstCluster, x ∈ s.clusterChain d) := by
  have hvalid : ∀ c ∈ s.cutClusters short a r, s.geo.validCluster c = true := fun c hc =>
    s.valid_clusterChain _ c (mem_of_mem_cutClusters hc)
  obtain ⟨c, hcc, hcd, -⟩ :=
    Geometry.mem_of_mem_slotsOf hvalid (s.valid_clusterChain d) hcut hb.slot
  have hc := mem_of_mem_cutClusters hcc
  generalize (s.entryAt a).firstCluster = h at *
  have hv : s.geo.validCluster h = true :=
    chainOf_ne_nil_iff.1 (List.ne_nil_of_mem hc)
  have hused : s.fatCache h ≠ 0 := by
    intro hfree
    rw [clusterChain_of_free hv hfree, List.mem_singleton] at hc
    exact hs.good.chains.alloc d hb.dir.heads c hcd (hc ▸ hfree)
  obtain ⟨x, pre, hx, hpre⟩ := hs.exists_append hall hv hused
  have hxd : x = d := by
    by_contra hne
    refine hs.good.chains.disj x d hx hb.dir.heads hne c ?_ hcd
    rw [← clusterChain_def, hpre]
    exact List.mem_append_right pre hc
  refine ⟨hv, fun y hy => ?_⟩
  rw [← hxd, hpre]
  exact List.mem_append_right pre hy

include hd₀ hfind hrem he

omit hrem in
/-- Where nothing is lost, nothing that was cut off has a chain. -/
theorem InOrder.cut_of_allReachable (hall' : AllReachable s') {d b : Nat}
    (hb : TreeEntry s d b) (hcut : b ∈ s.geo.slotsOf (s.cutClusters short a r)) :
    (s.entryAt b).firstCluster = 0 := by
  by_contra h0
  obtain ⟨hv, hsub⟩ := hs.chain_subset hall hb hcut
  have hout : (s.entryAt b).firstCluster ∉ s.clusterChain (s.entryAt a).firstCluster := by
    intro hmem
    have heq := hs.head_eq hb.heads hb.dir.heads h0 (hsub _ hmem)
    exact hs.noSelf (liveEntry_iff.1 hb.live) h0 heq
  obtain ⟨hd', hb', -⟩ := hs.kept_of_allReachable hall he hall' hb h0 hout
  have htail := ((hs.mem_slotAddrs_erased hall he hb.dir.heads).1 hb').2
  rw [cutClusters] at hcut
  split at hcut
  · exact htail hcut
  · rename_i hagree
    obtain ⟨hdots, hra⟩ := not_or.1 hagree
    have ha := treeEntry_found hd₀ hfind hdots
    have h0' : (s.entryAt a).firstCluster ≠ 0 := by
      have := (Geometry.validCluster_iff.1 hv).1
      omega
    have hself := hsub _ (clusterChain_cons hv ▸ List.mem_cons_self)
    rw [← hs.head_eq ha.heads hb.dir.heads h0' hself] at hd'
    exact (hs.kept_of_inTree hall he ha h0' hd').2.2 (not_not.1 hra).symm

/-- Where nothing is lost, the erased entry is the one that was found, or has no chain. -/
theorem InOrder.erased_of_allReachable (hall' : AllReachable s') :
    IsDots short ∨ r = a ∨ (s.entryAt r).firstCluster = 0 := by
  by_contra hnot
  obtain ⟨hdots, hra, h0⟩ : ¬ IsDots short ∧ r ≠ a ∧ (s.entryAt r).firstCluster ≠ 0 := by
    simpa [not_or] using hnot
  have ha := treeEntry_found hd₀ hfind hdots
  have hr := treeEntry_removed hd₀ hrem hdots
  refine (hs.kept_of_allReachable hall he hall' hr h0 fun hmem => hra ?_).2.2 rfl
  have heq := hs.head_eq hr.heads ha.heads h0 hmem
  exact (hs.entry_unique ha hr heq (heq ▸ h0)).1

variable
  (hcut : ∀ d b, TreeEntry s d b → b ∈ s.geo.slotsOf (s.cutClusters short a r) →
    (s.entryAt b).firstCluster = 0)
  (hr : IsDots short ∨ r = a ∨ (s.entryAt r).firstCluster = 0)

include hcut hr

omit hd₀ in
/-- Entries with a chain that is not freed are kept. -/
theorem InOrder.kept_of_cutsNothing {d b : Nat} (hb : TreeEntry s d b)
    (h0 : (s.entryAt b).firstCluster ≠ 0)
    (hne : ¬ (IsDots short ∨ r ≠ a) →
      (s.entryAt b).firstCluster ≠ (s.entryAt a).firstCluster) :
    (¬ (IsDots short ∨ r ≠ a) → d ≠ (s.entryAt a).firstCluster) ∧ b ∈ s'.slotAddrs d ∧
      s'.entryAt b = s.entryAt b := by
  have hbcut : b ∉ s.geo.slotsOf (s.cutClusters short a r) := fun hmem => h0 (hcut d b hb hmem)
  have hbr : b ≠ r := by
    rintro rfl
    obtain ⟨-, -, -, hname⟩ := removeFind_spec hrem
    by_cases hdots : IsDots short
    · have hent := hb.entry
      rw [RawDirEntry.isEntry_of_dot (hname ▸ hdots)] at hent
      cases hent
    rcases hr with hd | rfl | h
    · exact hdots hd
    · exact hne (by simpa using hdots) rfl
    · exact h0 h
  refine ⟨fun hagree hd => hbcut ?_, (hs.mem_slotAddrs_erased hall he hb.dir.heads).2
    ⟨hb.slot, fun htail => hbcut ?_⟩, he.entry _ b hb.slot hbr⟩
  · rw [cutClusters, if_neg hagree, ← hd]
    exact hb.slot
  · rw [cutClusters]
    split
    · exact htail
    · obtain ⟨c, hc, hbc⟩ := Geometry.exists_mem_slotsOf htail
      exact Geometry.mem_slotsOf_of_mem (List.mem_of_mem_tail hc) hbc

omit hd₀ in
theorem InOrder.inTree_kept {d : Nat} (hd : InTree s d) (h0 : d ≠ 0)
    (hne : ¬ (IsDots short ∨ r ≠ a) → d ≠ (s.entryAt a).firstCluster) : InTree s' d := by
  induction hd with
  | refl => exact he.geo ▸ Relation.ReflTransGen.refl
  | @tail d x hd hedge ih =>
    obtain ⟨b, hb, hent, hk, rfl⟩ := hedge
    obtain ⟨hdne, hslot, hsame⟩ :=
      hs.kept_of_cutsNothing hall hfind hrem he hcut hr ⟨hd, hb, hent⟩ h0 hne
    refine Relation.ReflTransGen.tail (ih (ne_zero_of_slot hb) hdne) ⟨b, hslot, ?_⟩
    rw [hsame]
    exact ⟨hent, hk, rfl⟩

omit hd₀ in
/-- Where nothing that is cut off has a chain, nothing is lost. -/
theorem InOrder.allReachable_of_cutsNothing : AllReachable s' := by
  intro c hv hused
  rw [he.geo] at hv
  rw [he.fatCache] at hused
  split at hused
  · exact absurd rfl hused
  rename_i hfree
  have htail : c ∉ (s.clusterChain (s.entryAt a).firstCluster).tail := fun hmem =>
    hfree (List.mem_of_mem_tail hmem)
  have hnil : ∀ {x}, c ∈ s.clusterChain x → x ≠ 0 := by
    rintro x hc rfl
    rw [clusterChain_def, chainOf_zero] at hc
    exact List.not_mem_nil hc
  have hother : ∀ {x}, c ∈ s.clusterChain x → x ≠ (s.entryAt a).firstCluster := by
    rintro x hc rfl
    exact hfree hc
  rcases hall c hv hused with ⟨d, hd, hc⟩ | ⟨d, b, hb, hc⟩
  · left
    refine ⟨d, hs.inTree_kept hall hfind hrem he hcut hr hd (hnil hc) fun _ => hother hc, ?_⟩
    exact (hs.mem_chain_erased hall he hd.heads c).2 ⟨hc, htail⟩
  · right
    obtain ⟨hdne, hslot, hsame⟩ :=
      hs.kept_of_cutsNothing hall hfind hrem he hcut hr hb (hnil hc) fun _ => hother hc
    have hd' := hs.inTree_kept hall hfind hrem he hcut hr hb.dir (ne_zero_of_slot hb.slot) hdne
    refine ⟨d, b, ⟨hd', hslot, hsame ▸ hb.entry⟩, ?_⟩
    rw [hsame]
    exact (hs.mem_chain_erased hall he hb.heads c).2 ⟨hc, htail⟩

end result

/-- On a volume in order on which every cluster in use can be reached, a successful
`unlink` keeps this just when nothing that it cuts off has a chain. -/
theorem allReachable_unlink {upper : List UInt8 → List UInt8} {s s' : Fat32} (hs : InOrder s)
    (hall : AllReachable s) {dirId : Nat} {name : List UInt8}
    (h : s.unlink upper dirId name = (.ok (), s')) :
    AllReachable s' ↔ CutsNothing upper s dirId name := by
  obtain ⟨dir, a, r, hdir, hk, hfind, hrem, he⟩ := unlink_of_ok hs.good.sound h
  have hd₀ : InTree s dir.firstCluster :=
    hs.inTree_of_isDir hall (IsDir.inode hdir hk) (ne_zero_of_slot (findSlot_spec hfind).1)
  constructor
  · intro hall' dir' a' r' hdir' hfind' hrem'
    obtain rfl := Option.some.inj (hdir.symm.trans hdir')
    obtain rfl := Option.some.inj (hfind.symm.trans hfind')
    obtain rfl := Option.some.inj (hrem.symm.trans hrem')
    exact ⟨fun d b hb hcut => hs.cut_of_allReachable hall hd₀ hfind he hall' hb hcut,
      hs.erased_of_allReachable hall hd₀ hfind hrem he hall'⟩
  · intro hcuts
    obtain ⟨hcut, hr⟩ := hcuts dir a r hdir hfind hrem
    exact hs.allReachable_of_cutsNothing hall hfind hrem he hcut hr

/-- For a name other than `.` and `..` that both searches find in one slot: the name stands
for no directory with an entry that has a chain. -/
theorem cutsNothing_iff {upper : List UInt8 → List UInt8} {s : Fat32} (hs : InOrder s)
    (hall : AllReachable s) {dirId a : Nat} {name : List UInt8} {dir : FatInode}
    (hdir : s.inodes.get dirId = some dir) (hk : dir.isDir = true)
    (hfind : s.findSlot dir.firstCluster (toShortName upper name) = some a)
    (hrem : removeFind s.entryAt (toShortName upper name) (s.slotAddrs dir.firstCluster) = some a)
    (hdots : ¬ IsDots (toShortName upper name)) :
    CutsNothing upper s dirId name ↔
      ∀ b, TreeEntry s (s.entryAt a).firstCluster b → (s.entryAt b).firstCluster = 0 := by
  have hd₀ : InTree s dir.firstCluster :=
    hs.inTree_of_isDir hall (IsDir.inode hdir hk) (ne_zero_of_slot (findSlot_spec hfind).1)
  have hcut : s.cutClusters (toShortName upper name) a a =
      s.clusterChain (s.entryAt a).firstCluster := if_neg (by simpa using hdots)
  constructor
  · intro h b hb
    exact (h dir a a hdir hfind hrem).1 _ b hb (hcut ▸ hb.slot)
  · intro h dir' a' r' hdir' hfind' hrem'
    obtain rfl := Option.some.inj (hdir.symm.trans hdir')
    obtain rfl := Option.some.inj (hfind.symm.trans hfind')
    obtain rfl := Option.some.inj (hrem.symm.trans hrem')
    refine ⟨fun d b hb hmem => h b ?_, Or.inr (Or.inl rfl)⟩
    rw [hcut] at hmem
    have ha := treeEntry_found hd₀ hfind hdots
    rwa [hs.slot_dir ha.heads hb.dir.heads hmem hb.slot]

/-! ## The volume with one file -/

theorem oneFileMount_allReachable : AllReachable oneFileMount := by
  intro c hv hused
  have hfat : oneFileMount.fatCache c = twoClusterFat c := Flat.fatCache_mount twoClusterFat_lt hv
  rw [hfat, twoClusterFat] at hused
  obtain ⟨⟨-, hslot, hent⟩, hentry⟩ := oneFileMount_entry
  have hchain : oneFileMount.clusterChain 3 = [3, 4] :=
    (Flat.chain_mount twoClusterFat_lt 3).trans twoClusterFat_chain
  have hfile : c ∈ [3, 4] → Reachable oneFileMount c := fun hc => by
    refine Or.inr ⟨2, _, ⟨Relation.ReflTransGen.refl, hslot, hent⟩, ?_⟩
    rw [hentry]
    exact hchain ▸ hc
  by_cases h2 : c = 2
  · subst h2
    exact Or.inl ⟨2, Relation.ReflTransGen.refl, mem_chainOf_self hv⟩
  · refine hfile ?_
    split_ifs at hused
    · simp_all
    · simp_all
    · simp_all

theorem oneFileMount_cutsNothing : CutsNothing id oneFileMount 1 [0x41] := by
  have hs := oneFileMount_clean.inOrder
  obtain ⟨hlive, hentry⟩ := oneFileMount_entry
  have hname : toShortName id [0x41] = nameA := by decide
  have hfind : oneFileMount.findSlot 2 nameA = some (rootSlot smallGeometry 0) := by
    decide +kernel
  have hrem : removeFind oneFileMount.entryAt nameA (oneFileMount.slotAddrs 2) =
      some (rootSlot smallGeometry 0) := by decide +kernel
  have hdir : oneFileMount.inodes.get 1 = some ⟨2, 0, true⟩ := rfl
  refine (cutsNothing_iff hs oneFileMount_allReachable hdir rfl
    (hname ▸ hfind) (hname ▸ hrem) (by unfold IsDots; decide)).2 fun b hb => ?_
  have hslot := liveEntry_iff.1 hlive
  rw [hentry] at hslot hb
  exact absurd hb.dir.isDir (hs.good.names.slot_file hslot (by decide))

end AeroOS.Fat32
