import AeroOS.Fat32.EntryEffects
import AeroOS.Fat32.NewEntries

/-!
# FAT32: a new entry among the old ones

`write_dir_entry` puts an entry into a directory, and `read_dir_raw` lists it.

* `inserted` is the list with the entry: in the first free slot, or at the beginning
  of one more cluster.
* `readDirRaw_slot` and `readDirRaw_cluster` are the two ways of the code.
* `writeDirEntry_inserts` is the result, with the chains and the bytes that stay.
-/

namespace AeroOS.Fat32

open Bytes

variable {s s' : Fat32} {d : Nat} {e : RawDirEntry}

/-! ## The list with the entry -/

/-- An entry of zeros. -/
def zeroEntry : RawDirEntry := RawDirEntry.ofBytes (fun _ => 0) 0

/-- `e` takes the place of the first free entry.  Without one it begins a cluster of `n`
entries behind the list, which has only zeros besides. -/
def inserted (n : Nat) (e : RawDirEntry) (l : List RawDirEntry) : List RawDirEntry :=
  match l.findIdx? RawDirEntry.isFree with
  | some i => l.set i e
  | none => l ++ e :: List.replicate (n - 1) zeroEntry

/-- A map that differs at one member of a list without duplicates. -/
theorem map_eq_set {α β : Type} {l : List α} (hnd : l.Nodup) {f g : α → β} {i : Nat} {a : α}
    (hi : l[i]? = some a) (h : ∀ b ∈ l, b ≠ a → g b = f b) : l.map g = (l.map f).set i (g a) := by
  apply List.ext_getElem?
  intro j
  rw [List.getElem?_set, List.getElem?_map, List.getElem?_map, List.length_map]
  obtain ⟨hlt, hget⟩ := List.getElem?_eq_some_iff.1 hi
  by_cases hij : i = j
  · subst hij
    rw [if_pos rfl, if_pos hlt, hi]
    rfl
  · rw [if_neg hij]
    cases hj : l[j]? with
    | none => rfl
    | some b =>
      refine congrArg some (h b (List.mem_of_getElem? hj) ?_)
      intro heq
      subst heq
      exact hij ((List.getElem?_inj hlt hnd).1 (hi.trans hj.symm))

/-! ## The two ways -/

/-- A slot of a fresh cluster behind its entries has zeros. -/
theorem ofBytes_freshCluster_zero {g : Geometry} {es : List RawDirEntry} (m : Store) (a : Nat)
    {i : Nat} (hi : es.length ≤ i) (hi' : i < g.bytesPerCluster / 32) :
    RawDirEntry.ofBytes (writeBytes m a (freshCluster g es)) (a + i * 32) = zeroEntry := by
  have hlen := flatMap_length RawDirEntry.pack_length es
  apply RawDirEntry.ofBytes_congr
  intro k hk
  rw [Nat.add_assoc, writeBytes_in m a (by rw [freshCluster_length (by omega)]; omega) 0,
    freshCluster, List.getD, List.getElem?_append_right (by omega), List.getElem?_replicate,
    if_pos (by omega)]
  rfl

/-- The entry goes into a free slot. -/
theorem readDirRaw_slot (hs : Sound s) (hnd : (s.clusterChain d).Nodup) (he : e.stored = e)
    {i : Nat} {a : Nat} (hi : (s.slotAddrs d)[i]? = some a) :
    (s.setBytes (writeBytes s.disk.bytes a e.pack)).readDirRaw d = (s.readDirRaw d).set i e := by
  have ha : a ∈ s.slotAddrs d := List.mem_of_getElem? hi
  have hnew : (s.setBytes (writeBytes s.disk.bytes a e.pack)).entryAt a = e :=
    (RawDirEntry.ofBytes_writeBytes_pack _ _ _).trans he
  have hslots : (s.slotAddrs d).Nodup := Geometry.slotsOf_nodup hnd (s.valid_clusterChain d)
  rw [readDirRaw_eq (hs.setBytes _), readDirRaw_eq hs]
  show (s.slotAddrs d).map _ = _
  rw [map_eq_set hslots hi fun b hb hne => entryAt_pack_of_ne ha hb hne, hnew]

/-- The slots of a cluster with one entry. -/
theorem map_entryAt_fresh (he : e.stored = e) {c : Nat} {m : Store}
    (hm : ∀ x, s.geo.dataAddr ≤ x →
      m x = writeBytes s.disk.bytes (s.geo.clusterAddr c) (freshCluster s.geo [e]) x) :
    (s.geo.slotsOf [c]).map (s.setBytes m).entryAt =
      e :: List.replicate (s.slotCount - 1) zeroEntry := by
  have hpos : 0 < s.slotCount := by
    have hfit := one_fits s.geo e
    rw [List.length_singleton] at hfit
    rw [slotCount]
    omega
  have hslots : s.geo.slotsOf [c] =
      (List.range s.slotCount).map fun i => s.geo.clusterAddr c + i * 32 :=
    List.flatMap_singleton ..
  apply List.ext_getElem?
  intro i
  rw [hslots, List.map_map, List.getElem?_map]
  by_cases hi : i < s.slotCount
  · rw [List.getElem?_range hi, Option.map_some, Function.comp, entryAt_fresh hm i]
    cases i with
    | zero =>
      rw [ofBytes_freshCluster s.disk.bytes _ Nat.one_pos]
      exact congrArg some he
    | succ i =>
      rw [ofBytes_freshCluster_zero s.disk.bytes _ (Nat.succ_pos i) hi, List.getElem?_cons_succ,
        List.getElem?_replicate, if_pos (by omega)]
  · rw [List.getElem?_eq_none (by rw [List.length_range]; omega), List.getElem?_eq_none]
    · rfl
    · rw [List.length_cons, List.length_replicate]
      omega

/-- The entry begins a new cluster. -/
theorem readDirRaw_cluster (hs : Sound s) (he : e.stored = e) {c last : Nat} {m : Store}
    (hv : s.geo.validCluster c = true) (hnew : c ∉ s.clusterChain d)
    (hchain : ((s.linkFat last c).setBytes m).clusterChain d = s.clusterChain d ++ [c])
    (hm : ∀ x, s.geo.dataAddr ≤ x →
      m x = writeBytes s.disk.bytes (s.geo.clusterAddr c) (freshCluster s.geo [e]) x) :
    ((s.linkFat last c).setBytes m).readDirRaw d =
      s.readDirRaw d ++ e :: List.replicate (s.slotCount - 1) zeroEntry := by
  have hsound : Sound ((s.linkFat last c).setBytes m) := hs.of_eq rfl rfl
  have hold : ∀ a ∈ s.slotAddrs d, a ∉ s.geo.slotsOf [c] := by
    intro a ha hin
    obtain ⟨c', hc', hin'⟩ := Geometry.inCluster_of_mem_slotsOf ha
    obtain ⟨c'', hc'', hin''⟩ := Geometry.inCluster_of_mem_slotsOf hin
    have hv' := Geometry.validCluster_iff.mp (s.valid_clusterChain d c' hc')
    rw [List.mem_singleton.mp hc''] at hin''
    have heq := Geometry.InCluster.unique hv'.1 (Geometry.validCluster_iff.mp hv).1
      (hin' 0 (by omega)) (hin'' 0 (by omega))
    exact hnew (heq ▸ hc')
  rw [readDirRaw_eq hsound, readDirRaw_eq hs, slotAddrs, hchain]
  show (s.geo.slotsOf (s.clusterChain d ++ [c])).map (s.setBytes m).entryAt = _
  rw [Geometry.slotsOf_append, List.map_append, map_entryAt_fresh he hm]
  congr 1
  apply List.map_congr_left
  intro a ha
  exact entryAt_fresh_of_not_mem (one_fits s.geo e) (Geometry.validCluster_iff.mp hv).1 hm
    (s.valid_clusterChain d) ha (hold a ha)

/-! ## `write_dir_entry` -/

/-- The place of the first free slot is that of the first free entry. -/
theorem findIdx?_readDirRaw (hs : Sound s) :
    (s.readDirRaw d).findIdx? RawDirEntry.isFree =
      (s.slotAddrs d).findIdx? fun a => (s.entryAt a).isFree := by
  rw [readDirRaw_eq hs, List.findIdx?_map]
  rfl

/-- A search and its place. -/
theorem getElem?_of_find? {α : Type} {l : List α} {p : α → Bool} {a : α} (h : l.find? p = some a) :
    ∃ i, l.findIdx? p = some i ∧ l[i]? = some a := by
  obtain ⟨hp, i, hi, hget, hbefore⟩ := List.find?_eq_some_iff_getElem.1 h
  refine ⟨i, List.findIdx?_eq_some_iff_getElem.2 ⟨hi, hget.symm ▸ hp, ?_⟩, ?_⟩
  · intro j hj
    simpa using hbefore j hj
  · rw [List.getElem?_eq_getElem hi, hget]

/-- The list of a directory after an entry was written. -/
theorem readDirRaw_inserted (hg : Good s) (hd : IsDir s d) (he : e.stored = e)
    (h : s.writeDirEntry d e true = (.ok (), s')) :
    s'.readDirRaw d = inserted s.slotCount e (s.readDirRaw d) := by
  have hs := hg.sound
  rw [inserted, findIdx?_readDirRaw hs]
  cases hfind : (s.slotAddrs d).find? fun a => (s.entryAt a).isFree with
  | some a =>
    obtain ⟨i, hidx, hi⟩ := getElem?_of_find? hfind
    rw [writeDirEntry_first hs true hfind] at h
    obtain ⟨-, rfl⟩ := Prod.mk.inj h
    rw [hidx]
    exact readDirRaw_slot hs (hg.chains.nodup d (Or.inl hd)) he hi
  | none =>
    have hused := List.find?_eq_none.1 hfind
    rw [List.findIdx?_eq_none_iff.2 fun a ha => by simpa using hused a ha]
    rcases writeDirEntry_shape hs d e with ⟨err, -, -, heq⟩ | ⟨c, err, -, -, -, heq⟩ |
      ⟨a, ha, hfree, -⟩ | ⟨c, last, m, hv, hc, hgl, -, hm, heq⟩
    · rw [h] at heq
      cases heq
    · rw [h] at heq
      cases heq
    · exact absurd hfree (hused a ha)
    · rw [h] at heq
      obtain ⟨-, rfl⟩ := Prod.mk.inj heq
      have hnew := hg.chains.not_mem_of_free hc (Or.inl hd : (namesOf s).heads d)
      have hlc : last ≠ c := by
        intro heq
        exact hnew (heq ▸ List.mem_of_getLast? hgl)
      have hsame : ∀ x, x ≠ last → x ≠ c → (s.linkFat last c).fatCache x = s.fatCache x := by
        intro x hxl hxc
        rw [linkFat, setFat_of_ne _ _ _ hxc, setFat_of_ne _ _ _ hxl, setFat_of_ne _ _ _ hxc]
      have hlast : (s.linkFat last c).fatCache last = c := by
        rw [linkFat, setFat_of_ne _ _ _ hlc, setFat_self]
      have hlink := hg.chains.link (Or.inl hd) hgl hv hc hsame hlast (setFat_self _ c fatEoc)
      exact readDirRaw_cluster hs he hv hnew hlink.1 hm

/-- An entry is put into a directory of a volume in order.  Its list has the entry, field
by field, in the first free slot or at the beginning of a further cluster, and is otherwise
the same; every other file and directory keeps its chain, and the bytes in it. -/
theorem writeDirEntry_inserts (hg : Good s) (hd : IsDir s d) (he : e.stored = e)
    (h : s.writeDirEntry d e true = (.ok (), s')) :
    s'.readDirRaw d = inserted s.slotCount e (s.readDirRaw d) ∧
      ∀ f, (namesOf s).heads f → f ≠ d → s'.clusterChain f = s.clusterChain f ∧
        ∀ c ∈ s.clusterChain f, ∀ x, s.geo.InCluster c x →
          s'.disk.bytes x = s.disk.bytes x := by
  refine ⟨readDirRaw_inserted hg hd he h, ?_⟩
  intro f hf hfd
  rcases writeDirEntry_cases hg.sound hg.chains (Or.inl hd) he with
    ⟨err, heq⟩ | ⟨c, err, -, -, heq⟩ | ⟨a, t, hent, heq⟩
  · rw [h] at heq
    cases heq
  · rw [h] at heq
    cases heq
  · rw [h] at heq
    obtain ⟨-, rfl⟩ := Prod.mk.inj heq
    have hchain := hent.others f hf hfd
    refine ⟨hchain, ?_⟩
    intro c hc x hx
    have hc' : c ∈ s'.clusterChain f := by rwa [hchain]
    exact hent.bytes c x (Geometry.validCluster_iff.mp (s.valid_clusterChain f c hc)).1
      (hent.chains.disj f d hf (Or.inl hd) hfd c hc') hx

theorem emptyMount_first : (emptyMount.slotAddrs 2).find? (fun a => (emptyMount.entryAt a).isFree) =
    some (rootSlot smallGeometry 0) := by
  have hfree : rootSlot smallGeometry 0 ∈ emptyMount.slotAddrs 2 := by
    rw [emptyMount_slotAddrs]
    exact List.mem_map_of_mem (by decide)
  rw [emptyMount_slotAddrs]
  exact List.find?_cons_of_pos (emptyMount_free hfree)

/-- An entry `A` on an empty volume. -/
theorem writeDirEntry_inserts_A : ∃ s',
    emptyMount.writeDirEntry 2 (entryA 0 0) true = (.ok (), s') ∧
      s'.readDirRaw 2 = inserted 16 (entryA 0 0) (emptyMount.readDirRaw 2) := by
  have hwrite := writeDirEntry_first emptyMount_sound (e := entryA 0 0) true emptyMount_first
  exact ⟨_, hwrite, (writeDirEntry_inserts (flat_empty.good_mount rootFat_lt) IsDir.root rfl
    hwrite).1⟩

end AeroOS.Fat32
