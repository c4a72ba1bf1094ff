import AeroOS.Fat32.Frame

/-!
# FAT32: a new directory entry

`write_dir_entry` fills the first free slot of a directory, or hangs a new
cluster behind it and fills its first slot.  `Entered` is what both leave
behind: the entry at its address, every other entry of the directory where it
was or a free slot, and the other chains untouched.

`writeDirEntry_cases` gives it for every call that succeeds, and the two states
that a failed call can leave.
-/

namespace AeroOS.Fat32

open Bytes

/-! ## A cluster of fresh entries -/

/-- The bytes of a new directory cluster with entries `es` at its beginning. -/
def freshCluster (g : Geometry) (es : List RawDirEntry) : List UInt8 :=
  es.flatMap RawDirEntry.pack ++ List.replicate (g.bytesPerCluster - es.length * 32) 0

section freshCluster

variable {g : Geometry} {es : List RawDirEntry}

theorem freshCluster_length (h : es.length * 32 ≤ g.bytesPerCluster) :
    (freshCluster g es).length = g.bytesPerCluster := by
  rw [freshCluster, List.length_append, flatMap_length RawDirEntry.pack_length,
    List.length_replicate]
  omega

theorem freshCluster_one (g : Geometry) (e : RawDirEntry) :
    patch (List.replicate g.bytesPerCluster 0) 0 e.pack = freshCluster g [e] := by
  simp [patch, freshCluster]

theorem freshCluster_two (g : Geometry) (e e' : RawDirEntry) :
    patch (patch (List.replicate g.bytesPerCluster 0) 0 e.pack) 32 e'.pack =
      freshCluster g [e, e'] := by
  have hB := g.sectorsPerCluster_pos
  have h := patch_append (l := List.replicate g.bytesPerCluster 0) (p := e.pack) (q := e'.pack)
    (o := 0) (by
      rw [List.length_replicate, e.pack_length, e'.pack_length, g.bytesPerCluster_eq]
      omega)
  rw [e.pack_length] at h
  rw [h]
  simp [patch, freshCluster]

/-- The entries of a fresh cluster are where they were put. -/
theorem ofBytes_freshCluster (m : Store) (a : Nat) {i : Nat} (hi : i < es.length) :
    RawDirEntry.ofBytes (writeBytes m a (freshCluster g es)) (a + i * 32) = es[i].stored := by
  have hlen := flatMap_length RawDirEntry.pack_length es
  rw [← RawDirEntry.ofBytes_writeBytes_pack m (a + i * 32) es[i]]
  refine RawDirEntry.ofBytes_congr fun k hk => ?_
  have hin : i * 32 + k < (es.flatMap RawDirEntry.pack).length := by omega
  rw [writeBytes_in _ _ (by simpa using hk) 0, Nat.add_assoc,
    writeBytes_in m a (by rw [freshCluster, List.length_append]; omega) 0,
    ← flatMap_getD RawDirEntry.pack_length es hi hk 0, freshCluster, List.getD, List.getD,
    List.getElem?_append_left hin]

/-- Behind its entries a fresh cluster is empty. -/
theorem isFree_freshCluster (m : Store) (a : Nat) {i : Nat} (hi : es.length ≤ i)
    (hi' : i < g.bytesPerCluster / 32) :
    (RawDirEntry.ofBytes (writeBytes m a (freshCluster g es)) (a + i * 32)).isFree = true := by
  have hlen := flatMap_length RawDirEntry.pack_length es
  have hzero : writeBytes m a (freshCluster g es) (a + i * 32) = 0 := by
    rw [writeBytes_in m a (by rw [freshCluster_length (by omega)]; omega) 0, freshCluster,
      List.getD, List.getElem?_append_right (by omega), List.getElem?_replicate,
      if_pos (by omega)]
    rfl
  rw [RawDirEntry.isFree_eq, RawDirEntry.ofBytes_first, hzero]
  rfl

end freshCluster

/-! ## What a new entry changes -/

/-- Entry `e` was written at address `a` of directory `d`.  `H` are the heads in
use. -/
structure Entered (H : Nat → Prop) (s s' : Fat32) (d a : Nat) (e : RawDirEntry) : Prop where
  geo : s'.geo = s.geo
  inodes : s'.inodes = s.inodes
  present : s'.disk.present = s.disk.present
  chains : ChainsOk s'.geo s'.fatCache H
  others : ∀ h, H h → h ≠ d → s'.clusterChain h = s.clusterChain h
  mem : a ∈ s'.slotAddrs d
  entry : s'.entryAt a = e
  wasFree : ∀ h, H h → a ∈ s.slotAddrs h → (s.entryAt a).isFree = true
  kept : ∀ b ∈ s.slotAddrs d, b ∈ s'.slotAddrs d ∧ (b ≠ a → s'.entryAt b = s.entryAt b)
  slot : ∀ b ∈ s'.slotAddrs d, b = a ∨ b ∈ s.slotAddrs d ∨ (s'.entryAt b).isFree = true
  bytes : ∀ c x, 2 ≤ c → c ∉ s'.clusterChain d → s.geo.InCluster c x →
    s'.disk.bytes x = s.disk.bytes x
  free_of : ∀ x, s'.fatCache x = 0 → s.fatCache x = 0
  words : Words s → Words s'

namespace Entered

variable {H : Nat → Prop} {s s' : Fat32} {d a : Nat} {e : RawDirEntry}

/-- The slots of the other directories. -/
theorem other_slot (h : Entered H s s' d a e) (hd : H d) {f b : Nat} (hf : H f) (hne : f ≠ d)
    (hb : b ∈ s.slotAddrs f) : s'.entryAt b = s.entryAt b := by
  obtain ⟨c, hc, hin⟩ := Geometry.inCluster_of_mem_slotsOf hb
  have hv := (Geometry.validCluster_iff.mp (s.valid_clusterChain f c hc)).1
  refine RawDirEntry.ofBytes_congr fun i hi => h.bytes c _ hv ?_ (hin i hi)
  have hdisj := h.chains.disj f d hf hd hne c
  rw [← clusterChain_def, ← clusterChain_def, h.others f hf hne] at hdisj
  exact hdisj hc

/-- A flush afterwards changes nothing of this. -/
theorem flush (h : Entered H s s' d a e) : Entered H s (s'.setBytes s'.flushedBytes) d a e := by
  have hbytes : ∀ x, s.geo.dataAddr ≤ x →
      (s'.setBytes s'.flushedBytes).disk.bytes x = s'.disk.bytes x := fun x hx =>
    s'.flushedBytes_out (h.geo.symm ▸ hx)
  have hent : ∀ b ∈ s'.slotAddrs d,
      (s'.setBytes s'.flushedBytes).entryAt b = s'.entryAt b := fun b hb => by
    obtain ⟨c, -, hin⟩ := Geometry.inCluster_of_mem_slotsOf hb
    exact RawDirEntry.ofBytes_congr fun i hi => hbytes _ (h.geo ▸ (hin i hi).dataAddr_le)
  exact
    { geo := h.geo
      inodes := h.inodes
      present := h.present
      chains := h.chains
      others := h.others
      mem := h.mem
      entry := (hent a h.mem).trans h.entry
      wasFree := h.wasFree
      kept := fun b hb => by
        obtain ⟨hb', heq⟩ := h.kept b hb
        exact ⟨hb', fun hne => (hent b hb').trans (heq hne)⟩
      slot := fun b hb => by
        rw [hent b hb]
        exact h.slot b hb
      bytes := fun c x hc hx hin => (hbytes x hin.dataAddr_le).trans (h.bytes c x hc hx hin)
      free_of := h.free_of
      words := h.words }

end Entered

section freeSlot

variable {s : Fat32} (hs : Sound s) {d : Nat}

include hs

/-- The first free slot gets the entry. -/
theorem writeDirEntry_first {e : RawDirEntry} {a : Nat} (grow : Bool)
    (hfind : (s.slotAddrs d).find? (fun a => (s.entryAt a).isFree) = some a) :
    s.writeDirEntry d e grow = (.ok (), s.setBytes (writeBytes s.disk.bytes a e.pack)) := by
  rw [writeDirEntry, writeFreeSlot_eq hs e (s.valid_clusterChain d)]
  rw [slotAddrs] at hfind
  rw [hfind]
  rfl

/-- Where a slot is free, one gets the entry. -/
theorem writeDirEntry_free (e : RawDirEntry)
    (hroom : ∃ a ∈ s.slotAddrs d, (s.entryAt a).isFree = true) :
    ∃ a ∈ s.slotAddrs d, (s.entryAt a).isFree = true ∧
      s.writeDirEntry d e true = (.ok (), s.setBytes (writeBytes s.disk.bytes a e.pack)) := by
  obtain ⟨b, hb, hfree⟩ := hroom
  cases hfind : (s.slotAddrs d).find? fun a => (s.entryAt a).isFree with
  | none => exact absurd hfree (List.find?_eq_none.mp hfind b hb)
  | some a =>
    have hfound : (s.entryAt a).isFree = true :=
      List.find?_some (p := fun a => (s.entryAt a).isFree) hfind
    exact ⟨a, List.mem_of_find?_eq_some hfind, hfound, writeDirEntry_first hs true hfind⟩

/-- Where no slot is free, the first pass comes to the end of the chain. -/
theorem writeFreeSlot_full (e : RawDirEntry)
    (hroom : ¬ ∃ a ∈ s.slotAddrs d, (s.entryAt a).isFree = true) :
    s.writeFreeSlot e (s.clusterChain d) = none := by
  rw [writeFreeSlot_eq hs e (s.valid_clusterChain d), Option.map_eq_none_iff, List.find?_eq_none]
  exact fun a ha hfree => hroom ⟨a, ha, hfree⟩

end freeSlot

section writeDirEntry

variable {H : Nat → Prop} {s : Fat32} (hs : Sound s) (hH : ChainsOk s.geo s.fatCache H)
  {d : Nat} (hd : H d) {e : RawDirEntry} (he : e.stored = e)

include hs hH hd he

omit hs hd in
/-- A free slot filled. -/
theorem entered_slot {a : Nat} (ha : a ∈ s.slotAddrs d) (hfree : (s.entryAt a).isFree = true) :
    Entered H s (s.setBytes (writeBytes s.disk.bytes a e.pack)) d a e where
  geo := rfl
  inodes := rfl
  present := rfl
  chains := hH
  others _ _ _ := rfl
  mem := ha
  entry := (RawDirEntry.ofBytes_writeBytes_pack _ _ _).trans he
  wasFree _ _ _ := hfree
  kept b hb := by
    refine ⟨hb, fun hne => RawDirEntry.ofBytes_congr fun i hi => writeBytes_out _ ?_⟩
    have := Geometry.slot_disjoint ha hb (Ne.symm hne)
    rw [e.pack_length]
    omega
  slot b hb := Or.inr (Or.inl hb)
  bytes c x hc hnot hin := by
    obtain ⟨c', hc', hin'⟩ := Geometry.inCluster_of_mem_slotsOf ha
    refine writeBytes_out _ ?_
    by_contra hout
    rw [e.pack_length] at hout
    have hxa := hin' (x - a) (by omega)
    rw [show a + (x - a) = x by omega] at hxa
    have hv := (Geometry.validCluster_iff.mp (s.valid_clusterChain d c' hc')).1
    have heq := Geometry.InCluster.unique hc hv hin hxa
    subst heq
    exact hnot hc'
  free_of _ h := h
  words h := h

/-- A cluster hung behind the directory, with the entry in its first slot. -/
theorem entered_cluster {c last : Nat} (hv : s.geo.validCluster c = true)
    (hc : s.fatCache c = 0) (hgl : (s.clusterChain d).getLast? = some last) :
    ∃ s', Entered H s s' d (s.geo.clusterAddr c) e ∧
      (((s.setFat c fatEoc).setFat last c).setFat c fatEoc).writeCluster c
        (freshCluster s.geo [e]) = (true, s') := by
  have hB := s.geo.sectorsPerCluster_pos
  have hBeq := s.geo.bytesPerCluster_eq
  have hlc : last ≠ c := by
    rintro rfl
    exact hH.not_mem_of_free hc hd (List.mem_of_getLast? hgl)
  generalize hs₂ : ((s.setFat c fatEoc).setFat last c).setFat c fatEoc = s₂
  have hgeo : s₂.geo = s.geo := by rw [← hs₂]; rfl
  have hdisk : s₂.disk = s.disk := by rw [← hs₂]; rfl
  have hino : s₂.inodes = s.inodes := by rw [← hs₂]; rfl
  have hnew : s₂.fatCache c = fatEoc := by rw [← hs₂, setFat_self]
  have hlast : s₂.fatCache last = c := by rw [← hs₂, setFat_of_ne _ _ _ hlc, setFat_self]
  have hsame : ∀ x, x ≠ last → x ≠ c → s₂.fatCache x = s.fatCache x := fun x h1 h2 => by
    rw [← hs₂, setFat_of_ne _ _ _ h2, setFat_of_ne _ _ _ h1, setFat_of_ne _ _ _ h2]
  obtain ⟨hchain, hother, hok⟩ := hH.link hd hgl hv hc hsame hlast hnew
  have hlen : (freshCluster s.geo [e]).length = s.geo.bytesPerCluster :=
    freshCluster_length (by
      rw [List.length_singleton]
      omega)
  have hs₂ok : Sound s₂ := hs.of_eq hgeo (by rw [hdisk])
  refine ⟨s₂.setBytes (writeBytes s.disk.bytes (s.geo.clusterAddr c) (freshCluster s.geo [e])),
    ?_, by rw [writeCluster_eq hs₂ok (hgeo ▸ hv) (hgeo ▸ hlen), hgeo, hdisk]⟩
  generalize hm : writeBytes s.disk.bytes (s.geo.clusterAddr c) (freshCluster s.geo [e]) = m
  have hout : ∀ x, ¬ s.geo.InCluster c x → m x = s.disk.bytes x := fun x hx => by
    rw [← hm]
    refine writeBytes_out _ ?_
    unfold Geometry.InCluster at hx
    omega
  have hslots : (s₂.setBytes m).slotAddrs d = s.slotAddrs d ++ s.geo.slotsOf [c] := by
    rw [slotAddrs, slotAddrs, setBytes_geo, hgeo, clusterChain_def, setBytes_geo,
      setBytes_fatCache, hgeo, hchain, Geometry.slotsOf_append]
    rfl
  have hc2 := (Geometry.validCluster_iff.mp hv).1
  have hold : ∀ h, H h → ∀ b ∈ s.slotAddrs h, (s₂.setBytes m).entryAt b = s.entryAt b := by
    intro h hh b hb
    obtain ⟨c', hc', hin⟩ := Geometry.inCluster_of_mem_slotsOf hb
    have hv' := (Geometry.validCluster_iff.mp (s.valid_clusterChain h c' hc')).1
    refine RawDirEntry.ofBytes_congr fun i hi => hout _ fun hinc => ?_
    have heq := Geometry.InCluster.unique hv' hc2 (hin i hi) hinc
    subst heq
    exact hH.not_mem_of_free hc hh hc'
  have hzero : s.geo.clusterAddr c + 0 * 32 = s.geo.clusterAddr c := by omega
  refine
    { geo := hgeo
      inodes := hino
      present := by rw [setBytes_present, hdisk]
      chains := by rw [setBytes_geo, setBytes_fatCache, hgeo]; exact hok
      others := fun h hh hne => by
        rw [clusterChain_def, setBytes_geo, setBytes_fatCache, hgeo]
        exact hother h hh hne
      mem := by
        rw [hslots]
        refine List.mem_append_right _ (Geometry.mem_slotsOf.mpr ⟨c, by simp, 0, ?_, by omega⟩)
        omega
      entry := ?_
      wasFree := fun h hh ha => ?_
      kept := fun b hb => ⟨hslots ▸ List.mem_append_left _ hb, fun _ => hold d hd b hb⟩
      slot := fun b hb => ?_
      bytes := fun c' x hc' hnot hin => ?_
      free_of := fun x hx => ?_
      words := fun hw => ?_ }
  · rw [entryAt, setBytes_bytes, ← hm, ← hzero]
    have := ofBytes_freshCluster (g := s.geo) s.disk.bytes (s.geo.clusterAddr c)
      (show 0 < [e].length by simp)
    rw [Nat.zero_mul, Nat.add_zero] at this ⊢
    exact this.trans he
  · obtain ⟨c', hc', hin⟩ := Geometry.inCluster_of_mem_slotsOf ha
    have hv' := (Geometry.validCluster_iff.mp (s.valid_clusterChain h c' hc')).1
    have hin0 : s.geo.InCluster c (s.geo.clusterAddr c + 0) :=
      Geometry.inCluster_add s.geo.bytesPerCluster_pos
    have heq := Geometry.InCluster.unique hv' hc2 (hin 0 (by omega)) hin0
    subst heq
    exact absurd hc' (hH.not_mem_of_free hc hh)
  · rw [hslots] at hb
    rcases List.mem_append.mp hb with hb | hb
    · exact Or.inr (Or.inl hb)
    obtain ⟨c', hc', i, hi, rfl⟩ := Geometry.mem_slotsOf.mp hb
    rw [List.mem_singleton] at hc'
    subst hc'
    by_cases hi0 : i = 0
    · left
      rw [hi0, hzero]
    · right
      right
      rw [entryAt, setBytes_bytes, ← hm]
      exact isFree_freshCluster _ _ (by simp; omega) hi
  · rw [setBytes_bytes]
    refine hout x fun hin' => hnot ?_
    have heq := Geometry.InCluster.unique hc' hc2 hin hin'
    rw [clusterChain_def, setBytes_geo, setBytes_fatCache, hgeo, hchain, heq]
    simp
  · have hx' : s₂.fatCache x = 0 := hx
    by_cases hxc : x = c
    · rw [hxc]
      exact hc
    by_cases hxl : x = last
    · rw [hxl, hlast] at hx'
      omega
    rw [← hsame x hxl hxc]
    exact hx'
  · have hw₂ : Words s₂ := by
      rw [← hs₂]
      exact ((hw.setFat c (by decide)).setFat last (Geometry.validCluster_lt hv)).setFat c
        (by decide)
    exact hw₂

/-- The entry is written, or the directory is full and no cluster is left, or
the directory has no cluster at all. -/
theorem writeDirEntry_cases :
    (∃ err, s.writeDirEntry d e true = (.error err, s)) ∨
    (∃ c err, s.geo.validCluster c = true ∧ s.fatCache c = 0 ∧
      s.writeDirEntry d e true = (.error err, s.setFat c fatEoc)) ∨
    ∃ a s', Entered H s s' d a e ∧ s.writeDirEntry d e true = (.ok (), s') := by
  by_cases hroom : ∃ a ∈ s.slotAddrs d, (s.entryAt a).isFree = true
  · obtain ⟨a, ha, hfree, hwrite⟩ := writeDirEntry_free hs e hroom
    exact Or.inr (Or.inr ⟨a, _, entered_slot hH he ha hfree, hwrite⟩)
  · rw [writeDirEntry, writeFreeSlot_full hs e hroom]
    simp only [Bool.true_eq_false, if_false]
    cases halloc : s.allocCluster with
    | none => exact Or.inl ⟨_, rfl⟩
    | some p =>
      obtain ⟨c, s₁⟩ := p
      obtain ⟨hv, hc, rfl⟩ := allocCluster_spec halloc
      cases hgl : (s.clusterChain d).getLast? with
      | none => exact Or.inr (Or.inl ⟨c, _, hv, hc, rfl⟩)
      | some last =>
        obtain ⟨s', hent, hwrite⟩ := entered_cluster hs hH hd he hv hc hgl
        refine Or.inr (Or.inr ⟨_, _, hent.flush, ?_⟩)
        simp only [setFat_geo, freshCluster_one]
        rw [hwrite]
        simp only
        rw [flushFat_eq (hs.of_eq hent.geo hent.present)]

end writeDirEntry

end AeroOS.Fat32
