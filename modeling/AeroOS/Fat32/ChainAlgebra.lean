import AeroOS.Fat32.Format
import AeroOS.Fat32.OutOfClusters

/-!
# FAT32: the algebra of chains

What the three operations on the table do to the chains, for any table.

* `Terminated` is a chain without a cluster twice and with an end mark behind it.  Such a
  chain has no free cluster (`Terminated.not_mem_of_free`).
* `Linked.clusterChain_self`: a free cluster hung behind a terminated chain is appended, and the
  chains that do not meet it stay.
* `chain_algebra`: the operations as `write`, `write_dir_entry` and `unlink` call them.
-/

namespace AeroOS.Fat32

open Bytes Chain

variable {s t : Fat32} {first last c h : Nat}

/-- An acyclic chain that ends with an end mark, one of `0x0FFFFFF8..`. -/
structure Terminated (s : Fat32) (first : Nat) : Prop where
  nodup : (s.clusterChain first).Nodup
  marked : ∃ last, (s.clusterChain first).getLast? = some last ∧ 0x0FFFFFF8 ≤ s.fatCache last

/-- The entries of a terminated chain are in use: an entry 0 would end the chain. -/
theorem Terminated.not_mem_of_free (hs : s.Terminated first) (hc : s.fatCache c = fatFree) :
    c ∉ s.clusterChain first := by
  intro hmem
  obtain ⟨last, hlast, hmark⟩ := hs.marked
  have hnext : nextCluster s.fatCache c = none := if_pos (Or.inr hc)
  have hcl := getLast?_walk_of_none hmem hnext
  rw [clusterChain_def, chainOf, hcl] at hlast
  rw [← Option.some.inj hlast, hc] at hmark
  exact absurd hmark (by decide)

/-! ## Hanging a cluster behind a chain -/

/-- The table when `c` is marked as an end and hung behind `last`. -/
structure Linked (s t : Fat32) (last c : Nat) : Prop where
  geo : t.geo = s.geo
  link : t.fatCache last = c
  mark : t.fatCache c = fatEoc
  same : ∀ x, x ≠ last → x ≠ c → t.fatCache x = s.fatCache x

/-- The chain grows by the cluster. -/
theorem Linked.clusterChain_self (ht : Linked s t last c) (hs : s.Terminated first)
    (hlast : (s.clusterChain first).getLast? = some last)
    (hv : s.geo.validCluster c = true) (hfree : s.fatCache c = fatFree) :
    t.clusterChain first = s.clusterChain first ++ [c] := by
  have hnot := hs.not_mem_of_free hfree
  rw [clusterChain_def, ht.geo, clusterChain_def]
  refine chainOf_link ?_ ht.link ht.mark hv hlast hs.nodup
  intro y hy hne
  refine ht.same y hne ?_
  rintro rfl
  exact hnot hy

/-- A chain without `last` stays.  It may end with `c`: a free entry and an end mark are the
same to the loop. -/
theorem Linked.clusterChain_of_not_mem (ht : Linked s t last c) (hfree : s.fatCache c = fatFree)
    (hnot : last ∉ s.clusterChain h) : t.clusterChain h = s.clusterChain h := by
  rw [clusterChain_def, ht.geo, clusterChain_def]
  refine walk_congr ?_
  intro x hx
  by_cases hxc : x = c
  · rw [hxc, nextCluster_fatEoc ht.mark]
    exact (if_pos (Or.inr hfree)).symm
  · have hxl : x ≠ last := by
      rintro rfl
      exact hnot hx
    rw [nextCluster, nextCluster, ht.same x hxl hxc]

/-- The table after `alloc_cluster` and the link of `write`. -/
theorem linked_write (hne : c ≠ last) :
    Linked s ((s.setFat c fatEoc).setFat last c) last c where
  geo := rfl
  link := setFat_self _ _ _
  mark := by rw [setFat_of_ne _ _ _ hne, setFat_self]
  same x hl hc := by rw [setFat_of_ne _ _ _ hl, setFat_of_ne _ _ _ hc]

/-- The mark that `write_dir_entry` sets again behind its link changes nothing. -/
theorem linked_writeDirEntry (hne : c ≠ last) :
    Linked s (((s.setFat c fatEoc).setFat last c).setFat c fatEoc) last c where
  geo := rfl
  link := by rw [setFat_of_ne _ _ _ (Ne.symm hne), setFat_self]
  mark := setFat_self _ _ _
  same x hl hc := by rw [setFat_of_ne _ _ _ hc, setFat_of_ne _ _ _ hl, setFat_of_ne _ _ _ hc]

/-- What the code does to a table when it hangs a cluster behind the chain from `first`. -/
def Appends (s t : Fat32) (first c : Nat) : Prop :=
  t.clusterChain first = s.clusterChain first ++ [c] ∧
    ∀ h, (s.clusterChain h).Disjoint (s.clusterChain first) → t.clusterChain h = s.clusterChain h

theorem Linked.appends (ht : Linked s t last c) (hs : s.Terminated first)
    (hlast : (s.clusterChain first).getLast? = some last)
    (hv : s.geo.validCluster c = true) (hfree : s.fatCache c = fatFree) :
    Appends s t first c := by
  refine ⟨ht.clusterChain_self hs hlast hv hfree, ?_⟩
  intro h hdisj
  refine ht.clusterChain_of_not_mem hfree ?_
  intro hmem
  exact hdisj hmem (List.mem_of_getLast? hlast)

theorem Appends.congr (h : Appends s t first c) {t' : Fat32} (hgeo : t'.geo = t.geo)
    (hfat : t'.fatCache = t.fatCache) : Appends s t' first c := by
  have hchain : ∀ h, t'.clusterChain h = t.clusterChain h := by
    intro h
    rw [clusterChain_def, hgeo, hfat, clusterChain_def]
  refine ⟨(hchain first).trans h.1, ?_⟩
  intro h' hdisj
  exact (hchain h').trans (h.2 h' hdisj)

/-! ## The code -/

theorem writeCluster_table (s : Fat32) (c : Nat) (buf : List UInt8) :
    (s.writeCluster c buf).2.geo = s.geo ∧ (s.writeCluster c buf).2.fatCache = s.fatCache := by
  unfold writeCluster
  split
  · exact ⟨rfl, rfl⟩
  · exact ⟨rfl, rfl⟩

theorem flushFat_table (s : Fat32) :
    s.flushFat.2.geo = s.geo ∧ s.flushFat.2.fatCache = s.fatCache := by
  unfold flushFat
  split
  · exact ⟨rfl, rfl⟩
  · exact ⟨rfl, rfl⟩

/-- The free cluster of `alloc_cluster` is not the last one of a terminated chain. -/
theorem Terminated.ne_last (hs : s.Terminated first) (hfree : s.fatCache c = fatFree)
    (hlast : (s.clusterChain first).getLast? = some last) : c ≠ last := by
  rintro rfl
  exact hs.not_mem_of_free hfree (List.mem_of_getLast? hlast)

/-- A turn of the loop of `write`, behind a terminated chain. -/
theorem extendChain_appends (hs : s.Terminated first) (halloc : s.allocCluster = some (c, t))
    (id n : Nat) (inode : FatInode) :
    ∃ s', extendChain id (n + 1) s inode (s.clusterChain first) =
        extendChain id n s' inode (s'.clusterChain first) ∧ Appends s s' first c := by
  obtain ⟨hv, hfree, rfl⟩ := allocCluster_spec halloc
  obtain ⟨last, hlast, -⟩ := hs.marked
  have happ := (linked_write (hs.ne_last hfree hlast)).appends hs hlast hv hfree
  refine ⟨(s.setFat c fatEoc).setFat last c, ?_, happ⟩
  rw [extendChain, halloc]
  simp only [hlast]
  rw [happ.1]

/-- `write_dir_entry` behind a terminated chain without a free slot, whatever becomes of the
writes to the disk. -/
theorem writeDirEntry_appends (hs : s.Terminated first) (halloc : s.allocCluster = some (c, t))
    {entry : RawDirEntry} (hslot : s.writeFreeSlot entry (s.clusterChain first) = none) :
    Appends s (s.writeDirEntry first entry true).2 first c := by
  obtain ⟨hv, hfree, rfl⟩ := allocCluster_spec halloc
  obtain ⟨last, hlast, -⟩ := hs.marked
  have happ := (linked_writeDirEntry (hs.ne_last hfree hlast)).appends hs hlast hv hfree
  set s₁ := ((s.setFat c fatEoc).setFat last c).setFat c fatEoc with hs₁
  have hwrite := writeCluster_table s₁ c
    (patch (List.replicate s.geo.bytesPerCluster 0) 0 entry.pack)
  rw [writeDirEntry, hslot, if_neg (by decide), halloc]
  simp only [hlast, ← hs₁]
  rcases hres : s₁.writeCluster c
    (patch (List.replicate s₁.geo.bytesPerCluster 0) 0 entry.pack) with ⟨ok, s₂⟩
  have hgeo : s₁.geo = s.geo := rfl
  rw [← hgeo, hres] at hwrite
  have happ₂ := happ.congr hwrite.1 hwrite.2
  cases ok with
  | false => exact happ₂
  | true =>
    have hflush := flushFat_table s₂
    rcases hres₂ : s₂.flushFat with ⟨ok₂, s₃⟩
    rw [hres₂] at hflush
    have happ₃ := happ₂.congr hflush.1 hflush.2
    simp only [hres₂]
    cases ok₂ with
    | false => exact happ₃
    | true => exact happ₃

end AeroOS.Fat32
