import AeroOS.Fat32.Format
import AeroOS.Fat32.Write

/-!
# FAT32: reading back what was written

* `WriteLaw` is what a reader expects of a write: the old bytes, zeros up to
  the place of the write, the buffer, the old bytes behind it, and every other
  file as before.
* `write_keeps_others` is the part about the other files, which always holds.
* `writeLaw_of_inside`, `not_writeLaw_of_gap` and `not_writeLaw_of_later` settle the
  rest, and `writeLaw_iff` puts them together: the law holds when the write starts
  inside the file and either at its beginning or within one cluster of it.
-/

namespace AeroOS.Fat32

open Bytes

/-! ## The law -/

/-- What a write of `buf` at `offset` makes of a file: zeros fill the gap
behind its old end. -/
def overlay (old : List UInt8) (offset : Nat) (buf : List UInt8) : List UInt8 :=
  old.take offset ++ List.replicate (offset - old.length) 0 ++ buf ++
    old.drop (offset + buf.length)

theorem overlay_gap {old : List UInt8} (buf : List UInt8) {offset q : Nat} (h1 : old.length ≤ q)
    (h2 : q < offset) : (overlay old offset buf)[q]? = some 0 := by
  have hlen : (old.take offset).length = old.length := by
    simp
    omega
  rw [overlay, List.append_assoc, List.append_assoc, List.getElem?_append_right (by omega),
    List.getElem?_append_left (by simp; omega), List.getElem?_replicate, if_pos (by omega)]

theorem overlay_buf (old : List UInt8) (offset : Nat) {b : List UInt8} {j : Nat}
    (h : j < b.length) : (overlay old offset b)[offset + j]? = b[j]? := by
  have hlen : (old.take offset ++ List.replicate (offset - old.length) 0).length = offset := by
    simp
    omega
  rw [overlay, List.append_assoc, List.getElem?_append_right (by omega),
    List.getElem?_append_left (by omega), hlen, Nat.add_sub_cancel_left]

/-- Inside the file the expected contents are those of a write to the view. -/
theorem overlay_readBytes (m : Store) {size offset : Nat} {buf : List UInt8}
    (h : offset ≤ size) :
    overlay (readBytes m 0 size) offset buf =
      readBytes (writeBytes m offset buf) 0 (max size (offset + buf.length)) := by
  obtain ⟨r, hr⟩ : ∃ r, max size (offset + buf.length) = offset + (buf.length + r) :=
    ⟨max size (offset + buf.length) - (offset + buf.length), by omega⟩
  rw [hr, readBytes_add, readBytes_add, Nat.zero_add, readBytes_writeBytes, overlay,
    readBytes_length, Nat.sub_eq_zero_of_le h, List.replicate_zero, List.append_nil,
    List.append_assoc]
  have htake : (readBytes m 0 size).take offset = readBytes m 0 offset := by
    have := readBytes_drop_take m 0 (n := size) (i := 0) (k := offset) (by omega)
    simpa using this
  have hdrop : (readBytes m 0 size).drop (offset + buf.length) =
      readBytes m (offset + buf.length) r := by
    by_cases hsz : size ≤ offset + buf.length
    · have h0 : r = 0 := by omega
      rw [List.drop_eq_nil_of_le (by simpa using hsz), h0, readBytes_zero]
    · have := readBytes_drop_take m 0 (n := size) (i := offset + buf.length) (k := r) (by omega)
      rw [List.take_of_length_le (by simp; omega), Nat.zero_add] at this
      exact this
  rw [htake, hdrop, readBytes_writeBytes_disjoint m (Or.inl (by omega)),
    readBytes_writeBytes_disjoint m (Or.inr (Nat.le_refl _))]

/-- What a reader expects of `write`: it writes the whole buffer, the file
reads as `overlay` says, and the other inodes and the other files on the disk
read as before. -/
def WriteLaw (s : Fat32) (id offset : Nat) (buf : List UInt8) : Prop :=
  ∀ n s', s.write id offset buf = (.ok n, s') →
    n = buf.length ∧
    (∃ old, s.readAll id = some old ∧ s'.readAll id = some (overlay old offset buf)) ∧
    (∀ id' i', id' ≠ id → s.inodes.get id' = some i' → i'.isDir = false →
      s'.readAll id' = s.readAll id') ∧
    ∀ a, IsFileSlot s a → (s.inodes.get id).map (·.firstCluster) ≠
      some (s.entryAt a).firstCluster → s'.slotContents a = s.slotContents a

/-! ## The effect on the file and on the others -/

section effect

variable {s s' : Fat32} (hw : WellFormed s) {id : Nat} {i : FatInode}
  (hi : s.inodes.get id = some i) (hk : i.isDir = false) {offset : Nat} {buf : List UInt8}
  (hlt : offset + buf.length < 2 ^ 32) {s₁ : Fat32} {f' : Nat} {news : List Nat}
  (h : Wrote s s' id i offset buf s₁ f' news)

include hw hi hk h

/-- The file reads as the view of its grown chain. -/
theorem Wrote.readAll_eq (hlt : offset + buf.length < 2 ^ 32) :
    s'.readAll id = some (readBytes (fileView s.geo (s₁.clusterChain f')
      (writtenBytes s.geo (s₁.clusterChain f') offset (offset + buf.length) offset buf 0
        s.disk.bytes)) 0 (max i.size (offset + buf.length))) := by
  have hchain : s'.clusterChain f' = s₁.clusterChain f' := by
    rw [clusterChain_def, clusterChain_def, h.geo, h.fatCache, h.ext.geo]
  have hfit : max i.size (offset + buf.length) ≤
      (s₁.clusterChain f').length * s.geo.bytesPerCluster := by
    have hold := hw.inodeFits id i hi hk
    have hmul : (s.clusterChain i.firstCluster).length * s.geo.bytesPerCluster ≤
        (s₁.clusterChain f').length * s.geo.bytesPerCluster := by
      refine Nat.mul_le_mul_right _ ?_
      rw [h.ext.chain, List.length_append]
      omega
    have hcover := h.cover
    omega
  have hsz := hw.size_lt hi hk
  rw [Fat32.readAll_eq h.sound h.inode hk (by rw [h.geo, hchain]; exact hfit)
    (by simp only; omega)]
  simp only [h.geo, hchain, Option.some.injEq]
  refine readBytes_congr fun p _ hp => fileView_congr (by omega) fun c hc x hin => ?_
  refine h.data c x ?_ ?_ hin
  · have := s₁.valid_clusterChain f' c hc
    rwa [h.ext.geo] at this
  · exact fun d hd => h.ext.not_mem_dir hw.good hi hk hc hd

omit hk in
/-- A chain of another head keeps its clusters and its bytes. -/
theorem Wrote.keeps_chain {x : Nat} (hx : (namesOf s).heads x) (hne : x ≠ i.firstCluster ∨ x = 0)
    (hfile : ∀ d, IsDir s d → ∀ c ∈ s.clusterChain x, c ∉ s.clusterChain d) :
    s'.clusterChain x = s.clusterChain x ∧
      ∀ c ∈ s.clusterChain x, ∀ y, s.geo.InCluster c y → s'.disk.bytes y = s.disk.bytes y := by
  by_cases hx0 : x = 0
  · subst hx0
    rw [clusterChain_def, clusterChain_def, chainOf_zero, chainOf_zero]
    exact ⟨rfl, fun c hc => absurd hc List.not_mem_nil⟩
  have hne' : x ≠ i.firstCluster := hne.elim (fun h => h) fun h0 => absurd h0 hx0
  constructor
  · rw [clusterChain_def, h.geo, h.fatCache, ← h.ext.geo]
    exact h.ext.others x hx hne'
  · intro c hc y hin
    have hv := s.valid_clusterChain x c hc
    rw [h.data c y hv (fun d hd => hfile d hd c hc) hin]
    refine writtenBytes_out fun p hp hin' => ?_
    have hmem : (s₁.clusterChain f').getD ((p - offset) / s.geo.bytesPerCluster) 0 ∈
        s₁.clusterChain f' := by
      refine getD_mem ?_
      have hp' : p - offset ≤ p := by omega
      have hcover := h.cover
      exact (Nat.div_le_div_right hp').trans_lt (div_lt_length (by
        have := hp.2.1
        omega))
    have hv' := s₁.valid_clusterChain f' _ hmem
    rw [h.ext.geo] at hv'
    have heq := Geometry.InCluster.unique (Geometry.validCluster_iff.mp hv).1
      (Geometry.validCluster_iff.mp hv').1 hin hin'
    rw [← heq, h.ext.chain] at hmem
    rcases List.mem_append.mp hmem with hmem | hmem
    · exact hw.disjoint x _ hx (heads_of_inode hi) hne' c hc hmem
    · exact hw.good.chains.not_mem_of_free (h.ext.wasFree c hmem).1 hx hc

omit hk in
/-- The other inodes read as before. -/
theorem Wrote.keeps_inode {id' : Nat} {i' : FatInode} (hne : id' ≠ id)
    (hi' : s.inodes.get id' = some i') (hk' : i'.isDir = false) :
    s'.readAll id' = s.readAll id' := by
  have hhead : i'.firstCluster ≠ i.firstCluster ∨ i'.firstCluster = 0 := by
    by_contra hcon
    rw [not_or, not_not] at hcon
    exact hne (hw.names.ino_unique ⟨i', hi', rfl, rfl⟩ ⟨i, hi, hcon.1.symm, rfl⟩ hcon.2)
  exact readAll_congr hw.sound h.sound h.geo hi' (h.inode_of_ne id' hne)
    (h.keeps_chain hw hi (heads_of_inode hi') hhead fun d hd c hc =>
      hw.good.file_disjoint_dir hi' hk' hd c hc)

omit hk in
/-- The other files on the disk read as before. -/
theorem Wrote.keeps_slot {a : Nat} (ha : IsFileSlot s a)
    (hne : i.firstCluster ≠ (s.entryAt a).firstCluster) :
    s'.slotContents a = s.slotContents a := by
  have hhead := ha.heads
  have hkeep := h.keeps_chain hw hi hhead (Or.inl (Ne.symm hne)) fun d hd =>
    hw.slot_disjoint_dir ha hd
  -- the slot of another file is not the one that gets the size, unless both are empty
  have hentry : s'.entryAt a = s.entryAt a := by
    obtain ⟨⟨d, hd, had⟩, -⟩ := ha
    rcases h.slot d a hd had with heq | ⟨hhit, -⟩
    · exact heq
    · rw [sizeHit, Bool.and_eq_true, beq_iff_eq] at hhit
      rcases h.ext.head with ⟨heq, -⟩ | ⟨-, hmem, -⟩
      · exact absurd (hhit.2.trans heq).symm hne
      · have hfree := h.ext.wasFree f' hmem
        exact absurd (hhit.2 ▸ hhead) (hw.good.chains.not_head_of_free hfree.2 hfree.1)
  exact hw.slotContents_congr ha h.geo hentry hkeep

end effect

/-- Whatever a write does to its own file, the others stay. -/
theorem write_keeps_others {s s' : Fat32} (hw : WellFormed s) {id : Nat} {i : FatInode}
    (hi : s.inodes.get id = some i) (hk : i.isDir = false) {offset : Nat} {buf : List UInt8}
    (hlt : offset + buf.length < 2 ^ 32) {n : Nat} (h : s.write id offset buf = (.ok n, s')) :
    (∀ id' i', id' ≠ id → s.inodes.get id' = some i' → i'.isDir = false →
      s'.readAll id' = s.readAll id') ∧
    ∀ a, IsFileSlot s a → (s.inodes.get id).map (·.firstCluster) ≠
      some (s.entryAt a).firstCluster → s'.slotContents a = s.slotContents a := by
  obtain ⟨-, s₁, f', news, hwr⟩ := wrote_of_ok hw.good hi hk hlt h
  refine ⟨fun id' i' hne hi' hk' => hwr.keeps_inode hw hi hne hi' hk', ?_⟩
  intro a ha hne
  refine hwr.keeps_slot hw hi ha ?_
  rw [hi] at hne
  exact fun heq => hne (by rw [Option.map_some, heq])

/-! ## When the file itself comes out right -/

/-- A write inside the file, at its beginning or within its first cluster, obeys
the law. -/
theorem writeLaw_of_inside {s : Fat32} (hw : WellFormed s) {id : Nat} {i : FatInode}
    (hi : s.inodes.get id = some i) (hk : i.isDir = false) {offset : Nat} {buf : List UInt8}
    (hlt : offset + buf.length < 2 ^ 32) (hin : offset ≤ i.size)
    (hpos : buf.length = 0 ∨ offset = 0 ∨ offset + buf.length ≤ s.geo.bytesPerCluster) :
    WriteLaw s id offset buf := by
  intro n s' h
  obtain ⟨rfl, s₁, f', news, hwr⟩ := wrote_of_ok hw.good hi hk hlt h
  refine ⟨rfl, ?_, write_keeps_others hw hi hk hlt h⟩
  refine ⟨_, hw.readAll_eq hi hk, ?_⟩
  rw [hwr.readAll_eq hw hi hk hlt, overlay_readBytes _ hin, Option.some.injEq]
  have hidx : ∀ p, Turn s.geo offset (offset + buf.length) p →
      (p - offset) / s.geo.bytesPerCluster = p / s.geo.bytesPerCluster := by
    rintro p ⟨h1, h2, -⟩
    rcases hpos with h0 | h0 | h0
    · omega
    · rw [h0, Nat.sub_zero]
    · rw [Nat.div_eq_of_lt (by omega), Nat.div_eq_of_lt (by omega)]
  have hchain : ∀ c ∈ s₁.clusterChain f', s.geo.validCluster c = true := fun c hc =>
    hwr.ext.geo ▸ s₁.valid_clusterChain f' c hc
  have hnd : (s₁.clusterChain f').Nodup := hwr.ext.ok.nodup f' (Or.inr rfl)
  have hold := hw.inodeFits id i hi hk
  have hcover := hwr.cover
  have hle : (s.clusterChain i.firstCluster).length * s.geo.bytesPerCluster ≤
      (s₁.clusterChain f').length * s.geo.bytesPerCluster := by
    refine Nat.mul_le_mul_right _ ?_
    rw [hwr.ext.chain, List.length_append]
    omega
  refine readBytes_congr fun q _ hq => ?_
  rw [fileView_writtenBytes hnd hchain hcover s.disk.bytes hidx (by omega) (by omega),
    List.drop_zero]
  -- behind the old chain only the buffer is looked at
  by_cases hbuf : offset ≤ q ∧ q < offset + buf.length
  · obtain ⟨j, rfl⟩ : ∃ j, q = offset + j := ⟨q - offset, by omega⟩
    rw [writeBytes_in _ _ (by omega) 0, writeBytes_in _ _ (by omega) 0]
  · rw [writeBytes_out _ (by omega), writeBytes_out _ (by omega), hwr.ext.chain,
      fileView_append _ (by omega)]

/-! ## When it does not -/

/-- The clusters of the grown file are clusters of the old chain or free ones. -/
theorem Wrote.mem_chain {s s' : Fat32} {id : Nat} {i : FatInode} {offset : Nat}
    {buf : List UInt8} {s₁ : Fat32} {f' : Nat} {news : List Nat}
    (h : Wrote s s' id i offset buf s₁ f' news) {c : Nat} (hc : c ∈ s₁.clusterChain f') :
    s.geo.validCluster c = true ∧ (c ∈ s.clusterChain i.firstCluster ∨ s.fatCache c = 0) := by
  refine ⟨h.ext.geo ▸ s₁.valid_clusterChain f' c hc, ?_⟩
  rw [h.ext.chain] at hc
  exact (List.mem_append.mp hc).imp_right fun hc => (h.ext.wasFree c hc).1

/-- A write that starts behind the end of the file does not clear the gap. -/
theorem not_writeLaw_of_gap {s s' : Fat32} (hw : WellFormed s) {id : Nat} {i : FatInode}
    (hi : s.inodes.get id = some i) (hk : i.isDir = false) {offset : Nat} {buf : List UInt8}
    (hlt : offset + buf.length < 2 ^ 32) {n : Nat} (h : s.write id offset buf = (.ok n, s'))
    (hgap : i.size < offset)
    (hfill : ∀ c x, s.geo.validCluster c = true →
      c ∈ s.clusterChain i.firstCluster ∨ s.fatCache c = 0 → s.geo.InCluster c x →
        s.disk.bytes x = 1)
    (hbuf : ∀ b ∈ buf, b = 1) : ¬ WriteLaw s id offset buf := by
  intro hlaw
  obtain ⟨-, ⟨old, hold, hnew⟩, -⟩ := hlaw n s' h
  obtain ⟨-, s₁, f', news, hwr⟩ := wrote_of_ok hw.good hi hk hlt h
  rw [hw.readAll_eq hi hk, Option.some.injEq] at hold
  rw [hwr.readAll_eq hw hi hk hlt, Option.some.injEq] at hnew
  -- the first byte of the gap reads 1, and not 0
  have hlen : old.length ≤ i.size := by rw [← hold, readBytes_length]
  have hzero := overlay_gap buf hlen hgap
  rw [← hnew, readBytes_getElem? _ _ (by omega), Nat.zero_add, Option.some.injEq] at hzero
  have hcover := hwr.cover
  have hend : i.size < (s₁.clusterChain f').length * s.geo.bytesPerCluster := by omega
  obtain ⟨c, hc, hin⟩ := fileAddr_mem hend
  obtain ⟨hv, hmem⟩ := hwr.mem_chain hc
  have hvalue := writtenBytes_values s.geo (s₁.clusterChain f') offset (offset + buf.length)
    offset buf 0 s.disk.bytes (fileAddr s.geo (s₁.clusterChain f') i.size)
  rcases hvalue with heq | hmem'
  · rw [fileView, heq, hfill c _ hv hmem hin] at hzero
    exact absurd hzero (by decide)
  · rw [fileView, hbuf _ hmem'] at hzero
    exact absurd hzero (by decide)

/-- A write that does not start at the beginning and does not end in the first
cluster never gets to the cluster of its last byte. -/
theorem not_writeLaw_of_later {s s' : Fat32} (hw : WellFormed s) {id : Nat} {i : FatInode}
    (hi : s.inodes.get id = some i) (hk : i.isDir = false) {offset : Nat} {buf : List UInt8}
    (hlt : offset + buf.length < 2 ^ 32) {n : Nat} (h : s.write id offset buf = (.ok n, s'))
    (hlen : 0 < buf.length) (hpos : 0 < offset)
    (hlong : s.geo.bytesPerCluster < offset + buf.length)
    (hfill : ∀ c x, s.geo.validCluster c = true →
      c ∈ s.clusterChain i.firstCluster ∨ s.fatCache c = 0 → s.geo.InCluster c x →
        s.disk.bytes x = 0)
    (hbuf : ∀ b ∈ buf, b = 1) : ¬ WriteLaw s id offset buf := by
  intro hlaw
  obtain ⟨-, ⟨old, -, hnew⟩, -⟩ := hlaw n s' h
  obtain ⟨-, s₁, f', news, hwr⟩ := wrote_of_ok hw.good hi hk hlt h
  rw [hwr.readAll_eq hw hi hk hlt, Option.some.injEq] at hnew
  have hB := s.geo.bytesPerCluster_pos
  have hcover := hwr.cover
  -- the last byte ought to read 1
  have hone := overlay_buf old offset (b := buf) (j := buf.length - 1) (by omega)
  rw [← hnew, readBytes_getElem? _ _ (by omega), Nat.zero_add,
    List.getElem?_eq_getElem (by omega), Option.some.injEq,
    hbuf _ (List.getElem_mem _)] at hone
  have hlast : offset + (buf.length - 1) <
      (s₁.clusterChain f').length * s.geo.bytesPerCluster := by omega
  obtain ⟨c, hc, hin⟩ := fileAddr_mem hlast
  obtain ⟨hv, hmem⟩ := hwr.mem_chain hc
  -- and its cluster is not among those of the turns
  have hout : writtenBytes s.geo (s₁.clusterChain f') offset (offset + buf.length) offset buf 0
      s.disk.bytes (fileAddr s.geo (s₁.clusterChain f') (offset + (buf.length - 1))) =
        s.disk.bytes (fileAddr s.geo (s₁.clusterChain f') (offset + (buf.length - 1))) := by
    refine writtenBytes_out fun p hp hin' => ?_
    obtain ⟨hp1, hp2, hp3⟩ := hp
    have hidx : (p - offset) / s.geo.bytesPerCluster <
        (offset + (buf.length - 1)) / s.geo.bytesPerCluster := by
      rcases hp3 with rfl | hp3
      · rw [Nat.sub_self, Nat.zero_div]
        exact Nat.div_pos (by omega) hB
      · have hdiv := Nat.div_add_mod p s.geo.bytesPerCluster
        have hk1 : (p - offset) / s.geo.bytesPerCluster < p / s.geo.bytesPerCluster := by
          rw [Nat.div_lt_iff_lt_mul hB, Nat.mul_comm]
          omega
        exact hk1.trans_le (Nat.div_le_div_right (by omega))
    have hlastIdx := div_lt_length hlast
    have hnd : (s₁.clusterChain f').Nodup := hwr.ext.ok.nodup f' (Or.inr rfl)
    have hvals : ∀ {j}, j < (s₁.clusterChain f').length →
        2 ≤ (s₁.clusterChain f').getD j 0 := fun hj =>
      (Geometry.validCluster_iff.mp (s₁.valid_clusterChain f' _ (getD_mem hj))).1
    have heq := Geometry.InCluster.unique (hvals (hidx.trans hlastIdx)) (hvals hlastIdx) hin'
      (fileAddr_inCluster _)
    rw [List.getD_eq_getElem _ _ (hidx.trans hlastIdx),
      List.getD_eq_getElem _ _ hlastIdx] at heq
    have := (List.Nodup.getElem_inj_iff hnd).mp heq
    omega
  rw [fileView, hout, hfill c _ hv hmem hin] at hone
  exact absurd hone (by decide)

open Classical in
/-- The store with `v` all over the chain of `first` and the free clusters. -/
noncomputable def refillWith (s : Fat32) (first : Nat) (v : UInt8) : Store := fun x =>
  if ∃ c, s.geo.validCluster c = true ∧ (c ∈ s.clusterChain first ∨ s.fatCache c = 0) ∧
    s.geo.InCluster c x then v else s.disk.bytes x

theorem refilled_refillWith (s : Fat32) (first : Nat) (v : UInt8) :
    s.Refilled first (s.refillWith first v) := by
  intro x hx
  rw [refillWith, if_neg]
  rintro ⟨c, hv, hc, hin⟩
  exact hx c hv hc hin

theorem refillWith_of_mem {s : Fat32} {first : Nat} {v : UInt8} {c x : Nat}
    (hv : s.geo.validCluster c = true) (hc : c ∈ s.clusterChain first ∨ s.fatCache c = 0)
    (hin : s.geo.InCluster c x) : s.refillWith first v x = v :=
  if_pos ⟨c, hv, hc, hin⟩

/-- Whether a write succeeds does not depend on the bytes. -/
theorem write_ok_refill {s : Fat32} (hw : WellFormed s) {id : Nat} {i : FatInode}
    (hi : s.inodes.get id = some i) (hk : i.isDir = false) {offset : Nat} {buf buf' : List UInt8}
    (hlt : offset + buf.length < 2 ^ 32) (hlen : buf'.length = buf.length)
    {m : Store} (hm : s.Refilled i.firstCluster m) {n : Nat}
    (h : (s.write id offset buf).1 = .ok n) :
    ∃ n' s', (s.setBytes m).write id offset buf' = (.ok n', s') := by
  obtain ⟨i', chain', hgrow, o, ho⟩ := (write_ok_iff hw.good hi hk hlt).mp ⟨n, h⟩
  have hdirs := hw.sameDirs hi hk hm
  have hgrow' : ((s.setBytes m).growFor id i (offset + buf'.length)).1 = .ok (i', chain') := by
    rw [hlen, ← hgrow, growFor, growFor]
    change (extendChain id (s.clustersFor (offset + buf.length) -
      (s.clusterChain i.firstCluster).length) (s.setBytes m) i
      (s.clusterChain i.firstCluster)).1 = _
    rw [extendChain_setBytes]
  obtain ⟨n', hn'⟩ := (write_ok_iff (hw.refill hi hk hm).good hi hk (hlen ▸ hlt)).mpr
    ⟨i', chain', hgrow', o, by
      rw [← ho]
      exact hdirs.findSized _ _ IsDir.root⟩
  exact ⟨n', _, Prod.ext hn' rfl⟩

/-! ## The exact condition -/

/-- A write of `len` bytes at `offset` obeys the law, whatever the file, the
free clusters and the buffer hold, exactly when it starts inside the file and
is empty, starts at the beginning, or ends in the first cluster. -/
theorem writeLaw_iff {s : Fat32} (hw : WellFormed s) {id : Nat} {i : FatInode}
    (hi : s.inodes.get id = some i) (hk : i.isDir = false) {offset len : Nat}
    (hlt : offset + len < 2 ^ 32)
    (hok : ∃ buf n, buf.length = len ∧ (s.write id offset buf).1 = .ok n) :
    (∀ m, s.Refilled i.firstCluster m → ∀ buf, buf.length = len →
      WriteLaw (s.setBytes m) id offset buf) ↔
      offset ≤ i.size ∧ (len = 0 ∨ offset = 0 ∨ offset + len ≤ s.geo.bytesPerCluster) := by
  obtain ⟨buf₀, n₀, rfl, hok⟩ := hok
  constructor
  · intro hlaw
    have hfail : ∀ v, (∀ n s', (s.setBytes (s.refillWith i.firstCluster v)).write id offset
        (List.replicate buf₀.length 1) = (.ok n, s') →
          ¬ WriteLaw (s.setBytes (s.refillWith i.firstCluster v)) id offset
            (List.replicate buf₀.length 1)) → False := by
      intro v hnot
      obtain ⟨n', s', h⟩ := write_ok_refill hw hi hk hlt
        (List.length_replicate (n := buf₀.length) (a := (1 : UInt8)))
        (s.refilled_refillWith i.firstCluster v) hok
      exact hnot n' s' h (hlaw _ (s.refilled_refillWith i.firstCluster v) _ (by simp))
    have hwf : ∀ v, WellFormed (s.setBytes (s.refillWith i.firstCluster v)) := fun v =>
      hw.refill hi hk (s.refilled_refillWith i.firstCluster v)
    have hones : ∀ b ∈ List.replicate buf₀.length (1 : UInt8), b = 1 := fun b hb =>
      List.eq_of_mem_replicate hb
    have hin : offset ≤ i.size := by
      by_contra hgap
      exact hfail 1 fun n s' h => not_writeLaw_of_gap (hwf 1) hi hk (by simpa using hlt) h
        (by omega) (fun c x hv hc hx => refillWith_of_mem hv hc hx) hones
    refine ⟨hin, ?_⟩
    by_contra hcon
    rw [not_or, not_or] at hcon
    exact hfail 0 fun n s' h => not_writeLaw_of_later (hwf 0) hi hk (by simpa using hlt) h
      (by simp; omega) (by omega) (by simp; omega)
      (fun c x hv hc hx => refillWith_of_mem hv hc hx) hones
  · rintro ⟨hin, hpos⟩ m hm buf hlen
    exact writeLaw_of_inside (hw.refill hi hk hm) hi hk (hlen ▸ hlt) hin (hlen ▸ hpos)

/-! ## A file of two clusters -/

/-- A volume with a file of 1024 zero bytes, looked up as inode 2. -/
def twoClusterVolume : Fat32 :=
  ((flatVolume smallGeometry twoClusterFat [entryA 3 1024]).internInode 3 1024 false).2

theorem twoClusterVolume_inode :
    twoClusterVolume.inodes.get 2 = some { firstCluster := 3, size := 1024, isDir := false } := by
  decide

theorem twoClusterVolume_wellFormed : WellFormed twoClusterVolume := by
  have hroot : smallGeometry.rootCluster = 2 := rfl
  refine flat_twoCluster.wellFormed.intern (d := 2) (a := rootSlot smallGeometry 0) ?_ ?_
  · have hent := flat_twoCluster.entryAt_slot (i := 0) (by decide)
    have hmem := flat_twoCluster.mem_slotAddrs (a := rootSlot smallGeometry 0) |>.mpr
      ⟨0, by decide, rfl⟩
    refine ⟨IsDir.root, hmem, ?_, ?_, ?_⟩
    · rw [hent]
      decide
    · rw [hent]
      rfl
    · rw [hent]
      decide
  · intro _
    change 1024 ≤ (chainOf smallGeometry twoClusterFat 3).length * smallGeometry.bytesPerCluster
    rw [twoClusterFat_chain]
    decide

/-- Writing a byte at the beginning of the second cluster succeeds. -/
theorem twoClusterVolume_write (buf : List UInt8) (hlen : buf.length = 1) :
    ∃ n, (twoClusterVolume.write 2 512 buf).1 = .ok n := by
  refine (write_ok_iff twoClusterVolume_wellFormed.good twoClusterVolume_inode rfl
    (by rw [hlen]; decide)).mpr ⟨{ firstCluster := 3, size := 1024, isDir := false }, [3, 4], ?_, ?_⟩
  · have hneed : twoClusterVolume.clustersFor (512 + 1) = 2 := by decide
    have hchain : twoClusterVolume.clusterChain 3 = [3, 4] := twoClusterFat_chain
    rw [hlen, growFor, hneed, hchain]
    rfl
  · obtain ⟨o, ho⟩ := flat_twoCluster.rootFlat.findSized_ok 3 128
    exact ⟨o, ((sameDirs_internInode _ 3 1024 false).findSized 3 129 IsDir.root).trans ho⟩

theorem writeLaw_iff_two_clusters :
    (∀ m, twoClusterVolume.Refilled 3 m → ∀ buf, buf.length = 1 →
      WriteLaw (twoClusterVolume.setBytes m) 2 512 buf) ↔
      512 ≤ 1024 ∧ (1 = 0 ∨ 512 = 0 ∨ 512 + 1 ≤ smallGeometry.bytesPerCluster) :=
  writeLaw_iff twoClusterVolume_wellFormed twoClusterVolume_inode rfl (by decide)
    ⟨[1], (twoClusterVolume_write [1] rfl).choose, rfl,
      (twoClusterVolume_write [1] rfl).choose_spec⟩

/-- A byte written at the beginning of the second cluster goes to the first. -/
theorem not_writeLaw_second_cluster :
    WellFormed twoClusterVolume ∧
      twoClusterVolume.inodes.get 2 = some { firstCluster := 3, size := 1024, isDir := false } ∧
      ¬ WriteLaw twoClusterVolume 2 512 [1] := by
  refine ⟨twoClusterVolume_wellFormed, twoClusterVolume_inode, ?_⟩
  obtain ⟨n, hn⟩ := twoClusterVolume_write [1] rfl
  have hok : twoClusterVolume.write 2 512 [1] = (.ok n, (twoClusterVolume.write 2 512 [1]).2) :=
    Prod.ext hn rfl
  refine not_writeLaw_of_later twoClusterVolume_wellFormed twoClusterVolume_inode rfl (by decide)
    hok (by decide) (by decide) (by decide) ?_ (by simp)
  intro c x hv hc hin
  have hc2 : c ≠ 2 := by
    rintro rfl
    rcases hc with hc | hc
    · rw [show twoClusterVolume.clusterChain 3 = [3, 4] from twoClusterFat_chain] at hc
      exact absurd hc (by decide)
    · exact absurd hc (by decide)
  -- the disk is zero but for the entry in cluster 2
  refine writeBytes_out (fun _ => 0) ?_
  by_contra hnot
  have hpack : ([entryA 3 1024].flatMap RawDirEntry.pack).length = 32 := by
    rw [flatMap_length RawDirEntry.pack_length]
    rfl
  have hroot : smallGeometry.InCluster 2 x := by
    have hB : smallGeometry.bytesPerCluster = 512 := rfl
    have hr : smallGeometry.rootCluster = 2 := rfl
    rw [hpack, hr] at hnot
    unfold Geometry.InCluster
    omega
  exact hc2 (Geometry.InCluster.unique (Geometry.validCluster_iff.mp hv).1 (Nat.le_refl 2) hin
    hroot)

end AeroOS.Fat32
