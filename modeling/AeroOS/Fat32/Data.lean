import AeroOS.Fat32.Names
import Mathlib.Data.List.GetD

/-!
# FAT32: the bytes of a file

* `fileView` sees the clusters of a chain as one store, addressed by the
  position in the file.
* `readLoop_eq`: the loop of `read` copies a range of the view.
* `writeLoop_eq`: the loop of `write` leaves `writtenBytes` behind.
  `writtenBytes_out` and `writtenBytes_values` bound what it can have changed;
  `fileView_writtenBytes` is the case in which its cluster index is right.
-/

namespace AeroOS.Fat32

open Bytes

/-- Where position `p` of a file lies on the disk. -/
def fileAddr (g : Geometry) (chain : List Nat) (p : Nat) : Nat :=
  g.clusterAddr (chain.getD (p / g.bytesPerCluster) 0) + p % g.bytesPerCluster

/-- The bytes of a file by position. -/
def fileView (g : Geometry) (chain : List Nat) (m : Store) : Store :=
  fun p => m (fileAddr g chain p)

section view

variable {g : Geometry} {chain : List Nat}

theorem div_mod_add {b p i : Nat} (h : p % b + i < b) :
    (p + i) / b = p / b ∧ (p + i) % b = p % b + i := by
  have hp := Nat.div_add_mod p b
  have hpi : p + i = b * (p / b) + (p % b + i) := by omega
  constructor
  · rw [hpi, Nat.mul_add_div (by omega), Nat.div_eq_of_lt h, Nat.add_zero]
  · rw [hpi, Nat.mul_add_mod, Nat.mod_eq_of_lt h]

/-- Positions in one cluster lie next to each other. -/
theorem fileAddr_add {p i : Nat} (h : p % g.bytesPerCluster + i < g.bytesPerCluster) :
    fileAddr g chain (p + i) = fileAddr g chain p + i := by
  obtain ⟨hd, hm⟩ := div_mod_add h
  rw [fileAddr, fileAddr, hd, hm, Nat.add_assoc]

theorem fileAddr_inCluster (p : Nat) :
    g.InCluster (chain.getD (p / g.bytesPerCluster) 0) (fileAddr g chain p) :=
  Geometry.inCluster_add (Nat.mod_lt p g.bytesPerCluster_pos)

theorem div_lt_length {p n : Nat} (h : p < n * g.bytesPerCluster) :
    p / g.bytesPerCluster < n :=
  (Nat.div_lt_iff_lt_mul g.bytesPerCluster_pos).mpr h

theorem getD_mem {i : Nat} (h : i < chain.length) : chain.getD i 0 ∈ chain := by
  rw [List.getD_eq_getElem _ _ h]
  exact List.getElem_mem h

/-- A position of the file lies in a cluster of its chain. -/
theorem fileAddr_mem {p : Nat} (h : p < chain.length * g.bytesPerCluster) :
    ∃ c ∈ chain, g.InCluster c (fileAddr g chain p) :=
  ⟨_, getD_mem (div_lt_length h), fileAddr_inCluster p⟩

/-- A range inside one cluster is a range of the view. -/
theorem readBytes_fileAddr (g : Geometry) (chain : List Nat) (m : Store) {p n : Nat}
    (h : p % g.bytesPerCluster + n ≤ g.bytesPerCluster) :
    readBytes m (fileAddr g chain p) n = readBytes (fileView g chain m) p n := by
  refine List.map_congr_left fun i hi => ?_
  rw [fileView, fileAddr_add (by
    have := List.mem_range.mp hi
    omega)]

/-- The chain may go on behind the part that is looked at. -/
theorem fileView_append {more : List Nat} (m : Store) {p : Nat}
    (h : p < chain.length * g.bytesPerCluster) :
    fileView g (chain ++ more) m p = fileView g chain m p := by
  rw [fileView, fileView, fileAddr, fileAddr, List.getD_append _ _ _ _ (div_lt_length h)]

/-- The view depends on the clusters of the chain. -/
theorem fileView_congr {m m' : Store} {p : Nat} (hp : p < chain.length * g.bytesPerCluster)
    (h : ∀ c ∈ chain, ∀ x, g.InCluster c x → m' x = m x) :
    fileView g chain m' p = fileView g chain m p := by
  obtain ⟨c, hc, hin⟩ := fileAddr_mem hp
  exact h c hc _ hin

end view

/-! ## Reading -/

/-- The loop of `read` copies a range of the view into the buffer, where the
clusters of the chain can be read. -/
theorem readLoop_of_readCluster {s : Fat32} {chain : List Nat}
    (hchain : ∀ c ∈ chain, s.readCluster c =
      some (readBytes s.disk.bytes (s.geo.clusterAddr c) s.geo.bytesPerCluster)) {offset stop : Nat}
    (hstop : stop ≤ chain.length * s.geo.bytesPerCluster) {pos : Nat} {buf : List UInt8}
    (hpos : offset ≤ pos) (hbuf : stop - offset ≤ buf.length) (readTotal : Nat) :
    s.readLoop chain offset stop pos buf readTotal =
      .ok (readTotal + (stop - pos), patch buf (pos - offset)
        (readBytes (fileView s.geo chain s.disk.bytes) pos (stop - pos))) := by
  induction hn : stop - pos using Nat.strongRecOn generalizing pos buf readTotal with
  | ind n ih =>
    rw [readLoop]
    split
    swap
    · have h0 : n = 0 := by omega
      rw [h0, readBytes_zero, patch]
      simp
    rename_i hlt
    have hB := s.geo.bytesPerCluster_pos
    have hmod := Nat.mod_lt pos hB
    have hidx : pos / s.geo.bytesPerCluster < chain.length := div_lt_length (by omega)
    have hmem := getD_mem hidx
    simp only
    rw [if_neg (by omega), hchain _ hmem]
    simp only
    have hslice := readBytes_drop_take s.disk.bytes
      (s.geo.clusterAddr (chain.getD (pos / s.geo.bytesPerCluster) 0))
      (n := s.geo.bytesPerCluster) (i := pos % s.geo.bytesPerCluster)
      (k := min (stop - pos) (s.geo.bytesPerCluster - pos % s.geo.bytesPerCluster)) (by omega)
    have hview := readBytes_fileAddr s.geo chain s.disk.bytes (p := pos)
      (n := min (stop - pos) (s.geo.bytesPerCluster - pos % s.geo.bytesPerCluster)) (by omega)
    rw [fileAddr] at hview
    rw [hslice, hview]
    generalize htake : min (stop - pos) (s.geo.bytesPerCluster - pos % s.geo.bytesPerCluster) =
      take at *
    have hlen : (patch buf (pos - offset)
        (readBytes (fileView s.geo chain s.disk.bytes) pos take)).length ≥ stop - offset := by
      rw [patch_length (by simp; omega)]
      exact hbuf
    rw [ih (stop - (pos + take)) (by omega) (by omega) hlen (readTotal + take) rfl]
    have hsplit : n = take + (stop - (pos + take)) := by omega
    have hoff : pos + take - offset =
        pos - offset + (readBytes (fileView s.geo chain s.disk.bytes) pos take).length := by
      simp
      omega
    rw [hoff, patch_append (by simp; omega), ← readBytes_add, ← hsplit]
    simp
    omega

/-- On a sound volume the loop of `read` copies a range of the view. -/
theorem readLoop_eq {s : Fat32} (hs : Sound s) {chain : List Nat}
    (hchain : ∀ c ∈ chain, s.geo.validCluster c = true) {offset stop : Nat}
    (hstop : stop ≤ chain.length * s.geo.bytesPerCluster) {pos : Nat} {buf : List UInt8}
    (hpos : offset ≤ pos) (hbuf : stop - offset ≤ buf.length) (readTotal : Nat) :
    s.readLoop chain offset stop pos buf readTotal =
      .ok (readTotal + (stop - pos), patch buf (pos - offset)
        (readBytes (fileView s.geo chain s.disk.bytes) pos (stop - pos))) :=
  readLoop_of_readCluster (fun c hc => readCluster_eq hs (hchain c hc)) hstop hpos hbuf readTotal

/-- The loop of `read` depends on the clusters of the chain alone. -/
theorem readLoop_congr {s s' : Fat32} (hs : Sound s) (hs' : Sound s') (hgeo : s'.geo = s.geo)
    {chain : List Nat} (hchain : ∀ c ∈ chain, s.geo.validCluster c = true)
    (h : ∀ c ∈ chain, ∀ x, s.geo.InCluster c x → s'.disk.bytes x = s.disk.bytes x)
    (offset stop : Nat) {pos : Nat} {buf : List UInt8} (readTotal : Nat) :
    s'.readLoop chain offset stop pos buf readTotal =
      s.readLoop chain offset stop pos buf readTotal := by
  induction hn : stop - pos using Nat.strongRecOn generalizing pos buf readTotal with
  | ind n ih =>
    rw [readLoop, readLoop]
    split
    swap
    · rfl
    rename_i hlt
    have hB := s.geo.bytesPerCluster_pos
    have hmod := Nat.mod_lt pos hB
    simp only [hgeo]
    by_cases hidx : chain.length ≤ pos / s.geo.bytesPerCluster
    · rw [if_pos hidx, if_pos hidx]
    rw [if_neg hidx, if_neg hidx]
    have hmem := getD_mem (Nat.lt_of_not_le hidx)
    have hread : s'.readCluster (chain.getD (pos / s.geo.bytesPerCluster) 0) =
        s.readCluster (chain.getD (pos / s.geo.bytesPerCluster) 0) := by
      rw [readCluster_eq hs (hchain _ hmem), readCluster_eq hs' (hgeo ▸ hchain _ hmem), hgeo]
      exact congrArg some (readBytes_congr fun x h1 h2 => h _ hmem x ⟨h1, h2⟩)
    rw [hread]
    cases s.readCluster (chain.getD (pos / s.geo.bytesPerCluster) 0) with
    | none => rfl
    | some scratch => exact ih _ (by omega) _ rfl

/-- `read` depends on the inode, its chain and the clusters of the chain. -/
theorem read_congr {s s' : Fat32} (hs : Sound s) (hs' : Sound s') (hgeo : s'.geo = s.geo)
    {id : Nat} (hid : s'.inodes.get id = s.inodes.get id)
    (hchain : ∀ i, s.inodes.get id = some i →
      s'.clusterChain i.firstCluster = s.clusterChain i.firstCluster ∧
      ∀ c ∈ s.clusterChain i.firstCluster, ∀ x, s.geo.InCluster c x →
        s'.disk.bytes x = s.disk.bytes x) (offset : Nat) (buf : List UInt8) :
    s'.read id offset buf = s.read id offset buf := by
  rw [read, read, hid]
  cases hi : s.inodes.get id with
  | none => rfl
  | some i =>
    obtain ⟨hc, hb⟩ := hchain i hi
    simp only [hc]
    rw [readLoop_congr hs hs' hgeo (s.valid_clusterChain _) hb]

/-! ## Writing -/

/-- The store that the loop of `write` leaves behind. -/
def writtenBytes (g : Geometry) (chain : List Nat) (offset stop pos : Nat) (buf : List UInt8)
    (written : Nat) (m : Store) : Store :=
  if _h : pos < stop then
    let take := min (stop - pos) (g.bytesPerCluster - pos % g.bytesPerCluster)
    writtenBytes g chain offset stop (pos + take) buf (written + take)
      (writeBytes m
        (g.clusterAddr (chain.getD ((pos - offset) / g.bytesPerCluster) 0) +
          pos % g.bytesPerCluster)
        ((buf.drop written).take take))
  else m
termination_by stop - pos
decreasing_by
  have := Nat.mod_lt pos g.bytesPerCluster_pos
  omega

/-- A position at which a turn of the loop starts: the first one, or the start
of a cluster. -/
def Turn (g : Geometry) (pos stop p : Nat) : Prop :=
  pos ≤ p ∧ p < stop ∧ (p = pos ∨ p % g.bytesPerCluster = 0)

/-- The later turns of a loop are turns of the loop. -/
theorem Turn.of_next {g : Geometry} {pos stop p : Nat}
    (h : Turn g (pos + min (stop - pos) (g.bytesPerCluster - pos % g.bytesPerCluster)) stop p) :
    Turn g pos stop p := by
  obtain ⟨h1, h2, h3⟩ := h
  have hmod := Nat.mod_lt pos g.bytesPerCluster_pos
  refine ⟨by omega, h2, Or.inr ?_⟩
  rcases h3 with h3 | h3
  · have hnext : p = pos + (g.bytesPerCluster - pos % g.bytesPerCluster) := by omega
    have hp := Nat.div_add_mod pos g.bytesPerCluster
    have heq : p = g.bytesPerCluster * (pos / g.bytesPerCluster + 1) := by
      rw [Nat.mul_add, Nat.mul_one]
      omega
    rw [heq, Nat.mul_mod_right]
  · exact h3

/-- The loop of `write` runs to the end and leaves `writtenBytes` behind. -/
theorem writeLoop_eq {s : Fat32} (hs : Sound s) {chain : List Nat}
    (hchain : ∀ c ∈ chain, s.geo.validCluster c = true) {offset stop pos : Nat}
    {buf : List UInt8} {written : Nat}
    (hidx : ∀ p, Turn s.geo pos stop p → (p - offset) / s.geo.bytesPerCluster < chain.length)
    (hbuf : stop - pos ≤ buf.length - written) :
    s.writeLoop chain offset stop pos buf written =
      (.ok (written + (stop - pos)),
        s.setBytes (writtenBytes s.geo chain offset stop pos buf written s.disk.bytes)) := by
  induction hn : stop - pos using Nat.strongRecOn generalizing s pos written with
  | ind n ih =>
    rw [writeLoop, writtenBytes]
    split
    swap
    · have h0 : n = 0 := by omega
      rw [h0]
      rfl
    rename_i hlt
    have hB := s.geo.bytesPerCluster_pos
    have hmod := Nat.mod_lt pos hB
    have hthis := hidx pos ⟨Nat.le_refl _, hlt, Or.inl rfl⟩
    have hmem := getD_mem hthis
    simp only
    rw [if_neg (by omega), readCluster_eq hs (hchain _ hmem)]
    simp only
    rw [writeCluster_patch hs (hchain _ hmem) (by simp; omega)]
    simp only
    have hnext : ∀ p, Turn s.geo
        (pos + min (stop - pos) (s.geo.bytesPerCluster - pos % s.geo.bytesPerCluster)) stop p →
          (p - offset) / s.geo.bytesPerCluster < chain.length := fun p hp => hidx p hp.of_next
    have hleft : stop -
          (pos + min (stop - pos) (s.geo.bytesPerCluster - pos % s.geo.bytesPerCluster)) ≤
        buf.length - (written +
          min (stop - pos) (s.geo.bytesPerCluster - pos % s.geo.bytesPerCluster)) := by omega
    have hrec := ih _ (by omega)
      (hs.setBytes (writeBytes s.disk.bytes
        (s.geo.clusterAddr (chain.getD ((pos - offset) / s.geo.bytesPerCluster) 0) +
          pos % s.geo.bytesPerCluster)
        ((buf.drop written).take
          (min (stop - pos) (s.geo.bytesPerCluster - pos % s.geo.bytesPerCluster)))))
      hchain hnext hleft rfl
    rw [hrec]
    simp only [setBytes_geo, setBytes_bytes, setBytes_setBytes, Prod.mk.injEq, Except.ok.injEq,
      and_true]
    omega

/-- The loop touches only the clusters its turns index. -/
theorem writtenBytes_out {g : Geometry} {chain : List Nat} {offset stop pos : Nat}
    {buf : List UInt8} {written : Nat} {m : Store} {x : Nat}
    (h : ∀ p, Turn g pos stop p →
      ¬ g.InCluster (chain.getD ((p - offset) / g.bytesPerCluster) 0) x) :
    writtenBytes g chain offset stop pos buf written m x = m x := by
  induction hn : stop - pos using Nat.strongRecOn generalizing pos written m with
  | ind n ih =>
    rw [writtenBytes]
    split
    swap
    · rfl
    rename_i hlt
    have hmod := Nat.mod_lt pos g.bytesPerCluster_pos
    have hthis := h pos ⟨Nat.le_refl _, hlt, Or.inl rfl⟩
    simp only
    rw [ih _ (by omega) (fun p hp => h p hp.of_next) rfl]
    refine writeBytes_out _ ?_
    unfold Geometry.InCluster at hthis
    rw [List.length_take, List.length_drop]
    omega

/-- A byte that the loop changed is a byte of the buffer. -/
theorem writtenBytes_values (g : Geometry) (chain : List Nat) (offset stop pos : Nat)
    (buf : List UInt8) (written : Nat) (m : Store) (x : Nat) :
    writtenBytes g chain offset stop pos buf written m x = m x ∨
      writtenBytes g chain offset stop pos buf written m x ∈ buf := by
  induction hn : stop - pos using Nat.strongRecOn generalizing pos written m with
  | ind n ih =>
    rw [writtenBytes]
    split
    swap
    · exact Or.inl rfl
    have hmod := Nat.mod_lt pos g.bytesPerCluster_pos
    simp only
    refine (ih _ (by omega) _ _ _ rfl).elim (fun heq => ?_) Or.inr
    rw [heq]
    generalize g.clusterAddr _ + _ = a
    generalize min (stop - pos) _ = take
    by_cases hx : x < a ∨ a + ((buf.drop written).take take).length ≤ x
    · exact Or.inl (writeBytes_out m hx)
    · obtain ⟨i, rfl⟩ : ∃ i, x = a + i := ⟨x - a, by omega⟩
      have hi : i < ((buf.drop written).take take).length := by omega
      right
      rw [writeBytes_in m a hi 0, List.getD_eq_getElem _ _ hi]
      exact List.mem_of_mem_drop (List.mem_of_mem_take (List.getElem_mem hi))

/-- Two positions of a file do not lie at one address. -/
theorem fileAddr_inj {g : Geometry} {chain : List Nat} (hnd : chain.Nodup)
    (hchain : ∀ c ∈ chain, g.validCluster c = true) {p q : Nat}
    (hp : p < chain.length * g.bytesPerCluster) (hq : q < chain.length * g.bytesPerCluster)
    (h : fileAddr g chain p = fileAddr g chain q) : p = q := by
  have hp' := div_lt_length hp
  have hq' := div_lt_length hq
  have hvp := (Geometry.validCluster_iff.mp (hchain _ (getD_mem hp'))).1
  have hvq := (Geometry.validCluster_iff.mp (hchain _ (getD_mem hq'))).1
  have hin : g.InCluster (chain.getD (q / g.bytesPerCluster) 0) (fileAddr g chain q) :=
    fileAddr_inCluster q
  have hcl := Geometry.InCluster.unique hvp hvq (fileAddr_inCluster p) (h ▸ hin)
  have hdiv : p / g.bytesPerCluster = q / g.bytesPerCluster := by
    rw [List.getD_eq_getElem _ _ hp', List.getD_eq_getElem _ _ hq'] at hcl
    exact (List.Nodup.getElem_inj_iff hnd).mp hcl
  have hmod : p % g.bytesPerCluster = q % g.bytesPerCluster := by
    rw [fileAddr, fileAddr, hdiv] at h
    omega
  rw [← Nat.div_add_mod p g.bytesPerCluster, hdiv, hmod, Nat.div_add_mod]

/-- Writing a range of a cluster through the view. -/
theorem fileView_writeBytes {g : Geometry} {chain : List Nat} (hnd : chain.Nodup)
    (hchain : ∀ c ∈ chain, g.validCluster c = true) (m : Store) {p q : Nat} {bs : List UInt8}
    (hp : p < chain.length * g.bytesPerCluster) (hq : q < chain.length * g.bytesPerCluster)
    (hbs : p % g.bytesPerCluster + bs.length ≤ g.bytesPerCluster) :
    fileView g chain (writeBytes m (fileAddr g chain p) bs) q =
      writeBytes (fileView g chain m) p bs q := by
  rw [fileView]
  by_cases hin : p ≤ q ∧ q < p + bs.length
  · obtain ⟨i, rfl⟩ : ∃ i, q = p + i := ⟨q - p, by omega⟩
    rw [fileAddr_add (by omega), writeBytes_in _ _ (by omega) 0, writeBytes_in _ _ (by omega) 0]
  · rw [writeBytes_out _ (show q < p ∨ p + bs.length ≤ q by omega), fileView]
    refine writeBytes_out _ ?_
    by_contra hout
    obtain ⟨i, hi⟩ : ∃ i, fileAddr g chain q = fileAddr g chain p + i :=
      ⟨fileAddr g chain q - fileAddr g chain p, by omega⟩
    have hlt : i < bs.length := by omega
    rw [← fileAddr_add (by omega)] at hi
    have hlast : p + i < chain.length * g.bytesPerCluster := by
      obtain ⟨hd, -⟩ := div_mod_add (b := g.bytesPerCluster) (p := p) (i := i) (by omega)
      exact (Nat.div_lt_iff_lt_mul g.bytesPerCluster_pos).mp (hd ▸ div_lt_length hp)
    have := fileAddr_inj hnd hchain hq hlast hi
    omega

/-- Where the cluster index of every turn is the one of its position, the loop
writes the buffer at `pos`. -/
theorem fileView_writtenBytes {g : Geometry} {chain : List Nat} (hnd : chain.Nodup)
    (hchain : ∀ c ∈ chain, g.validCluster c = true) {offset stop : Nat} {buf : List UInt8}
    (hstop : stop ≤ chain.length * g.bytesPerCluster) {pos written : Nat} (m : Store)
    (hidx : ∀ p, Turn g pos stop p →
      (p - offset) / g.bytesPerCluster = p / g.bytesPerCluster)
    (hbuf : buf.length = written + (stop - pos)) {q : Nat}
    (hq : q < chain.length * g.bytesPerCluster) :
    fileView g chain (writtenBytes g chain offset stop pos buf written m) q =
      writeBytes (fileView g chain m) pos (buf.drop written) q := by
  induction hn : stop - pos using Nat.strongRecOn generalizing pos written m with
  | ind n ih =>
    rw [writtenBytes]
    split
    swap
    · rw [List.drop_eq_nil_of_le (by omega), writeBytes_nil]
    rename_i hlt
    have hmod := Nat.mod_lt pos g.bytesPerCluster_pos
    simp only
    rw [hidx pos ⟨Nat.le_refl _, hlt, Or.inl rfl⟩]
    change fileView g chain (writtenBytes g chain offset stop _ buf _
      (writeBytes m (fileAddr g chain pos) _)) q = _
    rw [ih _ (by omega) _ (fun p hp => hidx p hp.of_next) (by omega) rfl]
    generalize htake : min (stop - pos) (g.bytesPerCluster - pos % g.bytesPerCluster) = take
    have hlen : ((buf.drop written).take take).length = take := by
      simp
      omega
    -- what the later turns write lies right behind this part of the buffer
    have hview : ∀ q, q < chain.length * g.bytesPerCluster →
        fileView g chain (writeBytes m (fileAddr g chain pos) ((buf.drop written).take take)) q =
          writeBytes (fileView g chain m) pos ((buf.drop written).take take) q := fun q hq =>
      fileView_writeBytes hnd hchain m (by omega) hq (by omega)
    have hjoin := writeBytes_append (fileView g chain m) pos ((buf.drop written).take take)
      (buf.drop (written + take))
    rw [← List.drop_drop, List.take_append_drop, hlen] at hjoin
    rw [← hjoin, ← List.drop_drop]
    by_cases hin : pos + take ≤ q ∧ q < pos + take + ((buf.drop written).drop take).length
    · obtain ⟨i, rfl⟩ : ∃ i, q = pos + take + i := ⟨q - (pos + take), by omega⟩
      rw [writeBytes_in _ _ (by omega) 0, writeBytes_in _ _ (by omega) 0]
    · rw [writeBytes_out _ (by omega), writeBytes_out _ (by omega), hview q hq]

end AeroOS.Fat32
