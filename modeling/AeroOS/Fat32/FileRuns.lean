import AeroOS.Fat32.ReadSlices
import AeroOS.Fat32.Spares

/-!
# FAT32: the contents of the files over runs

* `openFile` is what the file behind an inode reads as, and `Op.onFile` what a step makes of
  it.
* `Op.Plain` is the condition on a step: a write starts inside the file, at its beginning or
  within its first cluster, and `truncate` grows a file over zeros of its last cluster only.
* `FileEdit.tidy`: an edit of one file leaves the volume tidy, if the file fits in its chain
  and its slot says so.  `write_tidy` and `truncate_tidy` are the two operations.
* `KeepsFiles`: the volume stays tidy, every file reads as is said or is gone, and no inode
  comes back.  `keepsFiles_exec` is the step and `keepsFiles_of_run` the run.
* `contents_of_run`: every read of a file that is still there gives a slice of
  `contentsAfter`.
-/

namespace AeroOS.Fat32

open Bytes Run

/-! ## Open files -/

/-- The contents of the file behind an inode. -/
def openFile (s : Fat32) (id : Nat) : Option (List UInt8) :=
  (s.inodes.get id).bind fun i => if i.isDir then none else s.readAll id

theorem openFile_eq {s : Fat32} {id : Nat} {i : FatInode} (hi : s.inodes.get id = some i)
    (hk : i.isDir = false) : s.openFile id = s.readAll id := by
  rw [openFile, hi, Option.bind_some, hk]
  rfl

theorem openFile_eq_some {s : Fat32} {id : Nat} {bs : List UInt8} (h : s.openFile id = some bs) :
    ∃ i, s.inodes.get id = some i ∧ i.isDir = false ∧ s.readAll id = some bs := by
  cases hi : s.inodes.get id with
  | none =>
    rw [openFile, hi] at h
    cases h
  | some i =>
    cases hk : i.isDir with
    | false => exact ⟨i, rfl, hk, by rwa [openFile_eq hi hk] at h⟩
    | true =>
      rw [openFile, hi, Option.bind_some, hk] at h
      cases h

/-- `write` and `truncate` do nothing where there is no file. -/
theorem file_or_same (s : Fat32) (id : Nat) :
    (∃ i, s.inodes.get id = some i ∧ i.isDir = false) ∨
      s.openFile id = none ∧ (∀ offset buf, (s.write id offset buf).2 = s) ∧
        ∀ size, (s.truncate id size).2 = s := by
  cases hi : s.inodes.get id with
  | none =>
    refine Or.inr ⟨by rw [openFile, hi]; rfl, fun offset buf => ?_, fun size => ?_⟩
    · rw [write, hi]
    · rw [truncate, hi]
  | some i =>
    cases hk : i.isDir with
    | false => exact Or.inl ⟨i, rfl, hk⟩
    | true =>
      refine Or.inr ⟨by rw [openFile, hi, Option.bind_some, hk]; rfl, fun offset buf => ?_,
        fun size => ?_⟩
      · rw [write, hi]
        simp only [hk, if_true]
      · rw [truncate, hi]
        simp only [hk, if_true]

/-! ## Edits of a file -/

section edit

variable {s s' : Fat32} {id f' m : Nat} {i : FatInode}
  (h : FileEdit (namesOf s) s s' id i.firstCluster f') (ht : Tidy s)
  (hi : s.inodes.get id = some i)

include h

/-- The head behind the edit is that of the inode. -/
theorem FileEdit.head_eq {j : FatInode} (hj : s'.inodes.get id = some j) :
    j.firstCluster = f' := by
  rcases (h.described.covers.ino id j.firstCluster j.isDir).mpr ⟨j, hj, rfl, rfl⟩ with
    ⟨-, hne⟩ | ⟨-, heq, -⟩
  · exact absurd rfl hne
  · exact heq

/-- The slots of files are those from before, and name the same heads. -/
theorem FileEdit.fileSlot {a : Nat} (ha : IsFileSlot s' a) :
    IsFileSlot s a ∧ (s.entryAt a).firstCluster = (s'.entryAt a).firstCluster := by
  obtain ⟨d, hs⟩ := h.described.fileSlot ha
  have hs : (namesOf s).slot d a (s'.entryAt a).firstCluster false := hs
  exact ⟨isFileSlot_of_slot hs, hs.2.2.2.1⟩

include ht hi

theorem FileEdit.tidy (ho : InOrder s') (hl : LinksOk s')
    (hi' : s'.inodes.get id = some { firstCluster := f', size := m, isDir := false })
    (hm : m ≤ (s'.clusterChain f').length * s.geo.bytesPerCluster)
    (hown : ∀ a, IsFileSlot s a → (s.entryAt a).firstCluster = i.firstCluster →
      (s'.entryAt a).firstCluster = i.firstCluster → (s'.entryAt a).fileSize ≤
        (s'.clusterChain i.firstCluster).length * s.geo.bytesPerCluster)
    (hother : ∀ a, IsFileSlot s a → (s.entryAt a).firstCluster ≠ i.firstCluster →
      (s'.entryAt a).fileSize = (s.entryAt a).fileSize) : Tidy s' where
  toInOrder := ho
  links := hl
  inodeFits x j hj hkj := by
    rw [h.kept.geo]
    by_cases hx : x = id
    · rw [hx, hi'] at hj
      cases hj
      exact hm
    have hj₀ := (h.inode_of_ne x hx).symm.trans hj
    have hfit := ht.inodeFits x j hj₀ hkj
    by_cases hhead : j.firstCluster = i.firstCluster
    · -- two inodes have one head only if it is zero
      have h0 : j.firstCluster = 0 := by
        by_contra h0
        exact hx (ht.good.names.ino_unique ⟨j, hj₀, rfl, rfl⟩ ⟨i, hi, hhead.symm, rfl⟩ h0)
      rw [h0, clusterChain_def, chainOf_zero] at hfit ⊢
      exact hfit
    · rw [h.chain _ (heads_of_inode hj₀) hhead]
      exact hfit
  slotFits a ha := by
    rw [h.kept.geo]
    obtain ⟨hold, hhead⟩ := h.fileSlot ha
    by_cases hown' : (s.entryAt a).firstCluster = i.firstCluster
    · rw [← hhead, hown']
      exact hown a hold hown' (hhead ▸ hown')
    · rw [← hhead, h.chain _ hold.heads hown', hother a hold hown']
      exact ht.slotFits a hold

/-- The other files read as before. -/
theorem FileEdit.openFile_of_ne {x : Nat} (hx : x ≠ id) : s'.openFile x = s.openFile x := by
  have hget := h.inode_of_ne x hx
  cases hj : s.inodes.get x with
  | none => rw [openFile, openFile, hget, hj, Option.bind_none, Option.bind_none]
  | some j =>
    cases hkj : j.isDir with
    | true => rw [openFile, openFile, hget, hj, Option.bind_some, Option.bind_some, hkj, if_pos rfl,
        if_pos rfl]
    | false =>
      rw [openFile_eq hj hkj, openFile_eq (hget.trans hj) hkj]
      refine readAll_congr ht.good.sound h.described.sound h.kept.geo hj hget ?_
      by_cases h0 : j.firstCluster = 0
      · rw [h0, clusterChain_def, clusterChain_def, chainOf_zero, chainOf_zero]
        exact ⟨rfl, fun c hc => absurd hc List.not_mem_nil⟩
      · have hhead := heads_of_inode hj
        have hne : j.firstCluster ≠ i.firstCluster := fun heq =>
          hx (ht.good.names.ino_unique ⟨j, hj, rfl, rfl⟩ ⟨i, hi, heq.symm, rfl⟩ h0)
        have hmem : j.firstCluster ∈ s.clusterChain j.firstCluster :=
          mem_chainOf_self ((ht.good.chains.valid _ hhead).resolve_left h0)
        exact ⟨h.chain _ hhead hne, h.bytes _ hhead hne
          ((FileHead.of_inode ht.good hj hkj).not_dir hmem)⟩

end edit

/-! ## `write` -/

/-- The chain of the old head does not get shorter. -/
theorem Extended.length_le {H : Nat → Prop} {s s₁ : Fat32} {id f f' : Nat} {news : List Nat}
    (h : Extended H s s₁ id f f' news) :
    (s.clusterChain f).length ≤ (s₁.clusterChain f).length := by
  rcases h.head with ⟨heq, -⟩ | ⟨h0, -, -⟩
  · have hchain := h.chain
    rw [heq] at hchain
    rw [hchain, List.length_append]
    exact Nat.le_add_right _ _
  · rw [h0, clusterChain_def, chainOf_zero]
    exact Nat.zero_le _

/-- A write leaves the sizes in the slots of the other files. -/
theorem Wrote.fileSize_of_ne {s s' s₁ : Fat32} {id offset f' : Nat} {i : FatInode}
    {buf : List UInt8} {news : List Nat} (h : Wrote s s' id i offset buf s₁ f' news)
    (hg : Good s) {a : Nat} (ha : IsFileSlot s a)
    (hne : (s.entryAt a).firstCluster ≠ i.firstCluster) :
    (s'.entryAt a).fileSize = (s.entryAt a).fileSize := by
  obtain ⟨d, hd, had⟩ := ha.1
  rcases h.slot d a hd had with hsame | ⟨hhit, -⟩
  · rw [hsame]
  · -- a slot of another file does not have the head of this one
    rw [sizeHit, Bool.and_eq_true, beq_iff_eq] at hhit
    rcases h.ext.head with ⟨heq, -⟩ | ⟨-, hmem, -⟩
    · exact absurd (hhit.2.trans heq) hne
    · have hfree := h.ext.wasFree f' hmem
      exact absurd (hhit.2 ▸ ha.heads) (hg.chains.not_head_of_free hfree.2 hfree.1)

section write

variable {upper : List UInt8 → List UInt8} {s : Fat32} (ht : Tidy s) {id : Nat} {i : FatInode}
  (hi : s.inodes.get id = some i) (hk : i.isDir = false) {offset : Nat} {buf : List UInt8}
  (hlt : offset + buf.length < 2 ^ 32)

include ht hi hk hlt

/-- The state in which `write` leaves the volume.  It runs out of clusters, or writes all
bytes, and the size goes into the first slot of the walk that has the first cluster. -/
theorem write_end : ∃ s₁ f' news,
    Extended (namesOf s).heads s s₁ id i.firstCluster f' news ∧
    ((∃ e, s.write id offset buf = (.error e, s₁)) ∨
      ∃ s₄, SameDirs s s₄ ∧ s₄.inodes.get id =
          some { i with firstCluster := f', size := max i.size (offset + buf.length) } ∧
        s.write id offset buf = (.ok buf.length, (s.firstSized f').elim s₄
          fun b => s₄.setEntrySize b (max i.size (offset + buf.length)))) := by
  have hg := ht.good
  rw [write_eq hg hi hk hlt]
  rcases hgrow : s.growFor id i (offset + buf.length) with ⟨r, s₁⟩
  obtain ⟨f', news, hx, hr⟩ := extendChain_spec hg.chains (heads_of_inode hi) hgrow
  refine ⟨s₁, f', news, hx, ?_⟩
  cases r with
  | error e => exact Or.inl ⟨e, rfl⟩
  | ok p =>
    obtain ⟨i', chain'⟩ := p
    obtain ⟨rfl, rfl, hnews⟩ := hr i' chain' rfl
    have hcover : offset + buf.length ≤
        (s₁.clusterChain f').length * s₁.geo.bytesPerCluster := by
      rw [hx.geo]
      refine (le_clustersFor_mul s hlt).trans (Nat.mul_le_mul_right _ ?_)
      rw [hx.chain, List.length_append, hnews]
      omega
    have hdirs := sameDirs_wroteData hg hi hk hx hcover
    refine Or.inr ⟨_, hdirs, wroteData_inode s₁ id (s₁.clusterChain f') offset buf (hx.inode hi),
      ?_⟩
    simp only
    rw [maxDepth, hdirs.geo, hdirs.findSized _ _ IsDir.root]
    have hfind := walk_finishes hg f'
    rw [maxDepth] at hfind
    rw [hfind]
    cases s.firstSized f' with
    | none => rfl
    | some b => rfl

theorem write_tidy : Tidy (s.write id offset buf).2 := by
  obtain ⟨f', -, hedit⟩ := write_described ht.good.described hi hk offset buf
  have ho := inOrder_write ht.toInOrder id offset buf
  have hl := write_linksOk ht.good ht.links hi hk hlt
  have hfit := ht.inodeFits id i hi hk
  have hslots := ht.slotFits
  obtain ⟨s₁, f₁, news, hx, ⟨e, heq⟩ | ⟨s₄, -, -, heq⟩⟩ := write_end ht hi hk hlt
  · rw [heq] at hedit ho hl ⊢
    have hino := hx.inode hi
    obtain rfl : f₁ = f' := hedit.head_eq hino
    have hentry : ∀ a, s₁.entryAt a = s.entryAt a := fun a => by rw [entryAt, entryAt, hx.disk]
    refine hedit.tidy ht hi ho hl (hino.trans (by rw [hk])) (hfit.trans ?_) ?_ fun a _ _ => by
      rw [hentry]
    · rw [hx.chain, List.length_append]
      exact Nat.mul_le_mul_right _ (Nat.le_add_right _ _)
    · intro a ha hhead _
      rw [hentry]
      refine (hslots a ha).trans (Nat.mul_le_mul_right _ ?_)
      rw [hhead]
      exact hx.length_le
  · obtain ⟨-, s₂, f₂, news', hwr⟩ := wrote_of_ok ht.good hi hk hlt heq
    rw [heq] at hedit ho hl ⊢
    simp only at hedit ho hl ⊢
    generalize (s.firstSized f₁).elim s₄ _ = s' at hedit ho hl hwr ⊢
    have hino := hwr.inode
    obtain rfl : f₂ = f' := hedit.head_eq hino
    have hchain : ∀ x, s'.clusterChain x = s₂.clusterChain x := fun x => by
      rw [clusterChain_def, clusterChain_def, hwr.geo, hwr.fatCache, hwr.ext.geo]
    have hmax : max i.size (offset + buf.length) ≤
        (s'.clusterChain f₂).length * s.geo.bytesPerCluster := by
      rw [hchain]
      refine Nat.max_le.mpr ⟨hfit.trans (Nat.mul_le_mul_right _ ?_), hwr.cover⟩
      rw [hwr.ext.chain, List.length_append]
      exact Nat.le_add_right _ _
    refine hedit.tidy ht hi ho hl (hino.trans (by rw [hk])) hmax ?_ ?_
    · intro a ha hhead hhead'
      obtain ⟨d, hd, had⟩ := ha.1
      rcases hwr.slot d a hd had with hsame | ⟨hhit, hsized⟩
      · rw [hsame]
        refine (hslots a ha).trans (Nat.mul_le_mul_right _ ?_)
        rw [hhead, hchain]
        exact hwr.ext.length_le
      · rw [sizeHit, Bool.and_eq_true, beq_iff_eq] at hhit
        rw [← hhead, hhit.2, hsized]
        exact (Nat.mod_le _ _).trans hmax
    · exact fun a ha hhead => hwr.fileSize_of_ne ht.good ha hhead

end write

/-! ## `truncate` -/

/-- The search for the size field comes to the slot of the file, if there is one and the
file has a cluster. -/
def Searched (s : Fat32) (i : FatInode) : Prop :=
  ∀ a, IsFileSlot s a → (s.entryAt a).firstCluster = i.firstCluster → i.firstCluster ≠ 0 →
    a ∈ s.walk

section truncate

variable {upper : List UInt8 → List UInt8} {s : Fat32} (ht : Tidy s) {id : Nat} {i : FatInode}
  (hi : s.inodes.get id = some i) (hk : i.isDir = false) {size : Nat}

include ht hi hk

/-- The slot that the search comes to gets the size. -/
theorem truncate_entry {a f' : Nat} (ha : a ∈ s.walk) (hhead : (s.entryAt a).firstCluster = f')
    (h0 : f' ≠ 0) {m : Nat} (hi' : (s.truncate id size).2.inodes.get id =
      some { firstCluster := f', size := m, isDir := false }) :
    ((s.truncate id size).2.entryAt a).fileSize = size % 2 ^ 32 := by
  obtain ⟨f₁, s₂, -, hi₂, -, heq⟩ := truncate_end ht.wellFormed hi hk size
  rw [heq] at hi' ⊢
  have hf : f₁ = f' := by
    cases hfirst : s.firstSized f₁ with
    | none =>
      rw [hfirst] at hi'
      have hget : s₂.inodes.get id = some ⟨f', m, false⟩ := hi'
      rw [hi₂] at hget
      exact congrArg FatInode.firstCluster (Option.some.inj hget)
    | some b =>
      rw [hfirst] at hi'
      have hget : s₂.inodes.get id = some ⟨f', m, false⟩ := hi'
      rw [hi₂] at hget
      exact congrArg FatInode.firstCluster (Option.some.inj hget)
  subst hf
  have hfirst : s.firstSized f₁ = some a :=
    firstSized_eq_some.mpr ((firstOfWalk_iff ht.good h0).mpr ⟨ha, hhead⟩)
  rw [hfirst]
  simp only [Option.elim_some]
  rw [setEntrySize_entryAt]
  exact Nat.mod_mod _ _

theorem truncate_tidy (hsize : Resizes s i size) (hsearch : Searched s i)
    (hsafe : Op.Safe upper s (.truncate id size)) : Tidy (s.truncate id size).2 := by
  obtain ⟨hlt, hgrow⟩ := hsize
  have hw := ht.wellFormed
  have hl := truncate_linksOk hw hi hk ht.links size
  have ho := inOrder_truncate ht.toInOrder id size hsafe
  have hentry := @truncate_entry s ht id i hi hk size
  obtain ⟨f₁, -, hedit⟩ := truncate_safe ht.good hi hk hsafe
  obtain ⟨s', s₁, f', heq, htr⟩ := truncated hw hi hk size
  rw [heq] at hedit ho hl hentry ⊢
  simp only [Nat.mod_eq_of_lt hlt] at hedit ho hl hentry htr ⊢
  have hino := htr.inode hi hk
  obtain rfl : f' = f₁ := hedit.head_eq hino
  have hfit : size ≤ (s.clusterChain i.firstCluster).length * s.geo.bytesPerCluster := by
    rcases Nat.lt_or_ge i.size size with hgt | hle
    · exact (hgrow hgt).1
    · exact hle.trans (ht.inodeFits id i hi hk)
  have hchain := (htr.clusterChain f').trans htr.cut.chain
  have hm : size ≤ (s'.clusterChain f').length * s.geo.bytesPerCluster := by
    rw [hchain, List.length_take]
    rcases Nat.le_total (s.keptClusters size) (s.clusterChain i.firstCluster).length with hle | hle
    · rw [Nat.min_eq_left hle]
      exact s.le_keptClusters_mul hlt
    · rwa [Nat.min_eq_right hle]
  refine hedit.tidy ht hi ho hl hino hm ?_ fun a ha hhead => ?_
  · intro a ha hhead hhead'
    by_cases h0 : i.firstCluster = 0
    · -- a file without a cluster stays empty
      rw [h0, clusterChain_def, chainOf_zero, List.length_nil, Nat.zero_mul] at hfit
      rw [htr.entryAt_of_file hw ha (Or.inr ⟨Nat.le_zero.mp hfit, h0⟩),
        ht.slot_empty ha (hhead.trans h0)]
      exact Nat.zero_le _
    rcases htr.cut.chains with ⟨hf, -⟩ | ⟨hz, hnil, -, -⟩
    · subst hf
      rw [hentry (hsearch a ha hhead h0) hhead h0 hino]
      exact hm
    · obtain ⟨⟨d, hd, had⟩, he, -⟩ := ha
      have hz' : size % 2 ^ 32 = 0 := by rw [Nat.mod_eq_of_lt hlt, hz]
      exact absurd hhead (hsafe hz' i hi hk hnil d a ⟨hd, had, he⟩)
  · rw [htr.entryAt_of_file hw ha (Or.inl (Ne.symm hhead))]

end truncate

/-! ## One step -/

/-- What the code does well: writes that start inside the file, at its beginning or within
its first cluster, and truncations that the law of `truncate` allows and whose file the
search for the size field finds. -/
def Op.Plain (upper : List UInt8 → List UInt8) (s : Fat32) : Op → Prop
  | .write id offset buf => ∀ i, s.inodes.get id = some i → i.isDir = false →
      offset + buf.length < 2 ^ 32 ∧ offset ≤ i.size ∧
        (buf.length = 0 ∨ offset = 0 ∨ offset + buf.length ≤ s.geo.bytesPerCluster)
  | .truncate id size => Op.Safe upper s (.truncate id size) ∧
      ∀ i, s.inodes.get id = some i → i.isDir = false → Resizes s i size ∧ Searched s i
  | op => op.Safe upper s

/-- What a step makes of the contents of a file.  A write that fails does nothing. -/
def Op.onFile (s : Fat32) (id : Nat) : Op → List UInt8 → List UInt8
  | .write id' offset buf, old =>
    if id' = id ∧ (s.write id' offset buf).1.toBool = true then overlay old offset buf else old
  | .truncate id' size, old => if id' = id then resized old size else old
  | _, old => old

theorem Op.Plain.safe {upper : List UInt8 → List UInt8} {s : Fat32} {op : Op}
    (h : op.Plain upper s) : op.Safe upper s := by
  cases op with
  | write => exact trivial
  | truncate => exact h.1
  | create | mkdir | lookup | readdir | unlink => exact h

/-- The volume is tidy behind a step, each file reads as `now` says or is gone, and no inode
comes back. -/
structure KeepsFiles (s s' : Fat32) (now : Nat → List UInt8 → List UInt8) : Prop where
  tidy : Tidy s'
  next : s.inodes.next ≤ s'.inodes.next
  gone : ∀ id, id < s.inodes.next → s.inodes.get id = none → s'.inodes.get id = none
  file : ∀ id old, s.openFile id = some old →
    s'.openFile id = some (now id old) ∨ s'.inodes.get id = none

theorem KeepsFiles.refl {s : Fat32} (ht : Tidy s) : KeepsFiles s s fun _ old => old :=
  ⟨ht, Nat.le_refl _, fun _ _ hid => hid, fun _ _ hold => Or.inl hold⟩

theorem KeepsFiles.trans {s s' s'' : Fat32} {f g : Nat → List UInt8 → List UInt8}
    (h : KeepsFiles s s' f) (h' : KeepsFiles s' s'' g) :
    KeepsFiles s s'' fun id old => g id (f id old) where
  tidy := h'.tidy
  next := h.next.trans h'.next
  gone id hlt hid := h'.gone id (hlt.trans_le h.next) (h.gone id hlt hid)
  file id old hold := by
    obtain ⟨i, hi, -⟩ := openFile_eq_some hold
    rcases h.file id old hold with hread | hnone
    · exact h'.file id _ hread
    · exact Or.inr (h'.gone id ((InodeTable.lt_of_get hi).trans_le h.next) hnone)

theorem Spares.keepsFiles {s s' : Fat32} (h : Spares s s') (hg : Good s) (ht : Tidy s') :
    KeepsFiles s s' fun _ old => old where
  tidy := ht
  next := h.next
  gone id hlt hid := by
    rcases h.old id hlt with hsame | hnone
    · rw [hsame, hid]
    · exact hnone
  file id old hold := by
    obtain ⟨i, hi, hk, hread⟩ := openFile_eq_some hold
    rcases h.old id (InodeTable.lt_of_get hi) with hsame | hnone
    · have hlive : s'.inodes.get id ≠ none := by
        rw [hsame, hi]
        exact Option.some_ne_none i
      left
      rw [openFile_eq (hsame.trans hi) hk, h.readAll_eq hg ht.good hi hk hlive, hread]
    · exact Or.inr hnone

/-- Nothing happens where there is no file. -/
theorem KeepsFiles.of_none {s : Fat32} (ht : Tidy s) {id : Nat} (hnone : s.openFile id = none)
    {now : Nat → List UInt8 → List UInt8} (hother : ∀ x old, x ≠ id → now x old = old) :
    KeepsFiles s s now where
  tidy := ht
  next := Nat.le_refl _
  gone _ _ hid := hid
  file x old hold := by
    left
    rw [hother x old, hold]
    rintro rfl
    rw [hnone] at hold
    cases hold

/-- An edit of a file keeps the others. -/
theorem FileEdit.keepsFiles {s s' : Fat32} {id f' : Nat} {i : FatInode}
    (h : FileEdit (namesOf s) s s' id i.firstCluster f') (ht : Tidy s)
    (hi : s.inodes.get id = some i) (ht' : Tidy s') {now : Nat → List UInt8 → List UInt8}
    (hown : ∀ old, s.openFile id = some old → s'.openFile id = some (now id old))
    (hother : ∀ x old, x ≠ id → now x old = old) : KeepsFiles s s' now where
  tidy := ht'
  next := h.next.ge
  gone x _ hx := by
    by_cases hxid : x = id
    · rw [hxid, hi] at hx
      cases hx
    · rw [h.inode_of_ne x hxid, hx]
  file x old hold := by
    left
    by_cases hxid : x = id
    · subst hxid
      exact hown old hold
    · rw [h.openFile_of_ne ht hi hxid, hother x old hxid, hold]

section step

variable {upper : List UInt8 → List UInt8} {s : Fat32} (ht : Tidy s)

include ht

/-- The bytes of a file behind a write, which may run out of clusters. -/
theorem openFile_write {id offset : Nat} {buf : List UInt8}
    (h : Op.Plain upper s (.write id offset buf)) {old : List UInt8}
    (hold : s.openFile id = some old) :
    (s.write id offset buf).2.openFile id =
      some ((Op.write id offset buf).onFile s id old) := by
  obtain ⟨i, hi, hk, hread⟩ := openFile_eq_some hold
  obtain ⟨hlt, hin, hpos⟩ := h i hi hk
  have hw := ht.wellFormed
  rcases hres : s.write id offset buf with ⟨r, s'⟩
  cases r with
  | ok n =>
    obtain ⟨-, s₁, f', news, hwr⟩ := wrote_of_ok ht.good hi hk hlt hres
    obtain ⟨-, ⟨old', hold', hnew⟩, -⟩ := writeLaw_of_inside hw hi hk hlt hin hpos n s' hres
    obtain rfl : old = old' := Option.some.inj (hread.symm.trans hold')
    rw [openFile_eq hwr.inode hk, hnew, Op.onFile, hres, if_pos ⟨rfl, rfl⟩]
  | error e =>
    obtain ⟨s₁, f', news, hx, ⟨e', heq⟩ | ⟨s₄, -, -, heq⟩⟩ := write_end ht hi hk hlt
    · obtain rfl : s₁ = s' := (Prod.mk.inj (heq.symm.trans hres)).2
      have hfit := ht.inodeFits id i hi hk
      have hsz := hw.size_lt hi hk
      have hread' : s₁.readAll id = s.readAll id := by
        rw [Fat32.readAll_eq (ht.good.sound.of_eq hx.geo (by rw [hx.disk])) (hx.inode hi) hk ?_
          hsz, hw.readAll_eq hi hk]
        · simp only [hx.geo, hx.disk, hx.chain, Option.some.injEq]
          exact readBytes_congr fun p _ hp => fileView_append _ (by omega)
        · rw [hx.geo, hx.chain, List.length_append]
          exact hfit.trans (Nat.mul_le_mul_right _ (Nat.le_add_right _ _))
      rw [openFile_eq (hx.inode hi) hk, hread', hread, Op.onFile, hres, if_neg]
      exact fun hok => Bool.noConfusion hok.2
    · cases heq.symm.trans hres

theorem openFile_truncate {id size : Nat} (h : Op.Plain upper s (.truncate id size))
    {old : List UInt8} (hold : s.openFile id = some old) :
    (s.truncate id size).2.openFile id = some ((Op.truncate id size).onFile s id old) := by
  obtain ⟨i, hi, hk, hread⟩ := openFile_eq_some hold
  have hresize := (h.2 i hi hk).1
  have hw := ht.wellFormed
  obtain ⟨s', s₁, f', heq, htr⟩ := truncated hw hi hk size
  obtain ⟨-, ⟨old', hold', hnew⟩, -⟩ := truncateLaw_of_resizes hw hi hk hresize s' heq
  obtain rfl : old = old' := Option.some.inj (hread.symm.trans hold')
  rw [heq, openFile_eq (htr.inode hi hk) rfl, hnew, Op.onFile, if_pos rfl]

theorem keepsFiles_write {id offset : Nat} {buf : List UInt8}
    (h : Op.Plain upper s (.write id offset buf)) :
    KeepsFiles s (s.write id offset buf).2 ((Op.write id offset buf).onFile s) := by
  have hother : ∀ x old, x ≠ id → (Op.write id offset buf).onFile s x old = old :=
    fun x old hx => if_neg fun hcon => hx hcon.1.symm
  rcases file_or_same s id with ⟨i, hi, hk⟩ | ⟨hnone, hsame, -⟩
  · obtain ⟨hlt, -, -⟩ := h i hi hk
    obtain ⟨f', -, hedit⟩ := write_described ht.good.described hi hk offset buf
    exact hedit.keepsFiles ht hi (write_tidy ht hi hk hlt) (fun _ => openFile_write ht h) hother
  · rw [hsame offset buf]
    exact KeepsFiles.of_none ht hnone hother

theorem keepsFiles_truncate {id size : Nat} (h : Op.Plain upper s (.truncate id size)) :
    KeepsFiles s (s.truncate id size).2 ((Op.truncate id size).onFile s) := by
  have hother : ∀ x old, x ≠ id → (Op.truncate id size).onFile s x old = old :=
    fun x old hx => if_neg fun hcon => hx hcon.symm
  rcases file_or_same s id with ⟨i, hi, hk⟩ | ⟨hnone, -, hsame⟩
  · obtain ⟨hresize, hsearch⟩ := h.2 i hi hk
    obtain ⟨f', -, hedit⟩ := truncate_safe ht.good hi hk h.1
    exact hedit.keepsFiles ht hi (truncate_tidy ht hi hk hresize hsearch h.1)
      (fun _ => openFile_truncate ht h) hother
  · rw [hsame size]
    exact KeepsFiles.of_none ht hnone hother

/-- The step. -/
theorem keepsFiles_exec (op : Op) (h : op.Plain upper s) :
    KeepsFiles s (op.exec upper s) (op.onFile s) := by
  have hg := ht.good
  have ho := inOrder_exec ht.toInOrder op h.safe
  cases op with
  | create dirId name =>
    have hs := @create_spares upper s hg dirId name
    exact hs.keepsFiles hg (hs.tidy ht ho (create_linksOk hg ht.links dirId name))
  | mkdir dirId name =>
    have hs := @mkdir_spares upper s hg dirId name
    exact hs.keepsFiles hg (hs.tidy ht ho (mkdir_linksOk hg ht.links dirId name))
  | lookup dirId name =>
    have hs := lookup_spares hg dirId name h
    obtain ⟨hgeo, hfat, -⟩ := lookup_frame upper s dirId name
    exact hs.keepsFiles hg (hs.tidy ht ho (ht.links.of_eq hgeo hfat))
  | readdir dirId =>
    have hs := readdir_spares hg dirId
    obtain ⟨hgeo, hfat, -⟩ := readdir_frame s dirId
    exact hs.keepsFiles hg (hs.tidy ht ho (ht.links.of_eq hgeo hfat))
  | write id offset buf => exact keepsFiles_write ht h
  | truncate id size => exact keepsFiles_truncate ht h
  | unlink dirId name =>
    have hs := unlink_spares hg ht.noSelf dirId name h
    exact hs.keepsFiles hg (hs.tidy ht ho (unlink_linksOk hg ht.links dirId name))

end step

/-! ## Whole runs -/

/-- What a run makes of the contents of a file. -/
def contentsAfter (upper : List UInt8 → List UInt8) (s : Fat32) (id : Nat) :
    List Op → List UInt8 → List UInt8
  | [], old => old
  | op :: ops, old => contentsAfter upper (op.exec upper s) id ops (op.onFile s id old)

/-- Every read of the inode gives a slice of the bytes. -/
def HasContents (s : Fat32) (id : Nat) (bs : List UInt8) : Prop :=
  ∀ offset buf, offset + buf.length < 2 ^ 64 →
    s.read id offset buf = .ok (min buf.length (bs.length - offset),
      (bs.drop offset).take buf.length ++ buf.drop (min buf.length (bs.length - offset)))

theorem hasContents_of_fits {s : Fat32} (hs : Sound s) {id : Nat} {i : FatInode}
    (hi : s.inodes.get id = some i) (hk : i.isDir = false)
    (hfit : i.size ≤ (s.clusterChain i.firstCluster).length * s.geo.bytesPerCluster) :
    HasContents s id (s.contents i) := by
  intro offset buf hend
  rw [read_slice hs hi hk hfit fun _ => hend, contents_length hfit]

theorem Tidy.hasContents {s : Fat32} (ht : Tidy s) {id : Nat} {bs : List UInt8}
    (h : s.openFile id = some bs) : HasContents s id bs := by
  obtain ⟨i, hi, hk, hread⟩ := openFile_eq_some h
  have hw := ht.wellFormed
  have hfit := ht.inodeFits id i hi hk
  rw [hw.readAll_eq hi hk, ← contents_eq hfit, Option.some.injEq] at hread
  exact hread ▸ hasContents_of_fits hw.sound hi hk hfit

variable {upper : List UInt8 → List UInt8} {s : Fat32}

theorem keepsFiles_of_run {ops : List Op} (ht : Tidy s)
    (hok : AllOk (Op.exec upper) (Op.Plain upper) s ops) :
    KeepsFiles s (ops.foldl (Op.exec upper) s) fun id => contentsAfter upper s id ops := by
  induction ops generalizing s with
  | nil => exact KeepsFiles.refl ht
  | cons op ops ih =>
    have hstep := keepsFiles_exec ht op hok.1
    exact hstep.trans (ih hstep.tidy hok.2)

section twoCluster

variable {s : Fat32}
  (hdirs : SameDirs (flatVolume smallGeometry twoClusterFat [entryA 3 1024]) s)
  (hino : ∀ id i, s.inodes.get id = some i → i.isDir = true →
    (flatVolume smallGeometry twoClusterFat [entryA 3 1024]).inodes.get id = some i)

include hdirs hino

/-- The one entry of the volume. -/
theorem twoCluster_slot {d a h : Nat} {k : Bool} (hs : (namesOf s).slot d a h k) :
    d = 2 ∧ h = 3 ∧ s.entryAt a = entryA 3 1024 := by
  obtain ⟨hd, ha, he, rfl, -⟩ := hs
  have hd' := hdirs.isDir_of hino hd
  obtain rfl : d = 2 := flat_twoCluster.covers.dir_of_isDir flat_twoCluster.view_ok hd'
  have ha' := hdirs.slotAddrs hd' ▸ ha
  rw [hdirs.entryAt hd' ha'] at he ⊢
  obtain ⟨i, hi, rfl, hent⟩ := flat_twoCluster.slot_cases ha' he
  obtain rfl : i = 0 := Nat.lt_one_iff.mp hi
  rw [hent]
  exact ⟨rfl, show (entryA 3 1024).firstCluster = 3 by decide, rfl⟩

theorem twoCluster_searched (hg : Good s) (i : FatInode) : Searched s i := by
  intro a ha _ _
  obtain ⟨d, hs⟩ := ha.slot
  obtain ⟨rfl, -, hent⟩ := twoCluster_slot hdirs hino hs
  have hroot : s.geo.rootCluster = 2 := congrArg Geometry.rootCluster hdirs.geo
  refine (mem_walk hg).mpr ⟨2, hroot ▸ Relation.ReflTransGen.refl, mem_sizeSlots.mpr ?_⟩
  rw [hent]
  exact ⟨hs.2.1, by decide⟩

end twoCluster

theorem twoClusterVolume_sameDirs :
    SameDirs (flatVolume smallGeometry twoClusterFat [entryA 3 1024]) twoClusterVolume :=
  sameDirs_internInode _ 3 1024 false

theorem twoClusterVolume_dirs (id : Nat) (i : FatInode)
    (hi : twoClusterVolume.inodes.get id = some i) (hk : i.isDir = true) :
    (flatVolume smallGeometry twoClusterFat [entryA 3 1024]).inodes.get id = some i := by
  refine (internInode_get_cases hi).resolve_right fun heq => ?_
  rw [heq] at hk
  cases hk

theorem twoClusterVolume_tidy : Tidy twoClusterVolume := by
  refine twoClusterVolume_wellFormed.tidy (fun hs _ => ?_) fun c _ => ?_
  · obtain ⟨rfl, rfl, -⟩ := twoCluster_slot twoClusterVolume_sameDirs twoClusterVolume_dirs hs
    decide
  · change LinkValue smallGeometry (twoClusterFat c)
    rw [twoClusterFat]
    split_ifs
    · exact linkValue_eoc _
    · exact linkValue_cluster (by decide)
    · exact linkValue_eoc _
    · exact linkValue_free _

end AeroOS.Fat32
