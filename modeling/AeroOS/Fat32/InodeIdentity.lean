import AeroOS.Fat32.NoCrossLink

/-!
# FAT32: inode identity

An inode is interned under its first cluster and its type, so the id that
`create`, `lookup` and `readdir` give for a directory entry identifies the
entry as long as no other entry has the same key.

* A `Session` is a volume with the ids that were given out for entries that are
  still in use; `Op.gives` is what an operation gives.
* `Op.Distinct` is the condition on a step: an entry without a chain is not
  interned while an inode without a chain is held for another entry.  Entries
  with a chain need no condition.
* `Session.Inv` is the invariant, and `distinct_of_run` the result for runs.
-/

namespace AeroOS.Fat32

open Bytes Run

/-! ## Sessions -/

/-- A volume with the ids that were given for its entries: `held id a` when
`id` was given for the entry in slot `a`, which has been in use since. -/
structure Session where
  fs : Fat32
  held : Nat → Nat → Prop

section statement

variable (upper : List UInt8 → List UInt8)

/-- The slot of a directory inode that a search by name finds. -/
def slotNamed (s : Fat32) (dirId : Nat) (name : List UInt8) (a : Nat) : Prop :=
  ∃ dir, s.inodes.get dirId = some dir ∧ dir.isDir = true ∧
    s.findSlot dir.firstCluster (toShortName upper name) = some a

/-- The operation gives `id` for the entry in slot `a`. -/
def Op.gives (s : Fat32) (op : Op) (id a : Nat) : Prop :=
  match op with
  | .create dirId name => (s.create upper dirId name).1 = .ok id ∧
      slotNamed upper (s.create upper dirId name).2 dirId name a
  | .mkdir dirId name => (s.mkdir upper dirId name).1 = .ok id ∧
      slotNamed upper (s.mkdir upper dirId name).2 dirId name a
  | .lookup dirId name => (s.lookup upper dirId name).1 = .ok id ∧
      slotNamed upper s dirId name a
  | .readdir dirId => ∃ dir out, s.inodes.get dirId = some dir ∧
      (s.readdir dirId).1 = .ok out ∧
        (id, a) ∈ (out.map DirEntry.inodeId).zip (s.listedSlots dir.firstCluster)
  | _ => False

/-- The entry in slot `a` is in use. -/
def InUse (s : Fat32) (a : Nat) : Prop := ∃ d, LiveEntry s d a

/-- An operation in a session. -/
def Session.step (t : Session) (op : Op) : Session where
  fs := op.exec upper t.fs
  held id a := (t.held id a ∨ op.gives upper t.fs id a) ∧ InUse (op.exec upper t.fs) a

/-- An inode without a chain, of this kind, is held for the entry in slot `b`. -/
def Session.HoldsZero (t : Session) (k : Bool) (b : Nat) : Prop :=
  ∃ id i, t.held id b ∧ t.fs.inodes.get id = some i ∧ i.isDir = k ∧ i.firstCluster = 0

/-- The condition on a step. -/
def Op.Distinct (t : Session) : Op → Prop
  | .create _ _ => ∀ b, ¬ t.HoldsZero false b
  | .lookup dirId name => ∀ a, slotNamed upper t.fs dirId name a →
      (t.fs.entryAt a).firstCluster = 0 → ∀ b, b ≠ a →
        ¬ t.HoldsZero (t.fs.entryAt a).isDir b
  | .readdir dirId => ∀ dir, t.fs.inodes.get dirId = some dir →
      ∀ a ∈ t.fs.listedSlots dir.firstCluster, (t.fs.entryAt a).firstCluster = 0 →
        ∀ b, b ≠ a → ¬ t.HoldsZero (t.fs.entryAt a).isDir b ∧
          (b ∈ t.fs.listedSlots dir.firstCluster →
            (t.fs.entryAt b).isDir = (t.fs.entryAt a).isDir → (t.fs.entryAt b).firstCluster ≠ 0)
  | _ => True

/-- Runs of safe and distinct operations. -/
def DistinctRun : Session → Session → Prop :=
  Reaches (fun t op t' => t' = t.step upper op)
    fun t op => op.Safe upper t.fs ∧ op.Distinct upper t

end statement

/-- The file behind inode `id` is the same, as far as `size` and `read` tell. -/
def SameFile (s s' : Fat32) (id : Nat) : Prop :=
  s'.size id = s.size id ∧ ∀ offset buf, s'.read id offset buf = s.read id offset buf

/-! ## The invariant -/

namespace Names

variable {v w : Names} {id a : Nat}

/-- The inode `id`, if it is still there, has the kind of the entry in slot
`a`, and its head, unless the entry has none and the inode was written to. -/
def Matches (v : Names) (id a : Nat) : Prop :=
  ∀ d h k f k', v.slot d a h k → v.ino id f k' → k' = k ∧
    (f = h ∨ h = 0 ∧ k = false ∧ f ≠ 0 ∧ ∀ d' a' k'', ¬ v.slot d' a' f k'')

namespace Matches

theorem mono (hw : w.Matches id a) (hslot : ∀ d a' h k, v.slot d a' h k → w.slot d a' h k)
    (hino : ∀ h k, v.ino id h k → w.ino id h k) : v.Matches id a := by
  intro d h k f k' hs hi
  obtain ⟨hk, hor⟩ := hw d h k f k' (hslot _ _ _ _ hs) (hino _ _ hi)
  refine ⟨hk, hor.imp_right ?_⟩
  rintro ⟨h0, hfile, hne, hno⟩
  exact ⟨h0, hfile, hne, fun d' a' k'' hs' => hno d' a' k'' (hslot _ _ _ _ hs')⟩

/-- A new slot does not matter when it names nothing that was named. -/
theorem addSlot (hv : v.Matches id a) {d a' h : Nat} {k : Bool} (hne : a ≠ a')
    (hnew : h ≠ 0 → ∀ k', ¬ v.ino id h k') : (v.addSlot d a' h k).Matches id a := by
  intro d₁ h₁ k₁ f k' hs hi
  rcases hs with hs | ⟨-, heq, -, -⟩
  swap
  · exact absurd heq hne
  obtain ⟨hk, hor⟩ := hv d₁ h₁ k₁ f k' hs hi
  refine ⟨hk, hor.imp_right ?_⟩
  rintro ⟨h0, hfile, hf0, hno⟩
  refine ⟨h0, hfile, hf0, ?_⟩
  rintro d' b k'' (hs' | ⟨-, -, rfl, -⟩)
  · exact hno d' b k'' hs'
  · exact hnew hf0 k' hi

/-- An inode gets a head that nothing names, or gives one up that no slot
names. -/
theorem setIno (hv : v.Matches id a) {id' f f' : Nat} (hold : v.ino id' f false)
    (hnew : f' = f ∨ (f = 0 ∧ ¬ v.heads f') ∨ (f' = 0 ∧ ∀ d b k, ¬ v.slot d b f k)) :
    (v.setIno id' f').Matches id a := by
  intro d h k g k' hs hi
  rcases hi with ⟨hi, -⟩ | ⟨rfl, rfl, rfl⟩
  · exact hv d h k g k' hs hi
  obtain ⟨hk, hor⟩ := hv d h k f false hs hold
  refine ⟨hk, ?_⟩
  rcases hnew with rfl | ⟨hf0, hnot⟩ | ⟨hg0, hno⟩
  · exact hor
  · rcases hor with rfl | ⟨-, -, hne, -⟩
    · by_cases hg0 : g = 0
      · exact Or.inl (hg0.trans hf0.symm)
      · exact Or.inr ⟨hf0, hk.symm, hg0, fun d' b k'' hs' =>
          hnot (Or.inr (Or.inl ⟨d', b, k'', hs'⟩))⟩
    · exact absurd hf0 hne
  · rcases hor with rfl | ⟨h0, -, -, -⟩
    · exact absurd hs (hno d a k)
    · exact Or.inl (hg0.trans h0.symm)

end Matches

end Names

/-- The inode `id` has the key of the entry in slot `a`. -/
def Keyed (s : Fat32) (id a : Nat) : Prop :=
  ∃ i, s.inodes.get id = some i ∧ i.firstCluster = (s.entryAt a).firstCluster ∧
    i.isDir = (s.entryAt a).isDir

namespace Keyed

variable {s : Fat32} {id a : Nat}

theorem matches_self (h : Keyed s id a) : (namesOf s).Matches id a := by
  obtain ⟨i, hi, hh, hk⟩ := h
  rintro d x k f k' ⟨-, -, -, rfl, rfl⟩ ⟨j, hj, rfl, rfl⟩
  rw [hi, Option.some.injEq] at hj
  subst hj
  exact ⟨hk, Or.inl hh⟩

theorem lt (h : Keyed s id a) : id < s.inodes.next := by
  obtain ⟨i, hi, -⟩ := h
  by_contra hge
  rw [s.inodes.fresh id (by omega)] at hi
  cases hi

end Keyed

/-- The invariant of a session. -/
structure Session.Inv (t : Session) : Prop where
  inOrder : InOrder t.fs
  inUse : ∀ {id a}, t.held id a → InUse t.fs a
  old : ∀ {id a}, t.held id a → id < t.fs.inodes.next
  agree : ∀ {id a}, t.held id a → (namesOf t.fs).Matches id a
  unique : ∀ {id a b}, t.held id a → t.held id b → a = b

/-- What an operation has to keep. -/
theorem Session.Inv.step {upper : List UInt8 → List UInt8} {t : Session} (hI : t.Inv) {op : Op}
    {s' : Fat32} (hs' : op.exec upper t.fs = s') (hord : InOrder s')
    (hnext : t.fs.inodes.next ≤ s'.inodes.next)
    (hheld : ∀ id a, t.held id a → InUse s' a → (namesOf s').Matches id a)
    (hgives : ∀ id a, op.gives upper t.fs id a → InUse s' a → Keyed s' id a)
    (hnew : ∀ id a b, op.gives upper t.fs id a → t.held id b → InUse s' a → InUse s' b → a = b)
    (hsame : ∀ id a b, op.gives upper t.fs id a → op.gives upper t.fs id b → InUse s' a →
      InUse s' b → a = b) : (t.step upper op).Inv := by
  subst hs'
  refine ⟨hord, fun h => h.2, fun h => ?_, fun h => ?_, fun h h' => ?_⟩
  · rcases h with ⟨h | h, hu⟩
    · exact lt_of_lt_of_le (hI.old h) hnext
    · exact (hgives _ _ h hu).lt
  · rcases h with ⟨h | h, hu⟩
    · exact hheld _ _ h hu
    · exact (hgives _ _ h hu).matches_self
  · rcases h with ⟨h | h, hu⟩
    · rcases h' with ⟨h' | h', hu'⟩
      · exact hI.unique h h'
      · exact (hnew _ _ _ h' h hu' hu).symm
    · rcases h' with ⟨h' | h', hu'⟩
      · exact hnew _ _ _ h h' hu hu'
      · exact hsame _ _ _ h h' hu hu'

/-- An operation that gives no id. -/
theorem Session.Inv.quiet {upper : List UInt8 → List UInt8} {t : Session} (hI : t.Inv) {op : Op}
    {s' : Fat32} (hs' : op.exec upper t.fs = s') (hord : InOrder s')
    (hnext : t.fs.inodes.next ≤ s'.inodes.next)
    (hheld : ∀ id a, t.held id a → InUse s' a → (namesOf s').Matches id a)
    (hgives : ∀ id a, ¬ op.gives upper t.fs id a) : (t.step upper op).Inv :=
  hI.step hs' hord hnext hheld (fun id a h => absurd h (hgives id a))
    (fun id a _ h => absurd h (hgives id a)) fun id a _ h => absurd h (hgives id a)

/-! ## Steps that give no id -/

section steps

variable {upper : List UInt8 → List UInt8} {t : Session} (hI : t.Inv)

include hI

/-- An operation that changes nothing and gives nothing. -/
theorem Session.Inv.idle {op : Op} (hs' : op.exec upper t.fs = t.fs)
    (hgives : ∀ id a, ¬ op.gives upper t.fs id a) : (t.step upper op).Inv :=
  hI.quiet hs' hI.inOrder (Nat.le_refl _) (fun _ _ h _ => hI.agree h) hgives

/-- An edit of one file, with a head that the file can take. -/
theorem Session.Inv.edit {op : Op} {s' : Fat32} (hs' : op.exec upper t.fs = s') {id f f' : Nat}
    (h : FileEdit (namesOf t.fs) t.fs s' id f f') (hold : (namesOf t.fs).ino id f false)
    (hnew : f' = f ∨ (f = 0 ∧ ¬ (namesOf t.fs).heads f') ∨
      (f' = 0 ∧ ∀ d b k, ¬ (namesOf t.fs).slot d b f k))
    (hgives : ∀ id a, ¬ op.gives upper t.fs id a) : (t.step upper op).Inv := by
  have hle := h.described.covers.le h.described.ok
  refine hI.quiet hs' (h.inOrder hI.inOrder) (Nat.le_of_eq h.next.symm) (fun x a hx _ => ?_)
    hgives
  exact ((hI.agree hx).setIno hold hnew).mono (fun _ _ _ _ => hle.slot) fun _ _ => hle.ino

theorem inv_write (id offset : Nat) (buf : List UInt8) :
    (t.step upper (.write id offset buf)).Inv := by
  cases hi : t.fs.inodes.get id with
  | none => exact hI.idle (by rw [Op.exec, write, hi]) fun _ _ h => h
  | some i =>
    cases hk : i.isDir with
    | true =>
      refine hI.idle ?_ fun _ _ h => h
      rw [Op.exec, write, hi]
      simp only [hk, if_true]
    | false =>
      have hd := hI.inOrder.good.described
      obtain ⟨f', hhead, hedit⟩ := write_described hd hi hk offset buf
      exact hI.edit rfl hedit (hd.ino_self hi hk) (hhead.imp_right Or.inl) fun _ _ h => h

theorem inv_truncate (id size : Nat) (h : Op.Safe upper t.fs (.truncate id size)) :
    (t.step upper (.truncate id size)).Inv := by
  cases hi : t.fs.inodes.get id with
  | none => exact hI.idle (by rw [Op.exec, truncate, hi]) fun _ _ h => h
  | some i =>
    cases hk : i.isDir with
    | true =>
      refine hI.idle ?_ fun _ _ h => h
      rw [Op.exec, truncate, hi]
      simp only [hk, if_true]
    | false =>
      have hd := hI.inOrder.good.described
      obtain ⟨f', hhead, hedit⟩ := truncate_safe hI.inOrder.good hi hk h
      exact hI.edit rfl hedit (hd.ino_self hi hk) (hhead.imp_right Or.inr) fun _ _ h => h

theorem inv_unlink (dirId : Nat) (name : List UInt8) (h : Op.Safe upper t.fs (.unlink dirId name)) :
    (t.step upper (.unlink dirId name)).Inv := by
  have hd := hI.inOrder.good.described
  rcases unlink_described hd hI.inOrder.noSelf dirId name h with
    ⟨e, heq⟩ | ⟨dir, a, s', gone, -, -, -, heq, hun⟩
  · exact hI.idle (by rw [Op.exec, heq]) fun _ _ h => h
  · have hle := hun.described.covers.le hun.described.ok
    refine hI.quiet (show Op.exec upper t.fs _ = s' by rw [Op.exec, heq])
      (hI.inOrder.step hun.described fun _ _ _ _ hslot _ => Or.inl hslot.1)
      (Nat.le_of_eq hun.next.symm) (fun x b hx _ => ?_) fun _ _ h => h
    exact (hI.agree hx).mono (fun _ _ _ _ hs => (hle.slot hs).1) fun _ _ hi => (hle.ino hi).1

/-! ## Steps that give ids -/

/-- An id that was given before is not given for another entry, unless neither
has a chain. -/
theorem Session.Inv.eq_of_keyed {s' : Fat32} (hgrow : InodesGrow t.fs s') {id a b : Nat}
    (hkey : Keyed s' id a) (hheld : t.held id b)
    (hslot : (s'.entryAt a).firstCluster ≠ 0 →
      ∃ d k, (namesOf t.fs).slot d a (s'.entryAt a).firstCluster k)
    (hzero : (s'.entryAt a).firstCluster = 0 → b ≠ a →
      ¬ t.HoldsZero (s'.entryAt a).isDir b) : a = b := by
  obtain ⟨i, hi, hh, hk⟩ := hkey
  rw [hgrow.old id (hI.old hheld)] at hi
  by_cases h0 : (s'.entryAt a).firstCluster = 0
  · by_contra hne
    exact hzero h0 (Ne.symm hne) ⟨id, i, hheld, hi, hk, hh.trans h0⟩
  obtain ⟨d, k, hsa⟩ := hslot h0
  obtain ⟨d', hlive⟩ := hI.inUse hheld
  have hsb := liveEntry_iff.mp hlive
  obtain ⟨-, hor⟩ := hI.agree hheld d' _ _ i.firstCluster i.isDir hsb ⟨i, hi, rfl, rfl⟩
  rw [hh] at hor
  rcases hor with heq | ⟨-, -, -, hno⟩
  · rw [← heq] at hsb
    exact hI.inOrder.good.names.slot_unique hsa hsb h0
  · exact absurd hsa (hno d a k)

/-- A search that leaves the names alone keeps the ids that were given. -/
theorem Session.Inv.agree_of_grow {s' : Fat32} (hgrow : InodesGrow t.fs s')
    (hslot : ∀ d a h k, (namesOf s').slot d a h k → (namesOf t.fs).slot d a h k) {id a : Nat}
    (hheld : t.held id a) : (namesOf s').Matches id a := by
  refine (hI.agree hheld).mono hslot ?_
  rintro h k ⟨i, hi, hh, hk⟩
  rw [hgrow.old id (hI.old hheld)] at hi
  exact ⟨i, hi, hh, hk⟩

theorem inv_lookup (dirId : Nat) (name : List UInt8) (h : Op.Safe upper t.fs (.lookup dirId name))
    (hdist : Op.Distinct upper t (.lookup dirId name)) :
    (t.step upper (.lookup dirId name)).Inv := by
  have hord := inOrder_lookup hI.inOrder dirId name h
  have hgrow := lookup_grow upper t.fs dirId name
  obtain ⟨hgeo, hfat, hdisk⟩ := lookup_frame upper t.fs dirId name
  rcases lookup_described hI.inOrder.good.described upper dirId name h with
    ⟨e, heq⟩ | ⟨dir, a, id, s', w, hdir, hkd, hfind, heq, hw, hd⟩
  · refine hI.idle (by rw [Op.exec, heq]) ?_
    rintro id a ⟨hok, -⟩
    rw [heq] at hok
    cases hok
  rw [heq] at hord hgrow hgeo hfat hdisk
  have hent : ∀ b, s'.entryAt b = t.fs.entryAt b := fun b => by rw [entryAt, entryAt, hdisk]
  have hle := hd.covers.le hd.ok
  have hslot : ∀ d a h k, (namesOf s').slot d a h k → (namesOf t.fs).slot d a h k := by
    intro d b x k hs
    have hs' := hle.slot hs
    rcases hw with rfl | rfl
    · exact hs'
    · exact hs'
  -- what is given is this inode for this slot
  have hgiven : ∀ id' a', Op.gives upper t.fs (.lookup dirId name) id' a' → id' = id ∧ a' = a := by
    rintro id' a' ⟨hok, dir', hdir', -, hfind'⟩
    rw [heq] at hok
    rw [hdir, Option.some.injEq] at hdir'
    subst hdir'
    rw [hfind, Option.some.injEq] at hfind'
    exact ⟨(Except.ok.inj hok).symm, hfind'.symm⟩
  have hkeyed : Keyed s' id a := by
    obtain ⟨i, hi, hh, hk⟩ := (hd.covers.ino id _ _).mp (Or.inr ⟨rfl, rfl, rfl⟩)
    exact ⟨i, hi, by rw [hent, hh], by rw [hent, hk]⟩
  refine hI.step (show Op.exec upper t.fs _ = s' by rw [Op.exec, heq]) hord hgrow.next
    (fun x b hx _ => hI.agree_of_grow hgrow hslot hx) ?_ ?_ ?_
  · intro id' a' hg _
    obtain ⟨rfl, rfl⟩ := hgiven id' a' hg
    exact hkeyed
  · intro id' a' b hg hx hu _
    obtain ⟨rfl, rfl⟩ := hgiven id' a' hg
    refine hI.eq_of_keyed hgrow hkeyed hx (fun _ => ?_) fun h0 hne => ?_
    · obtain ⟨d, hlive⟩ := hu
      exact ⟨d, _, hslot _ _ _ _ (liveEntry_iff.mp hlive)⟩
    · rw [hent] at h0 ⊢
      exact hdist a' ⟨dir, hdir, hkd, hfind⟩ h0 b hne
  · intro id' a' b hg hg' _ _
    rw [(hgiven id' a' hg).2, (hgiven id' b hg').2]

theorem inv_readdir (dirId : Nat) (hdist : Op.Distinct upper t (.readdir dirId)) :
    (t.step upper (.readdir dirId)).Inv := by
  have hord := inOrder_readdir hI.inOrder dirId
  have hgrow := readdir_grow t.fs dirId
  obtain ⟨hgeo, hfat, hdisk⟩ := readdir_frame t.fs dirId
  rcases readdir_described hI.inOrder.good.described dirId with
    ⟨e, heq⟩ | ⟨dir, out, s', w, hdir, -, heq, hd, hmore, hids⟩
  · refine hI.idle (by rw [Op.exec, heq]) ?_
    rintro id a ⟨dir, out, -, hok, -⟩
    rw [heq] at hok
    cases hok
  rw [heq] at hord hgrow hgeo hfat hdisk
  have hent : ∀ b, s'.entryAt b = t.fs.entryAt b := fun b => by rw [entryAt, entryAt, hdisk]
  have hle := hd.covers.le hd.ok
  have hslot : ∀ d a h k, (namesOf s').slot d a h k → (namesOf t.fs).slot d a h k :=
    fun d b x k hs => hmore.slot ▸ hle.slot hs
  have hgiven : ∀ id a, Op.gives upper t.fs (.readdir dirId) id a →
      Keyed s' id a ∧ a ∈ t.fs.listedSlots dir.firstCluster := by
    rintro id a ⟨dir', out', hdir', hok, hmem⟩
    rw [heq] at hok
    obtain rfl := Except.ok.inj hok
    rw [hdir, Option.some.injEq] at hdir'
    subst hdir'
    obtain ⟨i, hi, hh, hk⟩ := (hd.covers.ino id _ _).mp (hids _ hmem)
    exact ⟨⟨i, hi, by rw [hent, hh], by rw [hent, hk]⟩, (List.of_mem_zip hmem).2⟩
  refine hI.step (show Op.exec upper t.fs _ = s' by rw [Op.exec, heq]) hord hgrow.next
    (fun x b hx _ => hI.agree_of_grow hgrow hslot hx) (fun id a hg _ => (hgiven id a hg).1) ?_ ?_
  · intro id a b hg hx hu _
    obtain ⟨hkeyed, hlist⟩ := hgiven id a hg
    refine hI.eq_of_keyed hgrow hkeyed hx (fun _ => ?_) fun h0 hne => ?_
    · obtain ⟨d, hlive⟩ := hu
      exact ⟨d, _, hslot _ _ _ _ (liveEntry_iff.mp hlive)⟩
    · rw [hent] at h0 ⊢
      exact (hdist dir hdir a hlist h0 b hne).1
  · intro id a b hg hg' hu hu'
    obtain ⟨⟨i, hi, hh, hk⟩, hlist⟩ := hgiven id a hg
    obtain ⟨⟨i', hi', hh', hk'⟩, hlist'⟩ := hgiven id b hg'
    rw [hi, Option.some.injEq] at hi'
    subst hi'
    by_contra hne
    by_cases h0 : (t.fs.entryAt a).firstCluster = 0
    · refine (hdist dir hdir a hlist h0 b (Ne.symm hne)).2 hlist' ?_ ?_
      · rw [← hent, ← hent, ← hk, ← hk']
      · rw [← h0, ← hent, ← hent, ← hh, ← hh']
    · obtain ⟨d, hlive⟩ := hu
      obtain ⟨d', hlive'⟩ := hu'
      have hs := hslot _ _ _ _ (liveEntry_iff.mp hlive)
      have hs' := hslot _ _ _ _ (liveEntry_iff.mp hlive')
      rw [← hh'] at hs'
      rw [← hh] at hs
      refine hne (hI.inOrder.good.names.slot_unique hs hs' ?_)
      rw [hh, hent]
      exact h0

omit hI in
/-- The only entry of a new name is the one that was written. -/
theorem Entered.eq_of_named {H : Nat → Prop} {s s' : Fat32} {d a : Nat} {e : RawDirEntry}
    (h : Entered H s s' d a e) {short : List UInt8}
    (hnone : ∀ b ∈ s.slotAddrs d, (s.entryAt b).isLive = true → (s.entryAt b).name ≠ short)
    {b : Nat} (hfind : s'.findSlot d short = some b) : b = a := by
  obtain ⟨hb, hlive, hname⟩ := findSlot_spec hfind
  by_contra hne
  rcases h.slot b hb with heq | hold | hfree
  · exact hne heq
  · rw [(h.kept b hold).2 hne] at hlive hname
    exact hnone b hold hlive hname
  · simp [RawDirEntry.isLive, hfree] at hlive

omit hI in
/-- The new entry is found by its name. -/
theorem Entered.findSlot {H : Nat → Prop} {s s' : Fat32} {d a : Nat} {e : RawDirEntry}
    (h : Entered H s s' d a e)
    (hnone : ∀ b ∈ s.slotAddrs d, (s.entryAt b).isLive = true → (s.entryAt b).name ≠ e.name)
    (hlive : e.isLive = true) : s'.findSlot d e.name = some a := by
  cases hf : s'.findSlot d e.name with
  | none =>
    have hmiss := List.find?_eq_none.mp hf a h.mem
    simp only [RawDirEntry.isLive, Bool.and_eq_true, Bool.not_eq_true'] at hlive
    simp [h.entry, hlive.1, hlive.2] at hmiss
  | some b => rw [h.eq_of_named hnone hf]

omit hI in
theorem findSlot_internInode (s : Fat32) (h n : Nat) (k : Bool) (d : Nat) (short : List UInt8) :
    (s.internInode h n k).2.findSlot d short = s.findSlot d short := by
  rw [findSlot, findSlot, slotAddrs, slotAddrs, clusterChain_def, clusterChain_def,
    internInode_geo, internInode_fatCache]
  simp only [entryAt, internInode_disk]

omit hI in
/-- What is given by name is the inode that was interned last, for the entry
that was written. -/
theorem keyed_of_entered {H : Nat → Prop} {s₁ s₂ : Fat32} {dirId : Nat} {dir : FatInode}
    {a : Nat} {e : RawDirEntry} (hent : Entered H s₁ s₂ dir.firstCluster a e)
    {name : List UInt8} (hnone : ∀ b ∈ s₁.slotAddrs dir.firstCluster,
      (s₁.entryAt b).isLive = true → (s₁.entryAt b).name ≠ toShortName upper name)
    (hdir : s₂.inodes.get dirId = some dir) {h : Nat} {k : Bool} (hh : e.firstCluster = h)
    (hk : e.isDir = k) {b : Nat}
    (hnamed : slotNamed upper (s₂.internInode h 0 k).2 dirId name b) :
    b = a ∧ Keyed (s₂.internInode h 0 k).2 (s₂.internInode h 0 k).1 a := by
  obtain ⟨dir', hdir', -, hfind⟩ := hnamed
  rw [internInode_get_of_some hdir, Option.some.injEq] at hdir'
  subst hdir'
  rw [findSlot_internInode] at hfind
  obtain ⟨i, hi, hih, hik⟩ := internInode_get s₂ h 0 k
  have hentry : (s₂.internInode h 0 k).2.entryAt a = e := by
    rw [entryAt, internInode_disk]
    exact hent.entry
  exact ⟨hent.eq_of_named hnone hfind, i, hi, by rw [hentry, hih, hh], by rw [hentry, hik, hk]⟩

theorem inv_create (dirId : Nat) (name : List UInt8)
    (hdist : Op.Distinct upper t (.create dirId name)) :
    (t.step upper (.create dirId name)).Inv := by
  have hord : InOrder (t.fs.create upper dirId name).2 := inOrder_create hI.inOrder dirId name
  have hgood := hI.inOrder.good.described
  cases hdir : t.fs.inodes.get dirId with
  | none =>
    have heq : t.fs.create upper dirId name = (.error "inode not found", t.fs) := by
      rw [create, hdir]
    refine hI.idle (by rw [Op.exec, heq]) ?_
    rintro id a ⟨hok, -⟩
    rw [heq] at hok
    cases hok
  | some dir =>
    rcases create_described hgood hdir name with
      ⟨e, s', heq, hd, hino, -⟩ | ⟨a, s₁, hkd, hnone, hent, -, heq, hd⟩
    · -- a failed `create` may lose a cluster
      rw [heq] at hord
      have hle := hd.covers.le hd.ok
      refine hI.quiet (show Op.exec upper t.fs _ = s' by rw [Op.exec, heq]) hord (by rw [hino])
        (fun x b hx _ => (hI.agree hx).mono (fun _ _ _ _ => hle.slot) fun _ _ => hle.ino) ?_
      rintro id a ⟨hok, -⟩
      rw [heq] at hok
      cases hok
    rw [heq] at hord
    have hgrow : InodesGrow t.fs (s₁.internInode 0 0 false).2 :=
      (InodesGrow.of_eq hent.inodes).trans (internInode_grow s₁ 0 0 false)
    have hle := hd.covers.le hd.ok
    rw [readDirRaw_eq hgood.sound] at hnone
    have hgiven : ∀ id' a', Op.gives upper t.fs (.create dirId name) id' a' →
        a' = a ∧ Keyed (s₁.internInode 0 0 false).2 id' a := by
      rintro id' a' ⟨hok, hnamed⟩
      rw [heq] at hok hnamed
      obtain rfl := Except.ok.inj hok
      exact keyed_of_entered hent (fun b hb hlive => findEntry_eq_none hnone hb hlive)
        (hent.inodes ▸ hdir) (RawDirEntry.firstCluster_new (by decide))
        (newFileEntry_isDir upper name) hnamed
    have hentry : (s₁.internInode 0 0 false).2.entryAt a = newFileEntry upper name := by
      rw [entryAt, internInode_disk]
      exact hent.entry
    refine hI.step (show Op.exec upper t.fs _ = (s₁.internInode 0 0 false).2 by rw [Op.exec, heq]) hord hgrow.next
      ?_ ?_ ?_ ?_
    · intro x b hx _
      obtain ⟨d', hd', hb, he⟩ := hI.inUse hx
      have hba : b ≠ a := by
        rintro rfl
        have hfree := hent.wasFree d' (Or.inl hd') hb
        simp [RawDirEntry.isEntry, hfree] at he
      refine ((hI.agree hx).addSlot hba fun h => absurd rfl h).mono
        (fun _ _ _ _ hs => hle.slot hs) ?_
      rintro h k ⟨i, hi, hh, hk⟩
      rw [hgrow.old x (hI.old hx)] at hi
      exact ⟨i, hi, hh, hk⟩
    · intro id' a' hg _
      obtain ⟨rfl, hkey⟩ := hgiven id' a' hg
      exact hkey
    · intro id' a' b hg hx _ _
      obtain ⟨rfl, hkey⟩ := hgiven id' a' hg
      have h0 : ((s₁.internInode 0 0 false).2.entryAt a').firstCluster = 0 := by
        rw [hentry]
        exact RawDirEntry.firstCluster_new (by decide)
      refine hI.eq_of_keyed hgrow hkey hx (fun h => absurd h0 h) fun _ _ => ?_
      rw [hentry, newFileEntry_isDir]
      exact hdist b
    · intro id' a' b hg hg' _ _
      rw [(hgiven id' a' hg).1, (hgiven id' b hg').1]

theorem inv_mkdir (dirId : Nat) (name : List UInt8) :
    (t.step upper (.mkdir dirId name)).Inv := by
  have hord : InOrder (t.fs.mkdir upper dirId name).2 := inOrder_mkdir hI.inOrder dirId name
  have hgood := hI.inOrder.good.described
  cases hdir : t.fs.inodes.get dirId with
  | none =>
    have heq : t.fs.mkdir upper dirId name = (.error "inode not found", t.fs) := by
      rw [mkdir, hdir]
    refine hI.idle (by rw [Op.exec, heq]) ?_
    rintro id a ⟨hok, -⟩
    rw [heq] at hok
    cases hok
  | some dir =>
    rcases mkdir_described hgood hdir name with
      ⟨e, s', heq, hd, hino, -⟩ | ⟨c, a, s₁, s₂, hkd, hnone, hc, hc0, hkept, hino, hmade, hent,
        heq, hd⟩
    · rw [heq] at hord
      have hle := hd.covers.le hd.ok
      refine hI.quiet (show Op.exec upper t.fs _ = s' by rw [Op.exec, heq]) hord (by rw [hino])
        (fun x b hx _ => (hI.agree hx).mono (fun _ _ _ _ => hle.slot) fun _ _ => hle.ino) ?_
      rintro id a ⟨hok, -⟩
      rw [heq] at hok
      cases hok
    rw [heq] at hord
    have hgrow : InodesGrow t.fs (s₂.internInode c 0 true).2 :=
      (InodesGrow.of_eq (hent.inodes.trans hino)).trans (internInode_grow s₂ c 0 true)
    have hle := hd.covers.le hd.ok
    have hdself : IsDir t.fs dir.firstCluster := hgood.dir_self hdir hkd
    rw [readDirRaw_eq hgood.sound] at hnone
    have hnone₁ : ∀ b ∈ s₁.slotAddrs dir.firstCluster, (s₁.entryAt b).isLive = true →
        (s₁.entryAt b).name ≠ toShortName upper name := by
      intro b hb hlive
      rw [hkept.slotAddrs hdself] at hb
      have hkey := hkept.slot _ b hdself hb
      rw [RawDirEntry.isLive, hkey.isFree, hkey.isLfn] at hlive
      rw [hkey.name]
      exact findEntry_eq_none hnone hb hlive
    have hclt : c < 2 ^ 32 := by
      rcases hmade.chains.valid c (Or.inl (Or.inr rfl)) with h0 | hv
      · exact absurd h0 hc0
      · exact Geometry.validCluster_lt hv
    have hcluster : (newDirEntry upper name c).firstCluster = c :=
      RawDirEntry.firstCluster_new hclt
    have hgiven : ∀ id' a', Op.gives upper t.fs (.mkdir dirId name) id' a' →
        a' = a ∧ Keyed (s₂.internInode c 0 true).2 id' a := by
      rintro id' a' ⟨hok, hnamed⟩
      rw [heq] at hok hnamed
      obtain rfl := Except.ok.inj hok
      exact keyed_of_entered hent hnone₁ (hent.inodes ▸ hino ▸ hdir) hcluster
        (newDirEntry_isDir upper name c) hnamed
    have hentry : (s₂.internInode c 0 true).2.entryAt a = newDirEntry upper name c := by
      rw [entryAt, internInode_disk]
      exact hent.entry
    refine hI.step (show Op.exec upper t.fs _ = (s₂.internInode c 0 true).2 by rw [Op.exec, heq]) hord hgrow.next
      ?_ ?_ ?_ ?_
    · intro x b hx _
      obtain ⟨d', hd', hb, he⟩ := hI.inUse hx
      have hba : b ≠ a := by
        rintro rfl
        have hb₁ : b ∈ s₁.slotAddrs d' := hkept.slotAddrs hd' ▸ hb
        have hfree := hent.wasFree d' (Or.inl (Or.inl hd')) hb₁
        rw [(hkept.slot d' b hd' hb).isFree] at hfree
        simp [RawDirEntry.isEntry, hfree] at he
      refine ((hI.agree hx).addSlot (d := dir.firstCluster) (k := true) hba
        fun _ k' hi => hc (Or.inr (Or.inr ⟨x, k', hi⟩))).mono (fun _ _ _ _ hs => hle.slot hs) ?_
      rintro h k ⟨i, hi, hh, hk⟩
      rw [hgrow.old x (hI.old hx)] at hi
      exact ⟨i, hi, hh, hk⟩
    · intro id' a' hg _
      obtain ⟨rfl, hkey⟩ := hgiven id' a' hg
      exact hkey
    · -- no inode had the new cluster
      intro id' a' b hg hx _ _
      obtain ⟨rfl, i, hi, hh, -⟩ := hgiven id' a' hg
      rw [hgrow.old id' (hI.old hx)] at hi
      rw [hentry, hcluster] at hh
      exact absurd (hh ▸ heads_of_inode hi) hc
    · intro id' a' b hg hg' _ _
      rw [(hgiven id' a' hg).1, (hgiven id' b hg').1]

/-- Every safe and distinct step keeps the invariant. -/
theorem inv_step (op : Op) (hsafe : op.Safe upper t.fs) (hdist : op.Distinct upper t) :
    (t.step upper op).Inv := by
  cases op with
  | create dirId name => exact inv_create hI dirId name hdist
  | mkdir dirId name => exact inv_mkdir hI dirId name
  | lookup dirId name => exact inv_lookup hI dirId name hsafe hdist
  | readdir dirId => exact inv_readdir hI dirId hdist
  | write id offset buf => exact inv_write hI id offset buf
  | truncate id size => exact inv_truncate hI id size hsafe
  | unlink dirId name => exact inv_unlink hI dirId name hsafe

/-! ## What the ids are good for -/

/-- Writing to one file is not seen through the id of another. -/
theorem Session.Inv.sameFile_write {id id' a a' : Nat} (h : t.held id a) (h' : t.held id' a')
    (hne : a ≠ a') (offset : Nat) (buf : List UInt8) :
    SameFile t.fs (t.fs.write id offset buf).2 id' := by
  have hid : id ≠ id' := by
    rintro rfl
    exact hne (hI.unique h h')
  have hg := hI.inOrder.good
  cases hi : t.fs.inodes.get id with
  | none =>
    rw [write, hi]
    exact ⟨rfl, fun _ _ => rfl⟩
  | some i =>
    cases hk : i.isDir with
    | true =>
      rw [write, hi]
      simp only [hk, if_true]
      exact ⟨rfl, fun _ _ => rfl⟩
    | false =>
      obtain ⟨f', -, hedit⟩ := write_described hg.described hi hk offset buf
      have hget := hedit.inode_of_ne id' (Ne.symm hid)
      refine ⟨by rw [size, size, hget], fun off b => ?_⟩
      cases hi' : t.fs.inodes.get id' with
      | none => rw [read, read, hget, hi']
      | some i' =>
        cases hk' : i'.isDir with
        | true => simp [read, hget, hi', hk']
        | false =>
          refine read_congr hg.sound hedit.described.sound hedit.kept.geo hget ?_ off b
          intro j hj
          rw [hi', Option.some.injEq] at hj
          subst hj
          by_cases hf : i'.firstCluster = i.firstCluster
          · -- two inodes have one head only when it is none
            have h0 : i'.firstCluster = 0 := by
              by_contra h0
              exact hid (hg.names.ino_unique ⟨i, hi, hf.symm, rfl⟩ ⟨i', hi', rfl, rfl⟩ h0)
            rw [h0, clusterChain_def, clusterChain_def, chainOf_zero, chainOf_zero]
            exact ⟨rfl, fun c hc => absurd hc List.not_mem_nil⟩
          · refine ⟨hedit.chain _ (heads_of_inode hi') hf, ?_⟩
            by_cases h0 : i'.firstCluster = 0
            · intro c hc
              rw [h0, clusterChain_def, chainOf_zero] at hc
              exact absurd hc List.not_mem_nil
            · exact hedit.bytes _ (heads_of_inode hi') hf
                (hg.names.ino_file ⟨i', hi', rfl, hk'⟩ h0)

end steps

/-- Interning a key again gives the same id. -/
theorem internInode_again {s s' : Fat32} {h n : Nat} {k : Bool}
    (hino : s'.inodes = (s.internInode h n k).2.inodes) (n' : Nat) :
    (s'.internInode h n' k).1 = (s.internInode h n k).1 := by
  have hfind : s'.inodes.find? h k = some (s.internInode h n k).1 := by
    rw [hino]
    cases hf : s.inodes.find? h k with
    | some id =>
      rw [internInode, hf]
      exact hf
    | none =>
      rw [internInode, hf]
      simp only
      rw [InodeTable.find?, InodeTable.insert]
      simp only
      rw [List.range_succ, List.find?_append, List.find?_eq_none.mpr]
      · simp
      · intro id hid
        have hlt := List.mem_range.mp hid
        rw [if_neg (Nat.ne_of_lt hlt)]
        exact List.find?_eq_none.mp hf id hid
  rw [internInode, hfind]

/-- Two files created one after the other get one id. -/
theorem create_create_id {upper : List UInt8 → List UInt8} {s s₁ s₂ : Fat32} (hg : Good s)
    {dirId dirId' id id' : Nat} {name name' : List UInt8}
    (h : s.create upper dirId name = (.ok id, s₁))
    (h' : s₁.create upper dirId' name' = (.ok id', s₂)) : id' = id := by
  cases hdir : s.inodes.get dirId with
  | none =>
    rw [create, hdir] at h
    cases h
  | some dir =>
    rcases create_described hg.described hdir name with
      ⟨e, s', heq, -⟩ | ⟨a, s', -, -, hent, -, heq, hd⟩
    · rw [heq] at h
      cases h
    rw [heq] at h
    obtain ⟨hid, rfl⟩ := Prod.mk.inj h
    obtain rfl := Except.ok.inj hid
    cases hdir' : (s'.internInode 0 0 false).2.inodes.get dirId' with
    | none =>
      rw [create, hdir'] at h'
      cases h'
    | some dir' =>
      rcases create_described hd.good.described hdir' name' with
        ⟨e, s'', heq', -⟩ | ⟨b, s'', -, -, hent', -, heq', -⟩
      · rw [heq'] at h'
        cases h'
      rw [heq'] at h'
      obtain ⟨hid', -⟩ := Prod.mk.inj h'
      obtain rfl := Except.ok.inj hid'
      exact internInode_again hent'.inodes 0

theorem emptyMount_clean :
    CleanMount smallGeometry (flatDisk smallGeometry rootFat []) emptyMount :=
  CleanMount.of_good flat_empty.mount_eq (flat_empty.good_mount rootFat_lt) flat_empty.root_valid

/-- A session on the empty volume: file `A` is made and written. -/
def writtenSession : Session :=
  ((Session.mk emptyMount fun _ _ => False).step (fun x => x) (.create 1 [0x41])).step
    (fun x => x) (.write 2 0 [1])

end AeroOS.Fat32
