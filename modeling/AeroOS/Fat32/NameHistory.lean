import AeroOS.Fat32.EntryEffects
import AeroOS.Fat32.NewEntries

/-!
# FAT32: which names a directory answers

A directory that was empty, after any run of `create`, `mkdir` and `unlink` calls on
it.  `DirOp.step` runs one call and records the names that were made and not removed
since; a name is taken off the record with the other names of its short name.

* `Recorded` is the invariant: a used slot with an ordinary name has the short name of
  a recorded name, and no other slot has it.  `Recorded.step` and `Recorded.run` keep
  it, in any state: a call can free the directory's own chain, or run in a cycle.
* `answered_of_created`: a name that `lookup` or `unlink` answers has the short name
  of a recorded one, or of `.` or `..`.
* `answers_long_name`: names behind the eighth letter are not told apart.
-/

namespace AeroOS.Fat32

open Build

/-- A call on the directory. -/
inductive DirOp where
  | create (name : List UInt8)
  | mkdir (name : List UInt8)
  | unlink (name : List UInt8)

/-- The state, and the names made in the directory and not removed since. -/
structure History where
  fs : Fat32
  names : List (List UInt8)

/-- The record after a call that made `name`, if it succeeded. -/
def History.made (h : History) (name : List UInt8) : Except String Nat × Fat32 → History
  | (.ok _, s) => ⟨s, name :: h.names⟩
  | (.error _, s) => ⟨s, h.names⟩

section history

variable (upper : List UInt8 → List UInt8)

/-- The record after a call that removed `name`, if it succeeded. -/
def History.removed (h : History) (name : List UInt8) : Except String Unit × Fat32 → History
  | (.ok (), s) => ⟨s, h.names.filter fun n => toShortName upper n != toShortName upper name⟩
  | (.error _, s) => ⟨s, h.names⟩

/-- One call on the directory of inode `dirId`. -/
def DirOp.step (dirId : Nat) (h : History) : DirOp → History
  | .create name => h.made name (h.fs.create upper dirId name)
  | .mkdir name => h.made name (h.fs.mkdir upper dirId name)
  | .unlink name => h.removed upper name (h.fs.unlink upper dirId name)

/-- Calls one after another, from a directory in which nothing was made. -/
def History.run (s : Fat32) (dirId : Nat) (ops : List DirOp) : History :=
  ops.foldl (DirOp.step upper dirId) ⟨s, []⟩

/-- A directory with nothing but free slots, `.` and `..`. -/
def EmptyDir (s : Fat32) (d : Nat) : Prop :=
  ∀ a ∈ s.slotAddrs d, (s.entryAt a).isFree = false → IsDots (s.entryAt a).name

/-- A used slot with an ordinary name. -/
structure NamedSlot (s : Fat32) (d a : Nat) : Prop where
  mem : a ∈ s.slotAddrs d
  used : (s.entryAt a).isFree = false
  ordinary : ¬ IsDots (s.entryAt a).name

/-- The names of the directory `d` of inode `dirId` are on record, each with one slot. -/
structure Recorded (dirId d : Nat) (h : History) : Prop where
  sound : Sound h.fs
  inode : ∀ i, h.fs.inodes.get dirId = some i → i.firstCluster = d
  plain : ∀ a, NamedSlot h.fs d a → (h.fs.entryAt a).isLfn = false
  named : ∀ a, NamedSlot h.fs d a →
    ∃ n ∈ h.names, toShortName upper n = (h.fs.entryAt a).name
  unique : ∀ a b, NamedSlot h.fs d a → NamedSlot h.fs d b →
    (h.fs.entryAt a).name = (h.fs.entryAt b).name → a = b

end history

section step

variable {upper : List UInt8 → List UInt8} {dirId d a : Nat} {h : History} {s t : Fat32}
  {name : List UInt8}

/-- An ordinary slot after a step that kept the directory was there before it. -/
theorem NamedSlot.of_keeps {new : Option Nat} (hn : NamedSlot t d a) (hk : Keeps s t d new)
    (hne : some a ≠ new) : NamedSlot s d a ∧ t.entryAt a = s.entryAt a := by
  obtain ⟨hmem, heq⟩ := hk a hn.mem hne hn.used hn.ordinary
  exact ⟨⟨hmem, heq ▸ hn.used, heq ▸ hn.ordinary⟩, heq⟩

theorem NamedSlot.live (hn : NamedSlot s d a) (hplain : (s.entryAt a).isLfn = false) :
    (s.entryAt a).isLive = true := by
  rw [RawDirEntry.isLive, hn.used, hplain]
  rfl

/-- A step that enters nothing keeps the record, and a smaller one that still has the
names of the slots that are left. -/
theorem Recorded.none (hr : Recorded upper dirId d h) (he : EntersNone h.fs t dirId d)
    {names : List (List UInt8)} (hleft : ∀ a n, NamedSlot t d a → n ∈ h.names →
      toShortName upper n = (t.entryAt a).name → n ∈ names) :
    Recorded upper dirId d ⟨t, names⟩ := by
  have hback : ∀ a, NamedSlot t d a → NamedSlot h.fs d a ∧ t.entryAt a = h.fs.entryAt a :=
    fun a hn => hn.of_keeps he.keeps (by simp)
  refine ⟨he.sound, fun i hi => hr.inode i (he.inode i hi), fun a hn => ?_, fun a hn => ?_,
    fun a b ha hb hname => ?_⟩
  · obtain ⟨hn', heq⟩ := hback a hn
    rw [heq]
    exact hr.plain a hn'
  · obtain ⟨hn', heq⟩ := hback a hn
    obtain ⟨n, hmem, hshort⟩ := hr.named a hn'
    rw [← heq] at hshort
    exact ⟨n, hleft a n hn hmem hshort, hshort⟩
  · obtain ⟨ha', heqa⟩ := hback a ha
    obtain ⟨hb', heqb⟩ := hback b hb
    rw [heqa, heqb] at hname
    exact hr.unique a b ha' hb' hname

/-- A new slot under a new name goes on record. -/
theorem Recorded.one (hr : Recorded upper dirId d h)
    (he : EntersOne h.fs t dirId d a (toShortName upper name)) :
    Recorded upper dirId d ⟨t, name :: h.names⟩ := by
  have hback : ∀ b, NamedSlot t d b → b ≠ a → NamedSlot h.fs d b ∧ t.entryAt b = h.fs.entryAt b :=
    fun b hn hne => hn.of_keeps he.keeps fun heq => hne (Option.some.inj heq)
  -- The search before the entry was made found no other slot of this name.
  have hother : ∀ b, NamedSlot t d b → b ≠ a → (t.entryAt b).name ≠ toShortName upper name := by
    intro b hn hne
    obtain ⟨hn', heq⟩ := hback b hn hne
    rw [heq]
    exact he.new b hn'.mem (hn'.live (hr.plain b hn'))
  refine ⟨he.sound, fun i hi => hr.inode i (he.inode i hi), fun b hn => ?_, fun b hn => ?_,
    fun b c hb hc hname => ?_⟩
  · by_cases hba : b = a
    · rw [hba]
      exact he.plain
    · obtain ⟨hn', heq⟩ := hback b hn hba
      rw [heq]
      exact hr.plain b hn'
  · by_cases hba : b = a
    · exact ⟨name, List.mem_cons_self, by rw [hba]; exact he.name.symm⟩
    · obtain ⟨hn', heq⟩ := hback b hn hba
      obtain ⟨n, hmem, hshort⟩ := hr.named b hn'
      exact ⟨n, List.mem_cons_of_mem name hmem, by rw [heq]; exact hshort⟩
  · by_cases hba : b = a
    · by_contra hbc
      have hca : c ≠ a := fun hca => hbc (hba.trans hca.symm)
      rw [hba, he.name] at hname
      exact hother c hc hca hname.symm
    · by_cases hca : c = a
      · rw [hca, he.name] at hname
        exact absurd hname (hother b hb hba)
      · obtain ⟨hb', heqb⟩ := hback b hb hba
        obtain ⟨hc', heqc⟩ := hback c hc hca
        rw [heqb, heqc] at hname
        exact hr.unique b c hb' hc' hname

theorem Recorded.step (hr : Recorded upper dirId d h) (op : DirOp) :
    Recorded upper dirId d (op.step upper dirId h) := by
  cases op with
  | create name =>
    rcases @create_enters upper h.fs d hr.sound dirId name hr.inode with
      ⟨err, t, heq, hnone⟩ | ⟨id, t, a, heq, hone⟩
    · rw [DirOp.step, heq]
      exact hr.none hnone fun _ _ _ hmem _ => hmem
    · rw [DirOp.step, heq]
      exact hr.one hone
  | mkdir name =>
    rcases @mkdir_enters upper h.fs d hr.sound dirId name hr.inode with
      ⟨err, t, heq, hnone⟩ | ⟨id, t, a, heq, hone⟩
    · rw [DirOp.step, heq]
      exact hr.none hnone fun _ _ _ hmem _ => hmem
    · rw [DirOp.step, heq]
      exact hr.one hone
  | unlink name =>
    obtain ⟨hnone, herased⟩ := @unlink_enters upper h.fs d hr.sound dirId name hr.inode
    rw [DirOp.step]
    cases heq : h.fs.unlink upper dirId name with
    | mk r t =>
      rw [heq] at hnone herased
      cases r with
      | error err => exact hr.none hnone fun _ _ _ hmem _ => hmem
      | ok _ =>
        refine hr.none hnone fun b n hb hmem hshort => List.mem_filter.mpr ⟨hmem, ?_⟩
        -- The one slot of the removed name is free now.
        obtain ⟨a, ha, hused, hname, hfree⟩ := herased rfl
        obtain ⟨hb', heqb⟩ := hb.of_keeps hnone.keeps (by simp)
        rw [bne_iff_ne]
        intro hsame
        have hdots : ¬ IsDots (h.fs.entryAt a).name := by
          rw [hname, ← hsame, hshort, heqb]
          exact hb'.ordinary
        have hba : b = a := hr.unique b a hb' ⟨ha, hused, hdots⟩ (by
          rw [hname, ← hsame, hshort, heqb])
        have hused' := hb.used
        rw [hba, hfree] at hused'
        cases hused'

theorem Recorded.run {ops : List DirOp} (hr : Recorded upper dirId d h) :
    Recorded upper dirId d (ops.foldl (DirOp.step upper dirId) h) := by
  induction ops generalizing h with
  | nil => exact hr
  | cons op ops ih => exact ih (hr.step op)

theorem recorded_of_empty (hs : Sound s) {dir : FatInode} (hdir : s.inodes.get dirId = some dir)
    (hempty : EmptyDir s dir.firstCluster) : Recorded upper dirId dir.firstCluster ⟨s, []⟩ := by
  have hno : ∀ a, ¬ NamedSlot s dir.firstCluster a := fun a hn =>
    hn.ordinary (hempty a hn.mem hn.used)
  refine ⟨hs, fun i hi => ?_, fun a hn => absurd hn (hno a), fun a hn => absurd hn (hno a),
    fun a _ hn => absurd hn (hno a)⟩
  rw [Option.some.inj (hdir.symm.trans hi)]

/-- A name that the search finds is on record, unless it is `.` or `..`. -/
theorem Recorded.found (hr : Recorded upper dirId d h) {dir : FatInode}
    (hdir : h.fs.inodes.get dirId = some dir)
    (hfind : h.fs.findSlot dir.firstCluster (toShortName upper name) = some a)
    (hdots : ¬ IsDots (toShortName upper name)) :
    ∃ n ∈ h.names, toShortName upper n = toShortName upper name := by
  obtain ⟨hmem, hlive, hname⟩ := findSlot_spec hfind
  obtain rfl := hr.inode dir hdir
  simp only [RawDirEntry.isLive, Bool.and_eq_true, Bool.not_eq_true'] at hlive
  rw [← hname] at hdots ⊢
  exact hr.named a ⟨hmem, hlive.1, hdots⟩

theorem lookup_of_ok (hs : Sound s) {id : Nat} (hok : (s.lookup upper dirId name).1 = .ok id) :
    ∃ dir a, s.inodes.get dirId = some dir ∧
      s.findSlot dir.firstCluster (toShortName upper name) = some a := by
  rw [lookup] at hok
  cases hdir : s.inodes.get dirId with
  | none =>
    rw [hdir] at hok
    cases hok
  | some dir =>
    simp only [hdir] at hok
    split at hok
    · cases hok
    rw [findEntry_eq hs] at hok
    cases hfind : s.findSlot dir.firstCluster (toShortName upper name) with
    | none =>
      rw [hfind] at hok
      cases hok
    | some a => exact ⟨dir, a, rfl, hfind⟩

end step

/-- The name is answered: `lookup` or `unlink` succeeds. -/
def Answered (upper : List UInt8 → List UInt8) (s : Fat32) (dirId : Nat) (name : List UInt8) :
    Prop :=
  (∃ id, (s.lookup upper dirId name).1 = .ok id) ∨ (s.unlink upper dirId name).1 = .ok ()

/-- After any calls on an empty directory, a name that is answered has the short name
of `.` or `..`, or that of a name that was made and not removed since.  Two such names
of the 8.3 shape differ in case alone. -/
theorem answered_of_created {upper : List UInt8 → List UInt8} (hup : UpperAscii upper)
    {s : Fat32} (hs : Sound s) {dirId : Nat} {dir : FatInode}
    (hdir : s.inodes.get dirId = some dir) (hempty : EmptyDir s dir.firstCluster)
    (ops : List DirOp) (name : List UInt8)
    (hans : Answered upper (History.run upper s dirId ops).fs dirId name) :
    IsDots (toShortName upper name) ∨ ∃ n ∈ (History.run upper s dirId ops).names,
      toShortName upper n = toShortName upper name ∧
        (Fits83 n → Fits83 name → n.map asciiUpper = name.map asciiUpper) := by
  have hr : Recorded upper dirId dir.firstCluster (History.run upper s dirId ops) :=
    (recorded_of_empty hs hdir hempty).run
  by_cases hdots : IsDots (toShortName upper name)
  · exact Or.inl hdots
  have hfound : ∃ dir a, (History.run upper s dirId ops).fs.inodes.get dirId = some dir ∧
      (History.run upper s dirId ops).fs.findSlot dir.firstCluster (toShortName upper name) =
        some a := by
    rcases hans with ⟨id, hok⟩ | hok
    · exact lookup_of_ok hr.sound hok
    · obtain ⟨dir, a, r, hget, -, hfind, -⟩ := unlink_of_ok hr.sound (Prod.ext hok rfl)
      exact ⟨dir, a, hget, hfind⟩
  obtain ⟨dir, a, hget, hfind⟩ := hfound
  obtain ⟨n, hmem, hshort⟩ := hr.found hget hfind hdots
  exact Or.inr ⟨n, hmem, hshort, fun h h' => h.eq_of_short hup h' hshort⟩

/-! ## An empty volume -/

theorem emptyMount_emptyDir : EmptyDir emptyMount 2 := by
  intro a ha hused
  rw [emptyMount_slotAddrs] at ha
  rw [emptyMount_free ha] at hused
  cases hused

/-- A file made on the empty volume. -/
theorem emptyMount_answers (upper : List UInt8 → List UInt8) {name name' : List UInt8}
    (hshort : toShortName upper name = toShortName upper name')
    (hused : (newFileEntry upper name).isFree = false) :
    (History.run upper emptyMount 1 [.create name]).names = [name] ∧
      Answered upper (History.run upper emptyMount 1 [.create name]).fs 1 name' := by
  obtain ⟨a, s, -, hcreate, -⟩ := emptyMount_create upper name
  obtain ⟨hk, hdir, hjoined⟩ :=
    create_joined emptyMount_sound emptyMount_root emptyMount_dirInOrder hcreate
  have hrun : History.run upper emptyMount 1 [.create name] =
      ⟨(s.internInode 0 0 false).2, [name]⟩ := by
    rw [History.run, List.foldl_cons, List.foldl_nil, DirOp.step, hcreate]
    rfl
  rw [hrun]
  refine ⟨rfl, Or.inl ((lookup_ok_iff hdir hk name').mpr ?_)⟩
  rw [← hshort]
  exact (hjoined.findEntry_iff _).mpr (Or.inl ⟨hused, rfl⟩)

theorem answered_of_created_A :
    Answered (List.map asciiUpper)
      (History.run (List.map asciiUpper) emptyMount 1 [.create [0x41]]).fs 1 [0x61] ∧
    (IsDots (toShortName (List.map asciiUpper) [0x61]) ∨
      ∃ n ∈ (History.run (List.map asciiUpper) emptyMount 1 [.create [0x41]]).names,
        toShortName (List.map asciiUpper) n = toShortName (List.map asciiUpper) [0x61] ∧
          (Fits83 n → Fits83 [0x61] → n.map asciiUpper = [0x61].map asciiUpper)) := by
  have hans := (emptyMount_answers (List.map asciiUpper)
    (show toShortName (List.map asciiUpper) [0x41] = toShortName (List.map asciiUpper) [0x61] by
      decide) (by decide)).2
  have hnames := answered_of_created upperAscii_map emptyMount_sound emptyMount_root
    emptyMount_emptyDir [.create [0x41]] [0x61] hans
  exact ⟨hans, hnames⟩

/-- `LONGNAME` and a digit. -/
def longName (digit : UInt8) : List UInt8 :=
  [0x4C, 0x4F, 0x4E, 0x47, 0x4E, 0x41, 0x4D, 0x45, 0x30 + digit]

/-- With the file `LONGNAME1` alone in the directory, `LONGNAME2` is answered. -/
theorem answers_long_name :
    ∃ ops name, Answered (List.map asciiUpper)
        (History.run (List.map asciiUpper) emptyMount 1 ops).fs 1 name ∧
      ∀ n ∈ (History.run (List.map asciiUpper) emptyMount 1 ops).names,
        n.map asciiUpper ≠ name.map asciiUpper := by
  obtain ⟨hnames, hans⟩ := emptyMount_answers (List.map asciiUpper)
    (show toShortName (List.map asciiUpper) (longName 1) =
      toShortName (List.map asciiUpper) (longName 2) by decide) (by decide)
  refine ⟨[.create (longName 1)], longName 2, hans, fun n hn => ?_⟩
  rw [hnames, List.mem_singleton] at hn
  subst hn
  decide

end AeroOS.Fat32
