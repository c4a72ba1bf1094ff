import AeroOS.Sysutils.Dirents

/-!
# `ls`

`ls` makes one call of `getdents`, into a buffer of 4096 bytes, and prints what its loop finds
there.

* `loop_eq`: the loop prints the line of every record.
* `run_eq` and `run_long`: what the command prints of a directory, and that it does not get
  there with a path that is too long.
* `flatMap_lineShown_iff`: the lines of the records are all lines of the directory, if and only
  if there is room for all records and no name has a zero in it.
* `lists_all_iff` puts it together.
-/

namespace AeroOS.Sysutils.Ls

open Bytes Fs
open AeroOS.Syscalls
open Wm (afterStores)

variable {τ : Type} (v : Vfs (Devices × τ)) (env : Env)

/-! ## The command -/

/-- What the `match` on the type prints first. -/
def typeText (ty : UInt8) : List UInt8 :=
  if ty = 2 then ascii "d  "
  else if ty = 1 then ascii "f  "
  else if ty = 3 then ascii "c  "
  else if ty = 4 then ascii "b  "
  else ascii "?  "

/-- The body of the loop after it has found the record. -/
def printRecord (r : UInt8 × List UInt8) (s : Session τ) : Session τ :=
  println [] (print r.2 (print (typeText r.1) s))

/-- The loop of `run` over the first `n` bytes of the buffer. -/
def loop (buf n i : Nat) (s : Session τ) : Session τ :=
  if i + DENT_ENTRY_SIZE ≤ n then
    loop buf n (i + DENT_ENTRY_SIZE) (printRecord (record s.mem (buf + i)) s)
  else s
termination_by n - i
decreasing_by
  unfold DENT_ENTRY_SIZE at *
  omega

/-- `run`: the exit code and the session after it. -/
def run (scratch buf : Nat) (path : List UInt8) (s : Session τ) : Option (Int × Session τ) :=
  match getdents v env scratch path buf 4096
      { s with mem := writeBytes s.mem buf (List.replicate 4096 0) } with
  | (none, _) => none
  | (some n, s) =>
    if n < 0 then some (1, println (ascii "'") (print path (print (ascii "ls: cannot open '") s)))
    else if n = 0 then
      some (0, println (ascii "' is empty") (print path (print (ascii "ls: '") s)))
    else some (0, loop buf (asUsize n) 0 s)

/-! ## What is printed -/

/-- The line of an entry. -/
def line (e : DirEntry) : List UInt8 := typeText (typeByte e.fileType) ++ e.name ++ ascii "\n"

/-- The line that is printed for a record. -/
def lineOf (r : UInt8 × List UInt8) : List UInt8 := typeText r.1 ++ printed r.2 ++ ascii "\n"

theorem printed_typeText (ty : UInt8) : printed (typeText ty) = typeText ty := by
  unfold typeText
  repeat' split
  all_goals decide

theorem typeText_length (ty : UInt8) : (typeText ty).length = 3 := by
  unfold typeText
  repeat' split
  all_goals decide

theorem printRecord_eq (r : UInt8 × List UInt8) (s : Session τ) :
    printRecord r s = { s with serial := s.serial ++ lineOf r } := by
  have hempty : printed [] = [] := rfl
  have hnewline : printed (ascii "\n") = ascii "\n" := by decide
  rw [printRecord, println, print_eq, print_eq, print_eq, print_eq, printed_typeText, hempty,
    hnewline, lineOf]
  simp only [List.append_nil, List.append_assoc]

/-- The loop prints the line of every record, and keeps the memory. -/
theorem loop_eq (buf n i : Nat) (s : Session τ) :
    loop buf n i s = { s with serial := s.serial ++ (records s.mem buf n i).flatMap lineOf } := by
  induction hleft : n - i using Nat.strongRecOn generalizing i s with
  | ind left ih =>
    rw [loop, records]
    by_cases hin : i + DENT_ENTRY_SIZE ≤ n
    · have hlt : n - (i + DENT_ENTRY_SIZE) < left := by
        unfold DENT_ENTRY_SIZE at *
        omega
      rw [if_pos hin, if_pos hin, printRecord_eq, ih _ hlt _ _ rfl, List.flatMap_cons,
        ← List.append_assoc]
    · rw [if_neg hin, if_neg hin, List.flatMap_nil, List.append_nil]

/-! ## The lines of a directory -/

/-- The line that is printed for an entry. -/
def lineShown (e : DirEntry) : List UInt8 :=
  typeText (typeByte e.fileType) ++ beforeNul e.name ++ ascii "\n"

/-- A text ends at a zero between two characters. -/
theorem validUtf8_beforeNul {name : List UInt8} (h : validUtf8 name = true) :
    validUtf8 (beforeNul name) = true := by
  have hsplit : beforeNul name ++ name.dropWhile (· != 0) = name := List.takeWhile_append_dropWhile
  rcases hrest : name.dropWhile (· != 0) with _ | ⟨b, rest⟩
  · rw [hrest, List.append_nil] at hsplit
    rwa [hsplit]
  · have hdrop : name.dropWhile (· != 0) ≠ [] := by
      rw [hrest]
      exact List.cons_ne_nil b rest
    have hzero : b = 0 := by
      have hhead := List.head_dropWhile_not (· != 0) hdrop
      simpa [hrest] using hhead
    rw [hrest, hzero] at hsplit
    rw [← hsplit] at h
    exact (validUtf8_cut h).2 (by decide)

theorem lineOf_shown {e : DirEntry} (hutf8 : validUtf8 e.name = true) (hlen : e.name.length ≤ 63) :
    lineOf (shown e) = lineShown e := by
  rw [lineOf, shown, List.take_of_length_le hlen, printed, if_pos (validUtf8_beforeNul hutf8),
    lineShown]

theorem line_length (e : DirEntry) : (line e).length = 4 + e.name.length := by
  rw [line, List.length_append, List.length_append, typeText_length,
    show (ascii "\n").length = 1 from rfl]
  omega

theorem lineShown_length (e : DirEntry) : (lineShown e).length = 4 + (beforeNul e.name).length := by
  rw [lineShown, List.length_append, List.length_append, typeText_length,
    show (ascii "\n").length = 1 from rfl]
  omega

theorem beforeNul_length_le (name : List UInt8) : (beforeNul name).length ≤ name.length :=
  (List.takeWhile_prefix _).length_le

/-- A name that is printed whole has no zero. -/
theorem not_mem_of_length {name : List UInt8} (h : name.length ≤ (beforeNul name).length) :
    (0 : UInt8) ∉ name :=
  beforeNul_eq_self_iff.1 ((List.takeWhile_prefix _).eq_of_length_le h)

/-- The lines that are printed are not longer than the lines of the entries, and shorter if a
name has a zero in it. -/
theorem flatMap_lineShown_length (entries : List DirEntry) :
    (entries.flatMap lineShown).length ≤ (entries.flatMap line).length ∧
      ((entries.flatMap line).length ≤ (entries.flatMap lineShown).length →
        ∀ e ∈ entries, (0 : UInt8) ∉ e.name) := by
  induction entries with
  | nil => exact ⟨Nat.le_refl _, fun _ e he => absurd he List.not_mem_nil⟩
  | cons e entries ih =>
    obtain ⟨hle, hnul⟩ := ih
    have hname := beforeNul_length_le e.name
    rw [List.flatMap_cons, List.flatMap_cons, List.length_append, List.length_append, line_length,
      lineShown_length]
    refine ⟨by omega, fun h e' he' => ?_⟩
    rcases List.mem_cons.1 he' with rfl | he'
    · exact not_mem_of_length (by omega)
    · exact hnul (by omega) e' he'

theorem flatMap_lineShown_eq {entries : List DirEntry} (h : ∀ e ∈ entries, (0 : UInt8) ∉ e.name) :
    entries.flatMap lineShown = entries.flatMap line :=
  List.flatMap_congr fun e he => by
    rw [lineShown, line, beforeNul_eq_self_iff.2 (h e he)]

/-- The lines of the first records are those of all entries, each once, if and only if these are
all records and no name has a zero in it. -/
theorem flatMap_lineShown_iff (entries : List DirEntry) (n : Nat) :
    (∃ l : List DirEntry, l.Perm entries ∧ (entries.take n).flatMap lineShown = l.flatMap line) ↔
      entries.length ≤ n ∧ ∀ e ∈ entries, (0 : UInt8) ∉ e.name := by
  constructor
  · rintro ⟨l, hperm, heq⟩
    have hlen : ((entries.take n).flatMap lineShown).length = (entries.flatMap line).length := by
      rw [heq]
      exact (hperm.flatMap_right line).length_eq
    obtain ⟨hle, hnul⟩ := flatMap_lineShown_length (entries.take n)
    have hsum : (entries.flatMap line).length =
        ((entries.take n).flatMap line).length + ((entries.drop n).flatMap line).length := by
      rw [← List.length_append, ← List.flatMap_append, List.take_append_drop]
    have hall : entries.length ≤ n := by
      by_contra hmore
      rcases hdrop : entries.drop n with _ | ⟨e, rest⟩
      · exact hmore (List.drop_eq_nil_iff.1 hdrop)
      · rw [hdrop, List.flatMap_cons, List.length_append, line_length] at hsum
        omega
    rw [List.take_of_length_le hall] at hlen hnul
    exact ⟨hall, hnul (by omega)⟩
  · rintro ⟨hall, hnul⟩
    exact ⟨entries, .refl _, by rw [List.take_of_length_le hall, flatMap_lineShown_eq hnul]⟩

/-! ## The run -/

variable {v} {scratch buf : Nat} {path : List UInt8} {s : Session τ} {entries : List DirEntry}
  {st : Devices × τ}

/-- `getdents` of a path that fits: the loop finds the first entries in the buffer. -/
theorem getdents_eq (hlen : path.length < 128) (hutf8 : validUtf8 path = true)
    (hnul : (0 : UInt8) ∉ path) (hscratch : scratch ≠ 0) (hbuf : buf ≠ 0)
    (hdir : v.readdir path s.machine.fsState = (.ok entries, st)) (count : Nat) :
    ∃ s', getdents v env scratch path buf count s =
        (some (asI64 (72 * min entries.length (count / 72))), s') ∧ s'.serial = s.serial ∧
      records s'.mem buf (72 * min entries.length (count / 72)) 0 =
        (entries.take (count / 72)).map shown := by
  obtain ⟨p, hp⟩ : ∃ p, pathCstr path = some p := ⟨_, if_neg (by omega)⟩
  let start : Session τ := { s with mem := writeBytes s.mem scratch p }
  have hpath : readPath { env with mem := start.mem }.mem scratch = .ok path :=
    readPath_pathCstr hp hutf8 hnul s.mem hscratch
  have hdispatch : dispatch v { env with mem := start.mem } start.machine
      ⟨SYS_GETDENTS, scratch, buf, count, 0, 0⟩ = _ := sysGetdents_eq hpath hdir hbuf count
  have hrecords := records_afterStores buf 0 (entries.take (count / 72)) start.mem
  rw [Nat.zero_add, List.length_take, Nat.min_comm] at hrecords
  refine ⟨⟨afterStores start.mem (direntsStores buf 0 (entries.take (count / 72))),
    s.machine.setFsState st, s.serial⟩, ?_, rfl, hrecords⟩
  rw [getdents, hp]
  exact syscall3_eq (by decide) hdispatch

/-- What is printed of a directory that is not empty. -/
theorem run_eq (hlen : path.length < 128) (hutf8 : validUtf8 path = true)
    (hnul : (0 : UInt8) ∉ path) (hscratch : scratch ≠ 0) (hbuf : buf ≠ 0)
    (hdir : v.readdir path s.machine.fsState = (.ok entries, st)) (hne : entries ≠ [])
    (hnames : ∀ e ∈ entries, validUtf8 e.name = true ∧ e.name.length ≤ 63) :
    ∃ s', run v env scratch buf path s = some (0, s') ∧
      s'.serial = s.serial ++ (entries.take 56).flatMap lineShown := by
  have hpos := List.length_pos_iff.2 hne
  let start : Session τ := { s with mem := writeBytes s.mem buf (List.replicate 4096 0) }
  obtain ⟨s₁, hget, hserial, hrecords⟩ := getdents_eq env (s := start) hlen hutf8 hnul
    hscratch hbuf hdir 4096
  have hret : asI64 (72 * min entries.length (4096 / 72)) =
      (72 * min entries.length (4096 / 72) : Nat) := asI64_of_lt (by omega)
  have hlines : ((entries.take 56).map shown).flatMap lineOf =
      (entries.take 56).flatMap lineShown := by
    rw [List.flatMap_map]
    refine List.flatMap_congr fun e he => ?_
    obtain ⟨hvalid, hshort⟩ := hnames e (List.mem_of_mem_take he)
    exact lineOf_shown hvalid hshort
  refine ⟨loop buf (72 * min entries.length (4096 / 72)) 0 s₁, ?_, ?_⟩
  · rw [run, hget]
    simp only [hret]
    rw [if_neg (by omega), if_neg (by omega), asUsize_natCast (by omega)]
  · rw [loop_eq, hrecords, hserial]
    exact congrArg (s.serial ++ ·) hlines

/-- An empty directory. -/
theorem run_nil (hlen : path.length < 128) (hutf8 : validUtf8 path = true)
    (hnul : (0 : UInt8) ∉ path) (hscratch : scratch ≠ 0) (hbuf : buf ≠ 0)
    (hdir : v.readdir path s.machine.fsState = (.ok [], st)) :
    ∃ s', run v env scratch buf path s = some (0, s') := by
  let start : Session τ := { s with mem := writeBytes s.mem buf (List.replicate 4096 0) }
  obtain ⟨s₁, hget, -, -⟩ := getdents_eq env (s := start) hlen hutf8 hnul hscratch hbuf hdir
    4096
  exact ⟨_, by rw [run, hget]; rfl⟩

/-- With a path that is too long the command prints an error. -/
theorem run_long (v : Vfs (Devices × τ)) (env : Env) (scratch buf : Nat) (s : Session τ)
    (hlen : 128 ≤ path.length) :
    ∃ s' rest, run v env scratch buf path s = some (1, s') ∧
      s'.serial = s.serial ++ ascii "ls: cannot open '" ++ rest := by
  have hp : pathCstr path = none := if_pos hlen
  have hlit : printed (ascii "ls: cannot open '") = ascii "ls: cannot open '" := by decide
  let start : Session τ := { s with mem := writeBytes s.mem buf (List.replicate 4096 0) }
  refine ⟨println (ascii "'") (print path (print (ascii "ls: cannot open '") start)),
    printed path ++ (printed (ascii "'") ++ printed (ascii "\n")), ?_, ?_⟩
  · rw [run, getdents, hp]
    simp only
    rw [if_pos (by decide)]
  · rw [println, print_eq, print_eq, print_eq, print_eq, hlit]
    simp only [List.append_assoc]
    rfl

/-! ## The result -/

/-- The command returns, and of a directory that is not empty it has printed the line of each
entry, once. -/
def ListsAll (v : Vfs (Devices × τ)) (env : Env) (scratch buf : Nat) (path : List UInt8)
    (s : Session τ) (entries : List DirEntry) : Prop :=
  ∃ code s', run v env scratch buf path s = some (code, s') ∧
    (entries ≠ [] → ∃ l : List DirEntry, l.Perm entries ∧
      s'.serial = s.serial ++ l.flatMap line)

/-- The error text is not a list of entries. -/
theorem flatMap_line_ne {l : List DirEntry} (hl : l ≠ []) (rest : List UInt8) :
    l.flatMap line ≠ ascii "ls: cannot open '" ++ rest := by
  obtain ⟨e, l, rfl⟩ := List.exists_cons_of_ne_nil hl
  intro h
  have hne : typeText (typeByte e.fileType) ≠ [] :=
    List.ne_nil_of_length_pos (by rw [typeText_length]; decide)
  have hhead := congrArg List.head? h
  rw [List.flatMap_cons, line, List.append_assoc, List.append_assoc,
    List.head?_append_of_ne_nil _ hne,
    List.head?_append_of_ne_nil (ascii "ls: cannot open '") (by decide)] at hhead
  revert hhead
  cases e.fileType <;> decide

/-- With a path that is too long the entries are not listed. -/
theorem not_listsAll_of_long (hlen : 128 ≤ path.length) (hne : entries ≠ []) :
    ¬ ListsAll v env scratch buf path s entries := by
  rintro ⟨code, s', hrun, hlists⟩
  obtain ⟨l, hperm, htext⟩ := hlists hne
  obtain ⟨s₁, rest, hrun₁, htext₁⟩ := run_long v env scratch buf s hlen
  obtain rfl : s₁ = s' := (Prod.mk.inj (Option.some.inj (hrun₁.symm.trans hrun))).2
  rw [htext₁, List.append_assoc] at htext
  refine flatMap_line_ne ?_ rest (List.append_cancel_left htext).symm
  rintro rfl
  exact hne hperm.nil_eq.symm

/-- With a path that fits the lines of the directory have to be those of its first 56
records. -/
theorem listsAll_iff_lines (hlen : path.length < 128) (hutf8 : validUtf8 path = true)
    (hnul : (0 : UInt8) ∉ path) (hscratch : scratch ≠ 0) (hbuf : buf ≠ 0)
    (hdir : v.readdir path s.machine.fsState = (.ok entries, st)) (hne : entries ≠ [])
    (hnames : ∀ e ∈ entries, validUtf8 e.name = true ∧ e.name.length ≤ 63) :
    ListsAll v env scratch buf path s entries ↔
      entries.length ≤ 56 ∧ ∀ e ∈ entries, (0 : UInt8) ∉ e.name := by
  obtain ⟨s₁, hrun₁, htext₁⟩ := run_eq env hlen hutf8 hnul hscratch hbuf hdir hne hnames
  rw [← flatMap_lineShown_iff]
  constructor
  · rintro ⟨code, s', hrun, hlists⟩
    obtain ⟨l, hperm, htext⟩ := hlists hne
    obtain rfl : s₁ = s' := (Prod.mk.inj (Option.some.inj (hrun₁.symm.trans hrun))).2
    exact ⟨l, hperm, List.append_cancel_left (htext₁.symm.trans htext)⟩
  · rintro ⟨l, hperm, heq⟩
    exact ⟨0, s₁, hrun₁, fun _ => ⟨l, hperm, by rw [htext₁, heq]⟩⟩

/-- `ls` lists each entry of a directory once, if and only if there is none, or the path fits
into the scratch array, the records fit into the buffer, and no name has a zero in it. -/
theorem lists_all_iff (hutf8 : validUtf8 path = true) (hnul : (0 : UInt8) ∉ path)
    (hscratch : scratch ≠ 0) (hbuf : buf ≠ 0)
    (hdir : v.readdir path s.machine.fsState = (.ok entries, st))
    (hnames : ∀ e ∈ entries, validUtf8 e.name = true ∧ e.name.length ≤ 63) :
    ListsAll v env scratch buf path s entries ↔
      entries = [] ∨
        path.length < 128 ∧ entries.length ≤ 56 ∧ ∀ e ∈ entries, (0 : UInt8) ∉ e.name := by
  by_cases hne : entries = []
  · subst hne
    refine iff_of_true ?_ (Or.inl rfl)
    by_cases hlen : path.length < 128
    · obtain ⟨s', hrun⟩ := run_nil env hlen hutf8 hnul hscratch hbuf hdir
      exact ⟨0, s', hrun, fun h => absurd rfl h⟩
    · obtain ⟨s', rest, hrun, -⟩ := run_long v env scratch buf s (Nat.le_of_not_lt hlen)
      exact ⟨1, s', hrun, fun h => absurd rfl h⟩
  · by_cases hlen : path.length < 128
    · rw [listsAll_iff_lines env hlen hutf8 hnul hscratch hbuf hdir hne hnames]
      simp only [hne, hlen, false_or, true_and]
    · refine iff_of_false (not_listsAll_of_long env (Nat.le_of_not_lt hlen) hne) ?_
      rintro (h | h)
      · exact hne h
      · exact hlen h.1

/-- A caller in a system with only the in-memory filesystem. -/
def rootSession (t : Tmpfs) : Session (Unit × Tmpfs) := ⟨fun _ => 0, bootMachine ((), t), []⟩

theorem readdir_root (t : Tmpfs) :
    Tmpfs.rootOnly.readdir [slash] (rootSession t).machine.fsState =
      (t.readdir Tmpfs.rootInode, (rootSession t).machine.fsState) := rfl

theorem lists_all_iff_root :
    ListsAll Tmpfs.rootOnly (pathEnv []) 0x1000 0x2000 [slash] (rootSession (Tmpfs.oneFile []))
      [⟨Tmpfs.fileName, 2, .regular⟩] :=
  (lists_all_iff _ (by decide) (by decide) (by decide) (by decide)
    (readdir_root (Tmpfs.oneFile [])) (by decide)).2 (Or.inr (by decide))

/-- Files with the names `A`, `B` and so on. -/
def manyFiles (n : Nat) : Tmpfs :=
  (List.range n).foldl (fun s i => s.exec (.create Tmpfs.rootInode [(0x41 + i).toUInt8])) Tmpfs.new

theorem manyFiles_readdir : ∃ entries, (manyFiles 57).readdir Tmpfs.rootInode = .ok entries ∧
    entries.length = 57 ∧ ∀ e ∈ entries, validUtf8 e.name = true ∧ e.name.length ≤ 63 := by
  have hcheck : (((manyFiles 57).readdir Tmpfs.rootInode).toOption.elim false fun entries =>
      entries.length == 57 && entries.all fun e => validUtf8 e.name && e.name.length ≤ 63) =
        true := by
    decide +kernel
  cases h : (manyFiles 57).readdir Tmpfs.rootInode with
  | error e =>
    rw [h] at hcheck
    cases hcheck
  | ok entries =>
    rw [h] at hcheck
    simp only [Except.toOption, Option.elim_some, Bool.and_eq_true, beq_iff_eq, List.all_eq_true,
      decide_eq_true_eq] at hcheck
    exact ⟨entries, rfl, hcheck⟩

/-- A directory with 57 files is not listed whole. -/
theorem not_listsAll_manyFiles :
    ∃ entries, (manyFiles 57).readdir Tmpfs.rootInode = .ok entries ∧
      (∀ e ∈ entries, validUtf8 e.name = true ∧ e.name.length ≤ 63) ∧
        ¬ ListsAll Tmpfs.rootOnly (pathEnv []) 0x1000 0x2000 [slash] (rootSession (manyFiles 57))
          entries := by
  obtain ⟨entries, hread, hlen, hnames⟩ := manyFiles_readdir
  have hdir := readdir_root (manyFiles 57)
  rw [hread] at hdir
  refine ⟨entries, hread, hnames, fun h => ?_⟩
  have hfits := (listsAll_iff_lines _ (by decide) (by decide) (by decide) (by decide) (by decide)
    hdir (List.ne_nil_of_length_pos (by omega)) hnames).1 h
  omega

end AeroOS.Sysutils.Ls
