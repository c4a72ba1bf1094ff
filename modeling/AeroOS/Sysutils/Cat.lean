import AeroOS.Fat32.ReadSlices
import AeroOS.Fs.WholeFiles
import AeroOS.Sysutils.Calls
import AeroOS.Syscalls.MakeDir

/-!
# `cat`

`cat` reads a file in pieces of 512 bytes and writes each to the console, where `sys_write`
takes it for a text of its own.

* `text` is what is printed of a file; `run_eq` says that the command prints it.
* `text_eq_iff`: this is the file if and only if no piece ends inside a character.
* `prints_iff` puts the two together, for files as `readsAs_rootOps` and `readsAs_fat32` give them.
-/

namespace AeroOS.Sysutils.Cat

open Bytes Fs
open AeroOS.Syscalls

variable {τ : Type} (v : Vfs (Devices × τ)) (env : Env)

/-! ## The command -/

/-- The loop of `run`, with the buffer at `buf`. -/
def loop (fd : Int) (buf : Nat) : Nat → Session τ → Option (Session τ)
  | 0, _ => none
  | fuel + 1, s =>
    match read v env fd buf 512 s with
    | (none, _) => none
    | (some n, s) =>
      if n ≤ 0 then some s
      else
        match write (readBytes s.mem buf (asUsize n)) s with
        | (w, s) => if w < 0 then some s else loop fd buf fuel s

/-- `run`: the exit code and the session after it. -/
def run (scratch buf : Nat) (path : List UInt8) (fuel : Nat) (s : Session τ) :
    Option (Int × Session τ) :=
  match openFile v env scratch path 0 s with
  | (none, _) => none
  | (some fd, s) =>
    if fd < 0 then some (1, println [] (print path (print (ascii "cat: no such file: ") s)))
    else
      (loop v env (asI32 (asUsize fd)) buf fuel
        { s with mem := writeBytes s.mem buf (List.replicate 512 0) }).map fun s =>
          (0, (close v env (asI32 (asUsize fd)) s).2)

/-! ## What is printed -/

/-- The pieces of a file, each printed as a text of its own. -/
def text (bytes : List UInt8) : List UInt8 :=
  if bytes = [] then [] else printed (bytes.take 512) ++ text (bytes.drop 512)
termination_by bytes.length
decreasing_by
  rename_i hne
  have hpos := List.length_pos_iff.2 hne
  rw [List.length_drop]
  omega

theorem text_nil : text [] = [] := by
  rw [text, if_pos rfl]

theorem text_of_ne_nil {bytes : List UInt8} (h : bytes ≠ []) :
    text bytes = printed (bytes.take 512) ++ text (bytes.drop 512) := by
  rw [text, if_neg h]

theorem text_length_le (bytes : List UInt8) : (text bytes).length ≤ bytes.length + 12 := by
  induction hlen : bytes.length using Nat.strongRecOn generalizing bytes with
  | ind len ih =>
    by_cases hnil : bytes = []
    · rw [hnil, text_nil]
      exact Nat.zero_le _
    · have hpos := List.length_pos_iff.2 hnil
      have hprinted := printed_length_le (bytes.take 512)
      rw [List.length_take] at hprinted
      rw [text_of_ne_nil hnil, List.length_append]
      by_cases hlast : bytes.length ≤ 512
      · rw [List.drop_eq_nil_of_le hlast, text_nil, List.length_nil]
        omega
      · have hrest := ih (bytes.length - 512) (by omega) (bytes.drop 512) List.length_drop
        omega

/-- No piece of the file but the last ends inside a character. -/
def CutsBetween (bytes : List UInt8) : Prop :=
  ∀ k, 0 < k → ∀ h : 512 * k < bytes.length, ¬ IsContinuation bytes[512 * k]

/-- A longer file is cut behind its first piece, and as the rest is. -/
theorem cutsBetween_append {a b : List UInt8} {c : UInt8} (ha : a.length = 512) :
    CutsBetween (a ++ c :: b) ↔ ¬ IsContinuation c ∧ CutsBetween (c :: b) := by
  have hget : ∀ k (h : 512 * (k + 1) < (a ++ c :: b).length) (h' : 512 * k < (c :: b).length),
      (a ++ c :: b)[512 * (k + 1)] = (c :: b)[512 * k] := by
    intro k h h'
    rw [List.getElem_append_right (by omega)]
    congr 1
    omega
  constructor
  · intro hcuts
    constructor
    · have h := hcuts 1 Nat.one_pos (by rw [List.length_append, ha, List.length_cons]; omega)
      rwa [hget 0 _ (Nat.zero_lt_succ _)] at h
    · intro k hk h
      have hall := hcuts (k + 1) (Nat.succ_pos k) (by rw [List.length_append, ha]; omega)
      rwa [hget k _ h] at hall
  · rintro ⟨hc, hcuts⟩ k hk h
    obtain ⟨k, rfl⟩ := Nat.exists_eq_succ_of_ne_zero (Nat.ne_of_gt hk)
    have hlt : 512 * k < (c :: b).length := by
      rw [List.length_append, ha] at h
      omega
    rw [hget k h hlt]
    cases k with
    | zero => exact hc
    | succ k => exact hcuts (k + 1) (Nat.succ_pos k) hlt

/-- Of a text the command prints this text, if and only if no piece ends inside a character:
else two pieces are not valid, and one of them is a full one. -/
theorem text_eq_iff {bytes : List UInt8} (h : validUtf8 bytes = true) :
    text bytes = bytes ↔ CutsBetween bytes := by
  induction hlen : bytes.length using Nat.strongRecOn generalizing bytes with
  | ind len ih =>
    by_cases hlast : bytes.length ≤ 512
    · have hcuts : CutsBetween bytes := fun k hk h => by omega
      refine iff_of_true ?_ hcuts
      by_cases hnil : bytes = []
      · rw [hnil, text_nil]
      · rw [text_of_ne_nil hnil, List.take_of_length_le hlast, List.drop_eq_nil_of_le hlast, text_nil,
          printed, if_pos h, List.append_nil]
    · obtain ⟨a, c, b, ha, rfl⟩ : ∃ a c b, a.length = 512 ∧ bytes = a ++ c :: b := by
        refine ⟨bytes.take 512, bytes[512], bytes.drop 513, by rw [List.length_take]; omega, ?_⟩
        rw [← List.drop_eq_getElem_cons, List.take_append_drop]
      have htext : text (a ++ c :: b) = printed a ++ text (c :: b) := by
        rw [text_of_ne_nil (by simp), List.take_left' ha, List.drop_left' ha]
      rw [htext, cutsBetween_append ha]
      by_cases hc : IsContinuation c
      · -- the piece prints as the error text, and what follows makes up for 12 bytes at most
        have hinvalid : ¬ validUtf8 a = true := fun hva => (validUtf8_cut h).1 hva hc
        have hrest := text_length_le (c :: b)
        refine iff_of_false (fun heq => ?_) fun hboth => hboth.1 hc
        have hlength := congrArg List.length heq
        rw [printed, if_neg hinvalid, List.length_append, List.length_append, ha,
          show (ascii "<utf8 error>").length = 12 from rfl] at hlength
        omega
      · have hvalid : validUtf8 a = true := (validUtf8_cut h).2 hc
        rw [validUtf8_append hvalid] at h
        rw [printed, if_pos hvalid, List.append_cancel_left_eq, ih _ ?_ h rfl]
        · exact (and_iff_right hc).symm
        · rw [← hlen, List.length_append, ha]
          omega

/-! ## The run -/

variable {v env}

/-- The loop prints what is left of the file. -/
theorem loop_eq {bytes : List UInt8} {fd offset buf : Nat} (hbuf : buf ≠ 0) {s : Session τ}
    (h : OpenOn v s bytes fd offset) :
    ∃ s', (∀ fuel, bytes.length - offset < fuel → loop v env fd buf fuel s = some s') ∧
      s'.serial = s.serial ++ text (bytes.drop offset) := by
  induction hleft : bytes.length - offset using Nat.strongRecOn generalizing offset s with
  | ind left ih =>
    obtain ⟨s₁, hread, hmem, hopen, hserial⟩ := read_eq h hbuf (show 512 < 2 ^ 63 by decide)
    set n := min 512 (bytes.length - offset) with hn
    by_cases hend : n = 0
    · refine ⟨s₁, fun fuel hfuel => ?_, ?_⟩
      · obtain ⟨fuel, rfl⟩ := Nat.exists_eq_succ_of_ne_zero (by omega : fuel ≠ 0)
        rw [loop, hread]
        simp only
        rw [if_pos (by omega)]
      · rw [List.drop_eq_nil_of_le (by omega), text_nil, List.append_nil, hserial]
    · have hlen : ((bytes.drop offset).take 512).length = n := by
        rw [List.length_take, List.length_drop]
      have hne : bytes.drop offset ≠ [] := by
        rw [ne_eq, List.drop_eq_nil_iff]
        omega
      have hrest : bytes.drop (offset + n) = (bytes.drop offset).drop 512 := by
        rw [List.drop_drop]
        by_cases hfull : 512 ≤ bytes.length - offset
        · rw [hn, Nat.min_eq_left hfull]
        · rw [List.drop_eq_nil_of_le (by omega), List.drop_eq_nil_of_le (by omega)]
      obtain ⟨s', hloop, htext⟩ := ih (bytes.length - (offset + n)) (by omega)
        (s := { s₁ with serial := s₁.serial ++ printed ((bytes.drop offset).take 512) })
        ⟨hopen.pos, hopen.lt, hopen.file⟩ rfl
      refine ⟨s', fun fuel hfuel => ?_, ?_⟩
      · obtain ⟨fuel, rfl⟩ := Nat.exists_eq_succ_of_ne_zero (by omega : fuel ≠ 0)
        rw [loop, hread]
        simp only
        rw [if_neg (by omega), asUsize_natCast (by omega), hmem, write_eq (by omega), hlen]
        simp only
        rw [if_neg (by omega)]
        exact hloop fuel (by omega)
      · rw [htext, hrest, hserial, text_of_ne_nil hne, List.append_assoc]

/-- `open` gives a descriptor of a file with these contents. -/
def Opens (v : Vfs (Devices × τ)) (env : Env) (scratch : Nat) (path : List UInt8) (s : Session τ)
    (bytes : List UInt8) : Prop :=
  ∃ (fd : Nat) (s' : Session τ), openFile v env scratch path 0 s = (some (fd : Int), s') ∧
    OpenOn v s' bytes fd 0 ∧ s'.serial = s.serial

/-- The command ends, and has printed the text of the file. -/
theorem run_eq {scratch buf : Nat} {path bytes : List UInt8} {s : Session τ}
    (hopen : Opens v env scratch path s bytes) (hbuf : buf ≠ 0) :
    ∃ s', (∀ fuel, bytes.length < fuel → run v env scratch buf path fuel s = some (0, s')) ∧
      s'.serial = s.serial ++ text bytes := by
  obtain ⟨fd, s₁, heq, hon, hserial⟩ := hopen
  obtain ⟨s₂, hloop, htext⟩ := loop_eq (s := { s₁ with
    mem := writeBytes s₁.mem buf (List.replicate 512 0) }) hbuf ⟨hon.pos, hon.lt, hon.file⟩
  refine ⟨(close v env fd s₂).2, fun fuel hfuel => ?_, ?_⟩
  · rw [run, heq]
    simp only
    rw [if_neg (by omega), asI32_asUsize hon.lt, hloop fuel (by omega)]
    rfl
  · rw [close_serial, htext, List.drop_zero, hserial]

/-- The command ends well, and the strings that `sys_write` has printed are the file. -/
def PrintsFile (v : Vfs (Devices × τ)) (env : Env) (scratch buf : Nat) (path : List UInt8)
    (s : Session τ) (bytes : List UInt8) : Prop :=
  ∃ enough s', (∀ fuel, enough ≤ fuel → run v env scratch buf path fuel s = some (0, s')) ∧
    s'.serial = s.serial ++ bytes

theorem printsFile_iff_text {scratch buf : Nat} {path bytes : List UInt8} {s : Session τ}
    (hopen : Opens v env scratch path s bytes) (hbuf : buf ≠ 0) :
    PrintsFile v env scratch buf path s bytes ↔ text bytes = bytes := by
  obtain ⟨s', hrun, htext⟩ := run_eq hopen hbuf
  constructor
  · rintro ⟨enough, s'', hrun', hprints⟩
    have hsame := (hrun (max enough (bytes.length + 1)) (by omega)).symm.trans
      (hrun' (max enough (bytes.length + 1)) (by omega))
    obtain rfl : s' = s'' := (Prod.mk.inj (Option.some.inj hsame)).2
    exact List.append_cancel_left (htext.symm.trans hprints)
  · intro heq
    exact ⟨bytes.length + 1, s', fun fuel hfuel => hrun fuel hfuel, htext.trans (by rw [heq])⟩

/-! ## The files -/

/-- Files in memory. -/
theorem readsAs_rootOps {ρ : Type} {s : Devices × ρ × Tmpfs} {id : Nat}
    (hk : Tmpfs.rootOps.fileType s id = .regular) {i : TmpfsInode}
    (hi : s.2.2.inodes[id]? = some i) : ReadsAs Tmpfs.rootOps s id i.data := by
  intro offset buf _
  have hreg : i.fileType = .regular := (Tmpfs.fileType_of_getElem? hi).symm.trans hk
  have hlen : (slice i.data offset buf.length).length =
      min buf.length (i.data.length - offset) := by
    rw [slice, tabulate_length]
  have hslice : slice i.data offset buf.length = (i.data.drop offset).take buf.length := by
    rw [slice_eq_take, hlen, ← List.length_drop, ← List.take_eq_take_min]
  have hread := congrArg (·, s) (Tmpfs.read_regular hi hreg offset buf)
  rw [hlen, hslice] at hread
  exact hread

/-- Files on a disk. -/
theorem readsAs_fat32 {σ : Type} {ops : FileOps σ} {fat : σ → Fat32}
    (hops : ∀ s id offset buf, ops.read s id offset buf = ((fat s).read id offset buf, s)) {s : σ}
    (hs : Fat32.Sound (fat s)) {id : Nat} {i : Fat32.FatInode} (hi : (fat s).inodes.get id = some i)
    (hk : i.isDir = false) (hlt : i.size < 2 ^ 32)
    (hsize : i.size ≤ ((fat s).clusterChain i.firstCluster).length * (fat s).geo.bytesPerCluster) :
    ReadsAs ops s id ((fat s).contents i) := by
  intro offset buf hbuf
  rw [hops, Fat32.read_slice hs hi hk hsize fun _ => by omega, Fat32.contents_length hsize]

/-! ## The result -/

/-- `cat` prints a file of valid UTF-8, if and only if no piece of 512 bytes ends inside a
character. -/
theorem prints_iff {scratch buf : Nat} {path bytes : List UInt8} {s : Session τ}
    (hopen : Opens v env scratch path s bytes) (hbuf : buf ≠ 0)
    (hutf8 : validUtf8 bytes = true) :
    PrintsFile v env scratch buf path s bytes ↔
      ∀ k, 0 < k → ∀ h : 512 * k < bytes.length, ¬ IsContinuation bytes[512 * k] :=
  (printsFile_iff_text hopen hbuf).trans (text_eq_iff hutf8)

/-- A caller in a system with the file `/a`. -/
def oneFileSession (bytes : List UInt8) : Session (Unit × Tmpfs) :=
  ⟨fun _ => 0, bootMachine ((), Tmpfs.oneFile bytes), []⟩

theorem opens_oneFile (env : Env) (bytes : List UInt8) :
    Opens Tmpfs.rootOnly env 0x1000 (slash :: Tmpfs.fileName) (oneFileSession bytes) bytes := by
  obtain ⟨i, hi, hdata⟩ := Tmpfs.oneFile_data bytes
  have hreads : ReadsAs Tmpfs.rootOps (oneFileSession bytes).machine.fsState 2 i.data :=
    readsAs_rootOps rfl hi
  rw [hdata] at hreads
  have hopen : Tmpfs.rootOnly.openPath (slash :: Tmpfs.fileName) false
      (oneFileSession bytes).machine.fsState =
        (.ok ⟨2, 0, 0, .regular⟩, (oneFileSession bytes).machine.fsState) := by
    rw [Vfs.openPath, oneFileSession, bootMachine, Machine.fsState, Tmpfs.resolve_oneFile]
    rfl
  exact openFile_eq (by decide) (by decide) (by decide) (by decide) hopen rfl hreads rfl

theorem prints_iff_two :
    PrintsFile Tmpfs.rootOnly (pathEnv []) 0x1000 0x2000 (slash :: Tmpfs.fileName)
      (oneFileSession [0xC3, 0xA9]) [0xC3, 0xA9] :=
  (prints_iff (opens_oneFile _ _) (by decide) (by decide)).2 fun k hk h => by
    rw [show [(0xC3 : UInt8), 0xA9].length = 2 from rfl] at h
    omega

/-- 511 letters and then a character of two bytes. -/
def cutFile : List UInt8 := List.replicate 511 0x61 ++ [0xC3, 0xA9]

theorem not_prints_cutFile :
    validUtf8 cutFile = true ∧
      ¬ PrintsFile Tmpfs.rootOnly (pathEnv []) 0x1000 0x2000 (slash :: Tmpfs.fileName)
        (oneFileSession cutFile) cutFile := by
  have hutf8 : validUtf8 cutFile = true := by decide +kernel
  refine ⟨hutf8, fun h => ?_⟩
  have hcuts := (text_eq_iff hutf8).1 ((printsFile_iff_text (opens_oneFile _ _) (by decide)).1 h)
  exact hcuts 1 Nat.one_pos (by decide +kernel) (by decide +kernel)
end AeroOS.Sysutils.Cat
