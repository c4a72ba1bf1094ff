import AeroOS.Lib.Words
import AeroOS.Sysutils.Calls
import AeroOS.Syscalls.MakeDir

/-!
# The shell

The read loop and the tokeniser of `shell()` in `sysutils/src/main.rs`.  Array accesses are
checked: `none` is an index outside of the array.

* `readLine` is the read loop; `edited` is the line that it should hold, and `readLine_eq` says
  that it does.
* `tokenise` is the tokeniser; `tokenise_eq` says that it finds the first 16 words.
* `shell_line` puts the two together.
-/

namespace AeroOS.Sysutils.Shell

open Words

variable {τ : Type}

/-! ## The line -/

/-- The line: an array, and how many bytes of it are kept. -/
structure Line where
  buf : List UInt8
  n : Nat

def Line.new : Line := ⟨List.replicate 256 0, 0⟩

/-- What the line holds. -/
def Line.text (l : Line) : List UInt8 := l.buf.take l.n

/-- `line[n] = c; n += 1`. -/
def Line.append (l : Line) (c : UInt8) : Option Line :=
  if l.n < l.buf.length then some ⟨l.buf.set l.n c, l.n + 1⟩ else none

/-- Where the read loop is when it ends, or when no byte has come yet. -/
inductive ReadLine (τ : Type) where
  | waiting (l : Line) (s : Session τ)
  | closed (s : Session τ)
  | line (l : Line) (reads : List (Option UInt8)) (s : Session τ)

/-- A line feed or a carriage return. -/
def IsTerminator (c : UInt8) : Prop := c = 0x0A ∨ c = 0x0D

instance (c : UInt8) : Decidable (IsTerminator c) := inferInstanceAs (Decidable (_ ∨ _))

/-- Backspace or delete. -/
def IsErase (c : UInt8) : Prop := c = 0x08 ∨ c = 0x7F

instance (c : UInt8) : Decidable (IsErase c) := inferInstanceAs (Decidable (_ ∨ _))

/-- The read loop.  Each `read` gives a byte, or no byte when its value is not positive. -/
def readLine : List (Option UInt8) → Line → Session τ → Option (ReadLine τ)
  | [], l, s => some (.waiting l s)
  | none :: _, _, s => some (.closed (println [] s))
  | some c :: reads, l, s =>
    if IsTerminator c then some (.line l reads (println [] s))
    else if IsErase c then
      if l.n > 0 then readLine reads { l with n := l.n - 1 } (print [0x08, 0x20, 0x08] s)
      else readLine reads l s
    else if l.n < l.buf.length - 1 then
      (l.append c).bind fun l =>
        readLine reads l (print (if Syscalls.validUtf8 [c] then [c] else ascii ".") s)
    else readLine reads l s

/-! ### The line as a fold -/

/-- One byte of the input. -/
def editStep (kept : List UInt8) (c : UInt8) : List UInt8 :=
  if IsErase c then kept.dropLast else if kept.length < 255 then kept ++ [c] else kept

/-- The line that a stream of bytes stands for. -/
def edited (input : List UInt8) : List UInt8 := input.foldl editStep []

/-- The array is whole, and has room for one more byte than are kept. -/
structure Line.Ok (l : Line) : Prop where
  length : l.buf.length = 256
  lt : l.n < 256

theorem Line.ok_new : Line.new.Ok := ⟨List.length_replicate, by decide⟩

theorem Line.Ok.length_text {l : Line} (h : l.Ok) : l.text.length = l.n := by
  have hlt := h.lt
  rw [Line.text, List.length_take, h.length]
  omega

/-- A byte goes behind the text. -/
theorem Line.Ok.append {l : Line} (h : l.Ok) (hn : l.n < 255) (c : UInt8) :
    ∃ l', l.append c = some l' ∧ l'.Ok ∧ l'.text = l.text ++ [c] := by
  have hlt : l.n < l.buf.length := by
    rw [h.length]
    exact h.lt
  refine ⟨⟨l.buf.set l.n c, l.n + 1⟩, if_pos hlt, ⟨?_, Nat.succ_lt_succ hn⟩, ?_⟩
  · exact List.length_set.trans h.length
  · show (l.buf.set l.n c).take (l.n + 1) = l.buf.take l.n ++ [c]
    rw [List.take_add_one, List.take_set_of_le (Nat.le_refl _), List.getElem?_set_self hlt]
    rfl

/-- The last kept byte goes. -/
theorem Line.Ok.dropLast {l : Line} (h : l.Ok) :
    Line.Ok { l with n := l.n - 1 } ∧ Line.text { l with n := l.n - 1 } = l.text.dropLast := by
  have hlt := h.lt
  refine ⟨⟨h.length, ?_⟩, ?_⟩
  · show l.n - 1 < 256
    omega
  · exact (List.dropLast_take (by rw [h.length]; exact hlt)).symm

/-- The read loop keeps what the fold keeps. -/
theorem readLine_eq (input : List UInt8) (hin : ∀ c ∈ input, ¬ IsTerminator c) {t : UInt8}
    (ht : IsTerminator t) (rest : List (Option UInt8)) {l : Line} (hl : l.Ok) (s : Session τ) :
    ∃ l' s', readLine (input.map some ++ some t :: rest) l s = some (.line l' rest s') ∧ l'.Ok ∧
      l'.text = input.foldl editStep l.text := by
  induction input generalizing l s with
  | nil =>
    refine ⟨l, println [] s, ?_, hl, rfl⟩
    rw [List.map_nil, List.nil_append, readLine, if_pos ht]
  | cons c input ih =>
    have hrest := fun x hx => hin x (List.mem_cons_of_mem c hx)
    rw [List.map_cons, List.cons_append, readLine, if_neg (hin c List.mem_cons_self),
      List.foldl_cons, editStep]
    by_cases herase : IsErase c
    · rw [if_pos herase, if_pos herase]
      by_cases hn : l.n > 0
      · obtain ⟨hl', htext⟩ := hl.dropLast
        rw [if_pos hn, ← htext]
        exact ih hrest hl' _
      · have hnil : l.text = [] := by
          rw [Line.text, Nat.eq_zero_of_not_pos hn, List.take_zero]
        rw [if_neg hn, hnil, List.dropLast_nil, ← hnil]
        exact ih hrest hl s
    · rw [if_neg herase, if_neg herase, hl.length, hl.length_text]
      by_cases hn : l.n < 255
      · obtain ⟨l', happ, hl', htext⟩ := hl.append hn c
        rw [if_pos hn, if_pos hn, happ, Option.bind_some, ← htext]
        exact ih hrest hl' _
      · rw [if_neg hn, if_neg hn]
        exact ih hrest hl s

/-! ## The tokens -/

/-- The tokens: an array of slices, and how many of them are filled. -/
structure Tokens where
  toks : List (List UInt8)
  nt : Nat

def Tokens.new : Tokens := ⟨List.replicate 16 [], 0⟩

/-- `toks[nt] = w; nt += 1`. -/
def Tokens.push (t : Tokens) (w : List UInt8) : Option Tokens :=
  if t.nt < t.toks.length then some ⟨t.toks.set t.nt w, t.nt + 1⟩ else none

/-- `&line[start..i]`. -/
def Line.slice (l : Line) (start i : Nat) : Option (List UInt8) :=
  if start ≤ i ∧ i ≤ l.buf.length then some ((l.buf.take i).drop start) else none

/-- The inner loops: `while i < n && p(line[i]) { i += 1 }`. -/
def scan (p : UInt8 → Bool) (l : Line) (i : Nat) : Option Nat :=
  if i < l.n then
    match l.buf[i]? with
    | none => none
    | some c => if p c then scan p l (i + 1) else some i
  else some i
termination_by l.n - i

/-- A space. -/
def isSpace (c : UInt8) : Bool := c == 0x20

/-- The outer loop.  With no fuel left it has not ended. -/
def tokenLoop (l : Line) : Nat → Nat → Tokens → Option Tokens
  | 0, _, _ => none
  | fuel + 1, i, t =>
    if i < l.n ∧ t.nt < t.toks.length then
      (scan isSpace l i).bind fun start =>
        (scan (!isSpace ·) l start).bind fun i =>
          if i > start then
            (l.slice start i).bind fun w => (t.push w).bind fun t => tokenLoop l fuel i t
          else tokenLoop l fuel i t
    else some t

/-- The tokens of a line. -/
def tokenise (fuel : Nat) (l : Line) : Option Tokens := tokenLoop l fuel 0 Tokens.new

/-- The byte at an index of the text. -/
theorem Line.Ok.drop_text {l : Line} (hl : l.Ok) {i : Nat} (hi : i < l.n) :
    ∃ c, l.buf[i]? = some c ∧ l.text.drop i = c :: l.text.drop (i + 1) := by
  have hlt : i < l.text.length := by rwa [hl.length_text]
  refine ⟨l.text[i], ?_, List.drop_eq_getElem_cons hlt⟩
  rw [← List.getElem?_eq_getElem hlt, Line.text, List.getElem?_take_of_lt hi]

/-- A scan stops behind the run from its start. -/
theorem scan_eq (p : UInt8 → Bool) {l : Line} (hl : l.Ok) {i : Nat} (hi : i ≤ l.n) :
    scan p l i = some (i + ((l.text.drop i).takeWhile p).length) := by
  induction hk : l.n - i generalizing i with
  | zero =>
    have hnil : l.text.drop i = [] := List.drop_eq_nil_of_le (by rw [hl.length_text]; omega)
    rw [scan, if_neg (by omega), hnil]
    rfl
  | succ k ih =>
    obtain ⟨c, hget, hdrop⟩ := hl.drop_text (show i < l.n by omega)
    rw [scan, if_pos (by omega), hget, hdrop]
    by_cases hc : p c = true
    · simp only [if_pos hc]
      rw [ih (by omega) (by omega), List.takeWhile_cons_of_pos hc, List.length_cons]
      congr 1
      omega
    · simp only [if_neg hc]
      rw [List.takeWhile_cons_of_neg hc]
      rfl

/-- The array holds these tokens. -/
structure Tokens.Holds (t : Tokens) (ws : List (List UInt8)) : Prop where
  toks : t.toks = ws ++ List.replicate (16 - ws.length) []
  nt : t.nt = ws.length
  le : ws.length ≤ 16

theorem Tokens.holds_new : Tokens.new.Holds [] := ⟨rfl, rfl, Nat.zero_le _⟩

theorem Tokens.Holds.length_toks {t : Tokens} {ws : List (List UInt8)} (h : t.Holds ws) :
    t.toks.length = 16 := by
  have hle := h.le
  rw [h.toks, List.length_append, List.length_replicate]
  omega

theorem Tokens.Holds.push {t : Tokens} {ws : List (List UInt8)} (h : t.Holds ws)
    (hlt : t.nt < t.toks.length) (w : List UInt8) :
    ∃ t', t.push w = some t' ∧ t'.Holds (ws ++ [w]) := by
  have hws : ws.length < 16 := by rwa [← h.nt, ← h.length_toks]
  refine ⟨⟨t.toks.set t.nt w, t.nt + 1⟩, if_pos hlt, ?_, ?_, ?_⟩
  · show t.toks.set t.nt w = _
    obtain ⟨k, hk⟩ : ∃ k, 16 - ws.length = k + 1 := ⟨15 - ws.length, by omega⟩
    rw [h.toks, h.nt, List.set_append_right _ _ (Nat.le_refl _), Nat.sub_self, hk,
      List.replicate_succ, List.set_cons_zero, List.length_append, List.length_singleton,
      show 16 - (ws.length + 1) = k by omega, List.append_assoc]
    rfl
  · rw [List.length_append, List.length_singleton, ← h.nt]
  · rw [List.length_append, List.length_singleton]
    exact hws

theorem drop_length_takeWhile (p : UInt8 → Bool) (s : List UInt8) :
    s.drop (s.takeWhile p).length = s.dropWhile p := by
  have h := congrArg (List.drop (s.takeWhile p).length)
    (List.takeWhile_append_dropWhile (p := p) (l := s)).symm
  rwa [List.drop_left] at h

theorem take_length_takeWhile (p : UInt8 → Bool) (s : List UInt8) :
    s.take (s.takeWhile p).length = s.takeWhile p := by
  have h := congrArg (List.take (s.takeWhile p).length)
    (List.takeWhile_append_dropWhile (p := p) (l := s)).symm
  rwa [List.take_left] at h

/-- From an index on the loop finds the words that follow, as long as there is room. -/
theorem tokenLoop_eq {l : Line} (hl : l.Ok) {fuel i : Nat} (hi : i ≤ l.n) (hfuel : l.n - i < fuel)
    {t : Tokens} {ws : List (List UInt8)} (ht : t.Holds ws) :
    ∃ t', tokenLoop l fuel i t = some t' ∧
      t'.Holds ((ws ++ words isSpace (l.text.drop i)).take 16) := by
  induction fuel generalizing i t ws with
  | zero => omega
  | succ fuel ih =>
    rw [tokenLoop]
    by_cases hroom : i < l.n ∧ t.nt < t.toks.length
    swap
    · -- the text or the array has come to its end
      refine ⟨t, if_neg hroom, ?_⟩
      rcases not_and_or.1 hroom with hend | hfull
      · rw [List.drop_eq_nil_of_le (by rw [hl.length_text]; omega), words_nil, List.append_nil,
          List.take_of_length_le ht.le]
        exact ht
      · rw [ht.length_toks, ht.nt] at hfull
        rw [List.take_append_of_le_length (by omega), List.take_of_length_le ht.le]
        exact ht
    obtain ⟨c, -, hdrop⟩ := hl.drop_text hroom.1
    set u := l.text.drop i with hu
    set start := i + (u.takeWhile isSpace).length with hstart
    have hulen : u.length = l.n - i := by rw [hu, List.length_drop, hl.length_text]
    have hspaces : (u.takeWhile isSpace).length ≤ u.length :=
      (List.takeWhile_sublist isSpace).length_le
    have hrest : l.text.drop start = u.dropWhile isSpace := by
      rw [hstart, ← List.drop_drop, ← hu, drop_length_takeWhile]
    set v := u.dropWhile isSpace with hv
    have hvlen : v.length = l.n - start := by rw [← hrest, List.length_drop, hl.length_text]
    have hword : (v.takeWhile (!isSpace ·)).length ≤ v.length :=
      (List.takeWhile_sublist (!isSpace ·)).length_le
    set stop := start + (v.takeWhile (!isSpace ·)).length with hstop
    have hafter : l.text.drop stop = v.dropWhile (!isSpace ·) := by
      rw [hstop, ← List.drop_drop, hrest, drop_length_takeWhile]
    -- a turn of the loop gets on: the first byte is a space or is in the word
    have hgrow : i < stop := by
      by_cases hc : isSpace c = true
      · have hpos : 0 < (u.takeWhile isSpace).length := by
          rw [hdrop, List.takeWhile_cons_of_pos hc]
          exact Nat.succ_pos _
        omega
      · have hvu : v = u := by
          rw [hv, hdrop, List.dropWhile_cons_of_neg hc]
        have hpos : 0 < (v.takeWhile (!isSpace ·)).length := by
          rw [hvu, hdrop, List.takeWhile_cons_of_pos (by simpa using hc)]
          exact Nat.succ_pos _
        omega
    rw [if_pos hroom, scan_eq isSpace hl hi, ← hu, ← hstart, Option.bind_some,
      scan_eq _ hl (show start ≤ l.n by omega), hrest, ← hstop, Option.bind_some]
    by_cases hne : stop > start
    · have hslice : l.slice start stop = some (v.takeWhile (!isSpace ·)) := by
        have hlt := hl.lt
        have htake : (l.buf.take stop).drop start = v.take (stop - start) := by
          rw [← hrest, Line.text, List.drop_take, List.drop_take, List.take_take,
            Nat.min_eq_left (by omega)]
        rw [Line.slice, if_pos ⟨Nat.le_of_lt hne, by rw [hl.length]; omega⟩, htake, hstop,
          Nat.add_sub_cancel_left, take_length_takeWhile]
      obtain ⟨t', hpush, ht'⟩ := ht.push hroom.2 (v.takeWhile (!isSpace ·))
      obtain ⟨t'', hloop, ht''⟩ := ih (show stop ≤ l.n by omega) (by omega) ht'
      refine ⟨t'', ?_, ?_⟩
      · rw [if_pos hne, hslice, Option.bind_some, hpush, Option.bind_some, hloop]
      · have hvne : v ≠ [] := by
          rintro h0
          rw [h0] at hstop
          simp only [List.takeWhile_nil, List.length_nil] at hstop
          omega
        rw [words_scan u, if_neg hvne, ← hv, ← hafter]
        rwa [List.append_assoc] at ht''
    · obtain ⟨t', hloop, ht'⟩ := ih (show stop ≤ l.n by omega) (by omega) ht
      refine ⟨t', by rw [if_neg hne, hloop], ?_⟩
      have hsame : stop = start := by omega
      rwa [hsame, hrest, hv, words_dropWhile] at ht'

/-- With enough fuel the tokens are the first 16 words. -/
theorem tokenise_eq {l : Line} (hl : l.Ok) {fuel : Nat} (hfuel : 256 ≤ fuel) :
    ∃ t, tokenise fuel l = some t ∧ t.Holds ((words isSpace l.text).take 16) := by
  have hlt := hl.lt
  have h := tokenLoop_eq hl (Nat.zero_le l.n) (show l.n - 0 < fuel by omega) Tokens.holds_new
  rwa [List.drop_zero, List.nil_append] at h

/-- For every stream of bytes up to a line feed or carriage return, the line is the fold of the
stream, and the tokens are its first 16 words. -/
theorem shell_line {input : List UInt8} (hin : ∀ c ∈ input, ¬ IsTerminator c) {t : UInt8}
    (ht : IsTerminator t) (rest : List (Option UInt8)) (s : Session τ) :
    ∃ l s', readLine (input.map some ++ some t :: rest) Line.new s = some (.line l rest s') ∧
      l.text = edited input ∧ ∀ fuel, 256 ≤ fuel → ∃ toks, tokenise fuel l = some toks ∧
        toks.toks.take toks.nt = (((edited input).splitOn 0x20).filter (!·.isEmpty)).take 16 := by
  obtain ⟨l, s', hread, hl, htext⟩ := readLine_eq input hin ht rest Line.ok_new s
  have hedit : l.text = edited input := htext
  refine ⟨l, s', hread, hedit, ?_⟩
  intro fuel hfuel
  obtain ⟨toks, htok, hholds⟩ := tokenise_eq hl hfuel
  refine ⟨toks, htok, ?_⟩
  rw [hholds.toks, hholds.nt, List.take_left, hedit]
  rfl

/-- A session without files. -/
def bootSession : Session Unit := ⟨fun _ => 0, Syscalls.bootMachine (), []⟩

/-- A line with a deleted byte and two spaces. -/
theorem shell_line_kill :
    ∃ l s', readLine ((ascii "kilk" ++ 0x7F :: ascii "l  7").map some ++ some 0x0A :: []) Line.new
        bootSession = some (.line l [] s') ∧ l.text = ascii "kill  7" ∧
      ∃ toks, tokenise 256 l = some toks ∧ toks.toks.take toks.nt = [ascii "kill", ascii "7"] := by
  obtain ⟨l, s', hread, htext, htoks⟩ := shell_line
    (show ∀ c ∈ ascii "kilk" ++ 0x7F :: ascii "l  7", ¬ IsTerminator c by decide)
    (show IsTerminator 0x0A by decide) [] bootSession
  refine ⟨l, s', hread, htext.trans (by decide), ?_⟩
  obtain ⟨toks, htok, hfirst⟩ := htoks 256 (Nat.le_refl _)
  exact ⟨toks, htok, hfirst.trans (by decide)⟩

/-! ## The commands -/

/-- What the shell does with a line. -/
inductive Command where
  | exit
  | help
  | ls (path : List UInt8)
  | cat (path : List UInt8)
  | catMissing
  | ps
  | kill (arg : List UInt8)
  | killMissing
  | external (path : List UInt8)
  | unknown (cmd : List UInt8)
  deriving DecidableEq

/-- The command of the tokens, if there are any. -/
def dispatch (t : Tokens) : Option Command :=
  if t.nt = 0 then none
  else
    let cmd := t.toks.getD 0 []
    if cmd = ascii "exit" ∨ cmd = ascii "quit" then some .exit
    else if cmd = ascii "help" then some .help
    else if cmd = ascii "ls" then some (.ls (t.toks[1]?.getD (ascii "/")))
    else if cmd = ascii "cat" then
      if t.nt < 2 then some .catMissing else some (.cat (t.toks.getD 1 []))
    else if cmd = ascii "ps" then some .ps
    else if cmd = ascii "kill" then
      if t.nt < 2 then some .killMissing else some (.kill (t.toks.getD 1 []))
    else if cmd = ascii "hello" then some (.external (ascii "/bin/hello"))
    else if cmd = ascii "forktest" then some (.external (ascii "/bin/forktest"))
    else some (.unknown cmd)

end AeroOS.Sysutils.Shell
