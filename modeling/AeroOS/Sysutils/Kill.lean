import AeroOS.Sysutils.Numbers
import AeroOS.Sysutils.Shell

/-!
# `kill`

`commands/kill.rs`, as the shell calls it: with the first word behind `kill`, and no other.

* `killsOf` is what `run` signals for this word (`run_kills`), and `lineKills_eq` what the shell
  signals for a line.
* `givenPid` is the process that a line names, by the usage of the command.
* `obeys_iff`: when the shell signals what the line says.
-/

namespace AeroOS.Sysutils.Kill

open Decimal Words Shell

variable {τ : Type}

/-! ## The command -/

def SIGKILL : UInt8 := 9

/-- `parse_signum`. -/
def parseSignum (s : List UInt8) : Option UInt8 := (parseU32 s).map (·.toUInt8)

/-- What a run of the command does. -/
structure Run (τ : Type) where
  code : Int
  /-- The calls of `kill`, with the process and the signal. -/
  kills : List (UInt32 × UInt8)
  session : Session τ

/-- `run` from the process that was parsed on; `answer` is what the call of `kill` returns. -/
def signal (answer : UInt32 → UInt8 → Int) (arg : List UInt8) (signum : UInt8) (s : Session τ) :
    Option UInt32 → Run τ
  | none => ⟨1, [], println (ascii "kill: invalid PID") s⟩
  | some pid =>
    if pid = 0 then ⟨1, [], println (ascii "kill: cannot kill PID 0 (kernel)") s⟩
    else if answer pid signum < 0 then
      let text := if Syscalls.validUtf8 arg then arg else ascii "?"
      ⟨1, [(pid, signum)], println [] (print text (print (ascii "kill: failed to signal pid ") s))⟩
    else ⟨0, [(pid, signum)], println (ascii "kill: signal sent") s⟩

/-- `run`. -/
def run (answer : UInt32 → UInt8 → Int) (arg : List UInt8) (s : Session τ) : Run τ :=
  if arg.length > 1 ∧ arg.getD 0 0 = 0x2D then
    signal answer arg ((parseSignum (arg.drop 1)).getD SIGKILL) s
      ((parseU32 (arg.drop 1)).or (parseU32 arg))
  else signal answer arg SIGKILL s ((parseU32 arg).or (parseU32 arg))

/-- The calls of `kill` for a command of the shell; the other commands make none. -/
def commandKills (answer : UInt32 → UInt8 → Int) (s : Session τ) : Command → List (UInt32 × UInt8)
  | .kill arg => (run answer arg s).kills
  | _ => []

/-- The calls of `kill` for a line that is typed to the shell and ended with a line feed. -/
def lineKills (answer : UInt32 → UInt8 → Int) (typed : List UInt8) (s : Session τ) :
    Option (List (UInt32 × UInt8)) :=
  match readLine (typed.map some ++ [some 0x0A]) Line.new s with
  | some (.line l _ s) => (tokenise 256 l).map fun t => (dispatch t).elim [] (commandKills answer s)
  | _ => none

/-! ## What it signals -/

/-- The number of a text, unless it is 0 or too large. -/
def pidOf (s : List UInt8) : Option UInt32 :=
  if Parses s ∧ value s ≠ 0 then some (UInt32.ofNat (value s)) else none

/-- What `run` signals: behind a dash, one number is the process and the signal. -/
def killsOf (arg : List UInt8) : List (UInt32 × UInt8) :=
  if arg.head? = some 0x2D then ((pidOf (arg.drop 1)).map fun pid => (pid, pid.toUInt8)).toList
  else ((pidOf arg).map fun pid => (pid, SIGKILL)).toList

theorem killsOf_dash (d : List UInt8) :
    killsOf (0x2D :: d) = ((pidOf d).map fun pid => (pid, pid.toUInt8)).toList := if_pos rfl

theorem pidOf_eq (s : List UInt8) : pidOf s = (parseU32 s).filter (· ≠ 0) := by
  rw [parseU32_eq, pidOf]
  by_cases h : Parses s
  · have hzero : UInt32.ofNat (value s) = 0 ↔ value s = 0 := by
      rw [← UInt32.toNat_inj, UInt32.toNat_ofNat_of_lt' h.2.2]
      rfl
    simp [h, hzero, Option.filter]
  · rw [if_neg h, if_neg (fun hand => h hand.1)]
    rfl

/-- A word with a dash is no number. -/
theorem parseU32_dash (d : List UInt8) : parseU32 (0x2D :: d) = none := by
  rw [parseU32_eq, if_neg]
  intro h
  exact absurd (h.2.1 0x2D List.mem_cons_self) (by decide)

theorem signal_kills (answer : UInt32 → UInt8 → Int) (arg : List UInt8) (signum : UInt8)
    (s : Session τ) (pid : Option UInt32) :
    (signal answer arg signum s pid).kills =
      ((pid.filter (· ≠ 0)).map fun pid => (pid, signum)).toList := by
  cases pid with
  | none => rfl
  | some pid =>
    rw [signal]
    by_cases h0 : pid = 0
    · rw [if_pos h0, h0]
      rfl
    · have hfilter : (some pid).filter (· ≠ 0) = some pid :=
        (Option.filter_some ..).trans (if_pos (decide_eq_true h0))
      rw [if_neg h0, hfilter]
      split
      · rfl
      · rfl

theorem run_kills (answer : UInt32 → UInt8 → Int) (arg : List UInt8) (s : Session τ) :
    (run answer arg s).kills = killsOf arg := by
  rw [run, killsOf]
  by_cases hdash : arg.head? = some 0x2D
  · obtain ⟨d, rfl⟩ : ∃ d, arg = 0x2D :: d := by
      cases arg with
      | nil => cases hdash
      | cons c d => exact ⟨d, by rw [Option.some.inj hdash]⟩
    rw [if_pos hdash, List.drop_one, List.tail_cons, pidOf_eq]
    cases d with
    | nil => rfl
    | cons c d =>
      rw [if_pos ⟨Nat.succ_lt_succ (Nat.succ_pos _), rfl⟩, signal_kills, parseU32_dash,
        Option.or_none, parseSignum]
      cases parseU32 (c :: d) with
      | none => rfl
      | some pid =>
        by_cases h0 : pid = 0
        · rw [h0]
          rfl
        · rw [Option.filter_some, if_pos (decide_eq_true h0)]
          rfl
  · have hflag : ¬ (arg.length > 1 ∧ arg.getD 0 0 = 0x2D) := by
      rintro ⟨hlen, h0⟩
      cases arg with
      | nil => exact absurd hlen (by decide)
      | cons c d => exact hdash (congrArg some h0)
    rw [if_neg hflag, if_neg hdash, signal_kills, Option.or_self, pidOf_eq]

/-! ## Lines -/

/-- The line is a call of `kill` with this word exactly if the words are these. -/
theorem dispatch_kill_iff {t : Tokens} {ws : List (List UInt8)} (ht : t.Holds ws)
    {arg : List UInt8} :
    dispatch t = some (.kill arg) ↔ ∃ rest, ws = ascii "kill" :: arg :: rest := by
  have hget : ∀ i, t.toks.getD i [] = ws.getD i [] := by
    intro i
    rw [ht.toks, List.getD_eq_getElem?_getD, List.getD_eq_getElem?_getD, List.getElem?_append]
    split
    · rfl
    · rename_i hi
      rw [List.getElem?_eq_none (Nat.le_of_not_lt hi), List.getElem?_replicate]
      split <;> rfl
  rw [dispatch, ht.nt, hget, hget]
  constructor
  · intro h
    -- of the branches that are left only one is a call of `kill`
    dsimp only at h
    repeat' split at h
    all_goals try cases h
    rename_i hnt _ _ _ _ _ hcmd hlen
    rcases ws with _ | ⟨cmd, _ | ⟨w, rest⟩⟩
    · exact absurd rfl hnt
    · exact absurd (Nat.lt_succ_self 1) hlen
    · exact ⟨rest, by rw [← hcmd]; rfl⟩
  · rintro ⟨rest, rfl⟩
    rfl

/-- What the shell signals for the words of a line. -/
def wordsKills : List (List UInt8) → List (UInt32 × UInt8)
  | cmd :: arg :: _ => if cmd = ascii "kill" then killsOf arg else []
  | _ => []

theorem dispatch_kills (answer : UInt32 → UInt8 → Int) (s : Session τ) {t : Tokens}
    {ws : List (List UInt8)} (ht : t.Holds ws) :
    (dispatch t).elim [] (commandKills answer s) = wordsKills ws := by
  by_cases hkill : ∃ arg, dispatch t = some (.kill arg)
  · obtain ⟨arg, harg⟩ := hkill
    obtain ⟨rest, hws⟩ := (dispatch_kill_iff ht).1 harg
    rw [harg, hws, wordsKills, if_pos rfl]
    exact run_kills answer arg s
  · have hnone : (dispatch t).elim [] (commandKills answer s) = [] := by
      rcases hd : dispatch t with _ | c
      · rfl
      · cases c with
        | kill arg => exact absurd ⟨arg, hd⟩ hkill
        | _ => rfl
    rw [hnone]
    unfold wordsKills
    split
    · rename_i cmd arg rest
      rw [if_neg]
      rintro rfl
      exact hkill ⟨arg, (dispatch_kill_iff ht).2 ⟨rest, rfl⟩⟩
    · rfl

/-- What the shell signals for a line depends on its first two words. -/
theorem lineKills_eq (answer : UInt32 → UInt8 → Int) {typed : List UInt8}
    (htyped : ∀ c ∈ typed, ¬ IsTerminator c) (s : Session τ) :
    lineKills answer typed s = some (wordsKills (words isSpace (edited typed))) := by
  obtain ⟨l, s', hread, hl, htext⟩ := readLine_eq typed htyped (Or.inl rfl) [] Line.ok_new s
  obtain ⟨t, htok, ht⟩ := tokenise_eq hl (Nat.le_refl 256)
  rw [lineKills, hread]
  simp only [htok, Option.map_some, Option.some.injEq]
  rw [dispatch_kills answer s' ht, show l.text = edited typed from htext]
  rcases words isSpace (edited typed) with _ | ⟨cmd, _ | ⟨w, rest⟩⟩
  · rfl
  · rfl
  · rfl

/-! ## What a line says -/

/-- The process that a word names. -/
def pidWord (w : List UInt8) : Option Nat :=
  if w ≠ [] ∧ ∀ b ∈ w, IsDigit b then some (value w) else none

/-- The process that the words of a line name: `kill <pid>` or `kill -<signum> <pid>`. -/
def givenPid : List (List UInt8) → Option Nat
  | cmd :: w :: rest =>
    if cmd = ascii "kill" then
      if w.head? = some 0x2D then rest.head?.bind pidWord else pidWord w
    else none
  | _ => none

/-- `kill -s p`. -/
def flagLine (s p : Nat) : List UInt8 := ascii "kill -" ++ digits s ++ ascii " " ++ digits p

/-- `kill p`. -/
def plainLine (p : Nat) : List UInt8 := ascii "kill " ++ digits p

/-- The calls of `kill` for a line are those that the line asks for. -/
structure Obeys (typed : List UInt8) (kills : List (Nat × Nat)) : Prop where
  flag : ∀ s p, 1 ≤ s → s ≤ 255 → 1 ≤ p → typed = flagLine s p → kills = [(p, s)]
  plain : ∀ p, 1 ≤ p → typed = plainLine p → kills = [(p, 9)]
  given : ∀ k ∈ kills, givenPid (words isSpace (edited typed)) = some k.1

/-- A process is a number of 32 bits, and a word with a dash and a number that would be signalled
is followed by the same number. -/
structure Consistent (typed : List UInt8) : Prop where
  plain : ∀ p, typed = plainLine p → p < 2 ^ 32
  flag : ∀ d rest, words isSpace (edited typed) = ascii "kill" :: (0x2D :: d) :: rest →
    Parses d → value d ≠ 0 → rest.head?.bind pidWord = some (value d)

/-- What is signalled, as numbers. -/
def asNats (kills : List (UInt32 × UInt8)) : List (Nat × Nat) :=
  kills.map fun k => (k.1.toNat, k.2.toNat)

theorem asNats_killsOf_dash (d : List UInt8) :
    asNats (killsOf (0x2D :: d)) =
      if Parses d ∧ value d ≠ 0 then [(value d, value d % 256)] else [] := by
  rw [killsOf_dash, pidOf]
  by_cases h : Parses d ∧ value d ≠ 0
  · have hval : (UInt32.ofNat (value d)).toNat = value d := UInt32.toNat_ofNat_of_lt' h.1.2.2
    rw [if_pos h, if_pos h]
    show [((UInt32.ofNat (value d)).toNat, (UInt32.ofNat (value d)).toUInt8.toNat)] = _
    rw [UInt32.toNat_toUInt8, hval]
  · rw [if_neg h, if_neg h]
    rfl

theorem asNats_killsOf {w : List UInt8} (hw : w.head? ≠ some 0x2D) :
    asNats (killsOf w) = if Parses w ∧ value w ≠ 0 then [(value w, 9)] else [] := by
  rw [killsOf, if_neg hw, pidOf]
  by_cases h : Parses w ∧ value w ≠ 0
  · have hval : (UInt32.ofNat (value w)).toNat = value w := UInt32.toNat_ofNat_of_lt' h.1.2.2
    rw [if_pos h, if_pos h]
    show [((UInt32.ofNat (value w)).toNat, 9)] = _
    rw [hval]
  · rw [if_neg h, if_neg h]
    rfl

/-- What is signalled is the process that the line names, if behind a dash the same number is
given twice. -/
theorem given_wordsKills (ws : List (List UInt8)) :
    (∀ k ∈ asNats (wordsKills ws), givenPid ws = some k.1) ↔
      ∀ d rest, ws = ascii "kill" :: (0x2D :: d) :: rest → Parses d → value d ≠ 0 →
        rest.head?.bind pidWord = some (value d) := by
  rcases ws with _ | ⟨cmd, _ | ⟨w, rest⟩⟩
  · simp [wordsKills, asNats]
  · simp [wordsKills, asNats]
  rw [wordsKills, givenPid]
  by_cases hcmd : cmd = ascii "kill"
  swap
  · rw [if_neg hcmd]
    refine iff_of_true (fun k hk => absurd hk List.not_mem_nil) ?_
    intro d rest' heq
    exact absurd (List.cons.inj heq).1 hcmd
  rw [if_pos hcmd, if_pos hcmd, hcmd]
  by_cases hdash : w.head? = some 0x2D
  · obtain ⟨d, rfl⟩ := List.head?_eq_some_iff.1 hdash
    rw [if_pos hdash, asNats_killsOf_dash]
    constructor
    · intro h d' rest' heq hparse hne
      obtain ⟨hw, rfl⟩ := List.cons.inj (List.cons.inj heq).2
      obtain ⟨-, rfl⟩ := List.cons.inj hw
      rw [if_pos ⟨hparse, hne⟩] at h
      exact h _ List.mem_cons_self
    · intro h k hk
      by_cases hnum : Parses d ∧ value d ≠ 0
      · rw [if_pos hnum] at hk
        rw [List.mem_singleton.1 hk]
        exact h d rest rfl hnum.1 hnum.2
      · rw [if_neg hnum] at hk
        exact absurd hk List.not_mem_nil
  · rw [if_neg hdash, asNats_killsOf hdash]
    refine iff_of_true ?_ ?_
    · intro k hk
      by_cases hnum : Parses w ∧ value w ≠ 0
      · rw [if_pos hnum] at hk
        rw [List.mem_singleton.1 hk, pidWord, if_pos ⟨hnum.1.1, hnum.1.2.1⟩]
      · rw [if_neg hnum] at hk
        exact absurd hk List.not_mem_nil
    · intro d rest' heq
      obtain ⟨hw, -⟩ := List.cons.inj (List.cons.inj heq).2
      exact absurd (congrArg List.head? hw) hdash

/-! ### The documented lines -/

/-- Without backspaces the line is cut behind 255 bytes. -/
theorem edited_eq_take {typed : List UInt8} (h : ∀ c ∈ typed, ¬ IsErase c) :
    edited typed = typed.take 255 := by
  have hfold : ∀ (input kept : List UInt8), (∀ c ∈ input, ¬ IsErase c) → kept.length ≤ 255 →
      input.foldl editStep kept = kept ++ input.take (255 - kept.length) := by
    intro input
    induction input with
    | nil => intro kept _ _; simp
    | cons c input ih =>
      intro kept hin hkept
      rw [List.foldl_cons, editStep, if_neg (hin c List.mem_cons_self)]
      have hrest := fun x hx => hin x (List.mem_cons_of_mem c hx)
      by_cases hlt : kept.length < 255
      · obtain ⟨k, hk⟩ : ∃ k, 255 - kept.length = k + 1 := ⟨254 - kept.length, by omega⟩
        rw [if_pos hlt, ih _ hrest (by rw [List.length_append]; exact hlt), List.length_append,
          List.length_singleton, hk, List.take_succ_cons, List.append_assoc,
          show 255 - (kept.length + 1) = k by omega]
        rfl
      · have hzero : 255 - kept.length = 0 := by omega
        rw [if_neg hlt, ih kept hrest hkept, hzero]
        rfl
  exact hfold typed [] h (Nat.zero_le _)

/-- A byte of the documented lines. -/
def IsPlain (c : UInt8) : Prop := ¬ IsTerminator c ∧ ¬ IsErase c

theorem isPlain_digits (n : Nat) : ∀ c ∈ digits n, IsPlain c ∧ isSpace c = false ∧ c ≠ 0x2D := by
  intro c hc
  have hdigit := isDigit_digits n c hc
  unfold IsDigit at hdigit
  unfold IsPlain IsTerminator IsErase isSpace
  grind

/-- The words `kill`, another one and what follows. -/
theorem words_kill {w : List UInt8} (hne : w ≠ []) (hw : ∀ c ∈ w, isSpace c = false)
    {rest : List UInt8} (hrest : Stops isSpace rest) :
    words isSpace (ascii "kill " ++ (w ++ rest)) = ascii "kill" :: w :: words isSpace rest := by
  have hkill : ascii "kill " ++ (w ++ rest) = ascii "kill" ++ 0x20 :: (w ++ rest) := rfl
  have hstop : Stops isSpace (0x20 :: (w ++ rest)) := by
    intro c hc
    rw [← Option.some.inj hc]
    rfl
  rw [hkill, words_append (by decide) (by decide) hstop, words_cons_of_sep rfl,
    words_append hne hw hrest]

theorem stops_nil : Stops isSpace ([] : List UInt8) := fun _ h => nomatch h

/-- A number that is cut behind more than ten digits is still large. -/
theorem le_value_take {n k : Nat} (hk : 10 < k) (hlen : k < (digits n).length) :
    2 ^ 32 ≤ value ((digits n).take k) := by
  by_contra hlt
  have hcut := length_digits_le (n := value ((digits n).take k)) (k := 10) (by decide) (by omega)
  rw [digits_value ((canonical_digits n).take (by omega)), List.length_take] at hcut
  omega

theorem isPlain_ascii {text : List UInt8} (h : ∀ c ∈ text, 0x20 ≤ c ∧ c ≤ 0x7E) :
    ∀ c ∈ text, IsPlain c := by
  intro c hc
  have hrange := h c hc
  unfold IsPlain IsTerminator IsErase
  grind

theorem isPlain_plainLine (p : Nat) : ∀ c ∈ plainLine p, IsPlain c := by
  intro c hc
  rcases List.mem_append.1 hc with hc | hc
  · exact isPlain_ascii (by decide) c hc
  · exact (isPlain_digits p c hc).1

theorem isPlain_flagLine (s p : Nat) : ∀ c ∈ flagLine s p, IsPlain c := by
  intro c hc
  rcases List.mem_append.1 hc with hc | hc
  · rcases List.mem_append.1 hc with hc | hc
    · rcases List.mem_append.1 hc with hc | hc
      · exact isPlain_ascii (by decide) c hc
      · exact (isPlain_digits s c hc).1
    · exact isPlain_ascii (by decide) c hc
  · exact (isPlain_digits p c hc).1

theorem words_plainLine (p : Nat) :
    words isSpace (edited (plainLine p)) = [ascii "kill", (digits p).take 250] := by
  have hedit : edited (plainLine p) = ascii "kill " ++ ((digits p).take 250 ++ []) := by
    rw [edited_eq_take fun c hc => (isPlain_plainLine p c hc).2, plainLine, List.take_append,
      List.append_nil]
    rfl
  have hcanon := (canonical_digits p).take (k := 250) (by decide)
  rw [hedit, words_kill hcanon.ne_nil ?_ stops_nil, words_nil]
  intro c hc
  exact (isPlain_digits p c (List.mem_of_mem_take hc)).2.1

/-- The line holds the signal, and the process up to some digit. -/
theorem words_flagLine {s : Nat} (hs : s ≤ 255) (p : Nat) :
    ∃ k, 10 < k ∧ words isSpace (edited (flagLine s p)) =
      [ascii "kill", 0x2D :: digits s, (digits p).take k] := by
  have hlen : (digits s).length ≤ 3 := length_digits_le (by decide) (by omega)
  refine ⟨248 - (digits s).length, by omega, ?_⟩
  have hedit : edited (flagLine s p) = ascii "kill " ++
      ((0x2D :: digits s) ++ 0x20 :: (digits p).take (248 - (digits s).length)) := by
    have hpre : (ascii "kill -" ++ digits s ++ ascii " ").length = 7 + (digits s).length := by
      rw [List.length_append, List.length_append]
      show 6 + (digits s).length + 1 = _
      omega
    rw [edited_eq_take fun c hc => (isPlain_flagLine s p c hc).2, flagLine, List.take_append,
      List.take_of_length_le (by omega), hpre, show 255 - (7 + (digits s).length) =
        248 - (digits s).length by omega, List.append_assoc, List.append_assoc]
    rfl
  have hcanon := (canonical_digits p).take (k := 248 - (digits s).length) (by omega)
  have hword : ∀ c ∈ (digits p).take (248 - (digits s).length), isSpace c = false := by
    intro c hc
    exact (isPlain_digits p c (List.mem_of_mem_take hc)).2.1
  have hflag : ∀ c ∈ (0x2D :: digits s), isSpace c = false := by
    intro c hc
    rcases List.mem_cons.1 hc with rfl | hc
    · rfl
    · exact (isPlain_digits s c hc).2.1
  have hstop : Stops isSpace (0x20 :: (digits p).take (248 - (digits s).length)) := by
    intro c hc
    rw [← Option.some.inj hc]
    rfl
  have hlast := words_append hcanon.ne_nil hword stops_nil
  rw [List.append_nil, words_nil] at hlast
  rw [hedit, words_kill (List.cons_ne_nil _ _) hflag hstop, words_cons_of_sep rfl, hlast]

theorem pidWord_take {p k : Nat} (hk : 0 < k) :
    pidWord ((digits p).take k) = some (value ((digits p).take k)) := by
  have hcanon := (canonical_digits p).take hk
  rw [pidWord, if_pos ⟨hcanon.ne_nil, hcanon.isDigit⟩]

theorem asNats_plainLine (p : Nat) :
    asNats (wordsKills (words isSpace (edited (plainLine p)))) =
      if p < 2 ^ 32 ∧ p ≠ 0 then [(p, 9)] else [] := by
  have hcanon := (canonical_digits p).take (k := 250) (by decide)
  have hdash : ((digits p).take 250).head? ≠ some 0x2D := by
    intro h
    exact (isPlain_digits p 0x2D (List.mem_of_mem_take (List.mem_of_mem_head? h))).2.2 rfl
  rw [words_plainLine, wordsKills, if_pos rfl, asNats_killsOf hdash]
  by_cases hcut : (digits p).length ≤ 250
  · rw [List.take_of_length_le hcut, value_digits]
    simp only [parses_digits]
  · have hlarge := le_value_take (n := p) (k := 250) (by decide) (by omega)
    have hp := value_le_append ((digits p).take 250) ((digits p).drop 250)
    rw [List.take_append_drop, value_digits] at hp
    rw [if_neg, if_neg]
    · omega
    · rintro ⟨hparse, -⟩
      have := hparse.2.2
      omega

/-- For every line that is typed, the shell signals what the line says if and only if the line
does not ask for a process above 32 bits, and does not have one number behind a dash and
another one, or none, as its process. -/
theorem obeys_iff (answer : UInt32 → UInt8 → Int) {typed : List UInt8}
    (htyped : ∀ c ∈ typed, ¬ IsTerminator c) (s : Session τ) :
    (∃ kills, lineKills answer typed s = some kills ∧ Obeys typed (asNats kills)) ↔
      Consistent typed := by
  rw [lineKills_eq answer htyped s]
  constructor
  · rintro ⟨kills, hkills, hobeys⟩
    obtain rfl := Option.some.inj hkills
    refine ⟨?_, (given_wordsKills _).1 hobeys.given⟩
    rintro p rfl
    by_cases h0 : p = 0
    · omega
    · have hone := hobeys.plain p (Nat.pos_of_ne_zero h0) rfl
      rw [asNats_plainLine] at hone
      by_contra hlarge
      rw [if_neg (fun h => hlarge h.1)] at hone
      cases hone
  · intro h
    refine ⟨_, rfl, ?_, ?_, (given_wordsKills _).2 h.flag⟩
    · rintro sig p hsig hle hp rfl
      obtain ⟨k, hk, hwords⟩ := words_flagLine hle p
      have hparse : Parses (digits sig) := parses_digits.2 (by omega)
      have hne : value (digits sig) ≠ 0 := by
        rw [value_digits]
        omega
      have hsame := h.flag _ _ hwords hparse hne
      rw [List.head?_cons, Option.bind_some, pidWord_take (by omega), value_digits,
        Option.some.injEq] at hsame
      rw [hwords, wordsKills, if_pos rfl, asNats_killsOf_dash, if_pos ⟨hparse, hne⟩, value_digits,
        Nat.mod_eq_of_lt (by omega)]
      by_cases hcut : (digits p).length ≤ k
      · rw [List.take_of_length_le hcut, value_digits] at hsame
        rw [hsame]
      · have hlarge := le_value_take hk (Nat.lt_of_not_le hcut)
        omega
    · rintro p hp rfl
      rw [asNats_plainLine, if_pos ⟨h.plain p rfl, by omega⟩]

theorem flagLine_of_lt {s p : Nat} (hs : s < 10) (hp : p < 10) :
    flagLine s p = ascii "kill -" ++ [digit s] ++ ascii " " ++ [digit p] := by
  rw [flagLine, digits_of_lt hs, digits_of_lt hp]

/-- A line with a dash is no line without a signal. -/
theorem flagLine_ne_plainLine (s p q : Nat) : flagLine s p ≠ plainLine q := by
  intro h
  have hcut : ascii "kill " ++ (0x2D :: (digits s ++ (ascii " " ++ digits p))) =
      ascii "kill " ++ digits q := by
    rw [← plainLine, ← h, flagLine, List.append_assoc, List.append_assoc]
    rfl
  have hq := List.append_cancel_left hcut
  exact (isPlain_digits q 0x2D (by rw [← hq]; exact List.mem_cons_self)).2.2 rfl

/-- `kill -9 9` is what it says. -/
theorem obeys_iff_nine :
    ∃ kills, lineKills (fun _ _ => 0) (flagLine 9 9) bootSession = some kills ∧
      Obeys (flagLine 9 9) (asNats kills) := by
  refine (obeys_iff (fun _ _ => 0) (fun c hc => (isPlain_flagLine 9 9 c hc).1) bootSession).2
    ⟨fun p h => absurd h (flagLine_ne_plainLine 9 9 p), ?_⟩
  have hwords : words isSpace (edited (flagLine 9 9)) = [ascii "kill", ascii "-9", ascii "9"] := by
    rw [flagLine_of_lt (by decide) (by decide)]
    decide
  intro d rest heq _ _
  rw [hwords] at heq
  obtain ⟨hd, rfl⟩ := List.cons.inj (List.cons.inj heq).2
  obtain ⟨-, rfl⟩ := List.cons.inj hd
  decide

/-- `kill -9 3` sends signal 9 to process 9. -/
theorem not_obeys_flag :
    ¬ ∃ kills, lineKills (fun _ _ => 0) (flagLine 9 3) bootSession = some kills ∧
      Obeys (flagLine 9 3) (asNats kills) := by
  rintro ⟨kills, hkills, hobeys⟩
  have hwords : words isSpace (edited (flagLine 9 3)) = [ascii "kill", ascii "-9", ascii "3"] := by
    rw [flagLine_of_lt (by decide) (by decide)]
    decide
  rw [lineKills_eq _ (fun c hc => (isPlain_flagLine 9 3 c hc).1), hwords] at hkills
  obtain rfl := Option.some.inj hkills
  have hasked := hobeys.flag 9 3 (by decide) (by decide) (by decide) rfl
  exact absurd hasked (by decide)

end AeroOS.Sysutils.Kill
