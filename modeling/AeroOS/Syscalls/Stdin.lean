import AeroOS.Syscalls.Dispatch

/-!
# Reading from the serial line

`sys_read` of descriptor 0 polls the line until a byte comes, and then as long as bytes come and
the buffer has room.

* `readStdin` are the two loops, over a line that answers each poll.
* `waitFirst_eq` and `drain_spec`: what each loop takes from the line and stores.
* `readStdin_sound_iff`: the call keeps to its buffer if and only if the buffer has room for the
  first byte, and the number of bytes is an `i64`.
* `sysRead_stdin`: the call as `Dispatch` has it, with the bytes that wait at the line.
-/

namespace AeroOS.Syscalls

open Bytes Fs

/-! ## The line -/

/-- What the two registers of COM1 hold when they are read. -/
structure SerialPoll where
  lineStatus : UInt8
  receiverBuffer : UInt8

/-- `try_read_byte`. -/
def tryReadByte (p : SerialPoll) : Option UInt8 :=
  if p.lineStatus &&& 0x01 ≠ 0 then some p.receiverBuffer else none

variable (line : Nat → SerialPoll)

/-- The bytes that `n` polls from `k` on deliver. -/
def delivered (k n : Nat) : List UInt8 :=
  (List.range' k n).filterMap fun i => tryReadByte (line i)

/-- The poll `f` is the first that delivers a byte. -/
def FirstByte (f : Nat) : Prop :=
  (∀ i < f, tryReadByte (line i) = none) ∧ tryReadByte (line f) ≠ none

/-! ## The call -/

/-- The first loop, from poll `k` on: the byte, and the next poll. -/
def waitFirst : Nat → Nat → Option (UInt8 × Nat)
  | 0, _ => none
  | fuel + 1, k =>
    match tryReadByte (line k) with
    | some b => some (b, k + 1)
    | none => waitFirst fuel (k + 1)

/-- The memory, the counter `read` and the next poll. -/
structure DrainState where
  mem : Store
  read : Nat
  poll : Nat

/-- The second loop: while there is room and a byte. -/
def drain (buf count : Nat) : Nat → DrainState → DrainState
  | 0, s => s
  | fuel + 1, s =>
    if s.read < count then
      match tryReadByte (line s.poll) with
      | some b => drain buf count fuel ⟨writeBytes s.mem (buf + s.read) [b], s.read + 1, s.poll + 1⟩
      | none => { s with poll := s.poll + 1 }
    else s

/-- `read(0, buf, count)`: the value, the memory after it and the next poll.  The fuel is for
the first loop; the second takes at most `count` rounds. -/
def readStdin (fuel : Nat) (mem : Store) (buf : Nat) (count : UInt64) :
    Option (Int × Store × Nat) :=
  if buf = 0 then some (EFAULT, mem, 0)
  else
    (waitFirst line fuel 0).map fun (b, k) =>
      let s := drain line buf count.toNat count.toNat ⟨writeBytes mem buf [b], 1, k⟩
      (asI64 s.read, s.mem, s.poll)

/-! ## What the loops take from the line -/

variable {line}

theorem delivered_succ (k n : Nat) :
    delivered line k (n + 1) =
      (tryReadByte (line k)).toList ++ delivered line (k + 1) n := by
  rw [delivered, List.range'_succ, List.filterMap_cons, delivered]
  cases tryReadByte (line k) with
  | none => rfl
  | some b => rfl

theorem delivered_cons {k : Nat} {b : UInt8} (hb : tryReadByte (line k) = some b) (n : Nat) :
    delivered line k (n + 1) = b :: delivered line (k + 1) n := by
  rw [delivered_succ, hb]
  rfl

theorem delivered_add (k n m : Nat) :
    delivered line k (n + m) = delivered line k n ++ delivered line (k + n) m := by
  rw [delivered, delivered, delivered, ← List.filterMap_append, List.range'_append_1]

theorem delivered_of_silent {k n : Nat} (h : ∀ i < n, tryReadByte (line (k + i)) = none) :
    delivered line k n = [] := by
  rw [delivered, List.filterMap_eq_nil_iff]
  intro i hi
  rw [List.mem_range'_1] at hi
  have hsilent := h (i - k) (by omega)
  rwa [show k + (i - k) = i by omega] at hsilent

theorem length_delivered_le (line : Nat → SerialPoll) (k n : Nat) :
    (delivered line k n).length ≤ n := by
  have hle := List.length_filterMap_le (fun i => tryReadByte (line i)) (List.range' k n)
  rwa [List.length_range'] at hle

/-- As many bytes as polls: each of them delivered one. -/
theorem delivers_of_length {k n : Nat} (h : (delivered line k n).length = n) {i : Nat}
    (hi : i < n) : tryReadByte (line (k + i)) ≠ none := by
  intro hnone
  obtain ⟨j, rfl⟩ : ∃ j, n = i + (j + 1) := ⟨n - i - 1, by omega⟩
  have hbefore := length_delivered_le line k i
  have hafter := length_delivered_le line (k + i + 1) j
  rw [delivered_add, delivered_succ, hnone, List.length_append, List.length_append] at h
  simp only [Option.toList_none, List.length_nil] at h
  omega

/-- The first loop waits for the first byte, however long that takes. -/
theorem waitFirst_eq {f k : Nat} {b : UInt8} (hsilent : ∀ i < f, tryReadByte (line (k + i)) = none)
    (hb : tryReadByte (line (k + f)) = some b) {fuel : Nat} (hfuel : f < fuel) :
    waitFirst line fuel k = some (b, k + f + 1) := by
  induction f generalizing k fuel with
  | zero =>
    obtain ⟨fuel, rfl⟩ := Nat.exists_eq_succ_of_ne_zero (Nat.ne_of_gt hfuel)
    rw [Nat.add_zero] at hb
    rw [waitFirst, hb]
  | succ f ih =>
    obtain ⟨fuel, rfl⟩ := Nat.exists_eq_succ_of_ne_zero (by omega : fuel ≠ 0)
    have hnone := hsilent 0 (by omega)
    rw [Nat.add_zero] at hnone
    rw [waitFirst, hnone]
    simp only
    rw [ih (k := k + 1) ?_ ?_ (by omega)]
    · rw [Nat.add_right_comm k 1 f, Nat.add_assoc k f 1]
    · intro i hi
      rw [Nat.add_assoc, Nat.add_comm 1 i]
      exact hsilent (i + 1) (by omega)
    · rw [Nat.add_assoc, Nat.add_comm 1 f]
      exact hb

/-- The second loop takes bytes from consecutive polls and stores them one behind the other; it
stops when the buffer is full, or after a poll without a byte. -/
theorem drain_spec (line : Nat → SerialPoll) (buf : Nat) {count fuel : Nat} {s : DrainState}
    (hfuel : count ≤ s.read + fuel) :
    ∃ n m, drain line buf count fuel s =
        ⟨writeBytes s.mem (buf + s.read) (delivered line s.poll n), s.read + n, s.poll + m⟩ ∧
      delivered line s.poll m = delivered line s.poll n ∧ (delivered line s.poll n).length = n ∧
      (∀ i < n, tryReadByte (line (s.poll + i)) ≠ none) ∧
      (s.read + n ≤ max s.read count) ∧
      (s.read + n < count → tryReadByte (line (s.poll + n)) = none) := by
  induction fuel generalizing s with
  | zero =>
    refine ⟨0, 0, ?_, rfl, rfl, ?_, by omega, by omega⟩
    · rw [drain, delivered]
      simp
    · intro i hi
      omega
  | succ fuel ih =>
    rw [drain]
    by_cases hroom : s.read < count
    · rw [if_pos hroom]
      cases hb : tryReadByte (line s.poll) with
      | none =>
        refine ⟨0, 1, ?_, ?_, rfl, ?_, by omega, fun _ => hb⟩
        · simp [delivered]
        · rw [delivered_succ, hb]
          rfl
        · intro i hi
          omega
      | some b =>
        simp only
        obtain ⟨n, m, heq, hsame, hlen, hbytes, hle, hstop⟩ :=
          ih (s := ⟨writeBytes s.mem (buf + s.read) [b], s.read + 1, s.poll + 1⟩)
            (show count ≤ s.read + 1 + fuel by omega)
        simp only at heq hsame hlen hbytes hle hstop
        have hcons := delivered_cons hb
        refine ⟨n + 1, m + 1, ?_, ?_, ?_, ?_, by omega, ?_⟩
        · have hstore := writeBytes_append s.mem (buf + s.read) [b] (delivered line (s.poll + 1) n)
          rw [heq, hcons, Nat.add_comm n 1, Nat.add_comm m 1, ← Nat.add_assoc, ← Nat.add_assoc,
            ← Nat.add_assoc]
          exact congrArg (DrainState.mk · _ _) hstore
        · rw [hcons, hcons, hsame]
        · rw [hcons, List.length_cons, hlen]
        · intro i hi
          cases i with
          | zero =>
            rw [Nat.add_zero, hb]
            exact Option.some_ne_none b
          | succ i =>
            rw [Nat.add_comm i 1, ← Nat.add_assoc]
            exact hbytes i (by omega)
        · intro hlt
          rw [Nat.add_comm n 1, ← Nat.add_assoc]
          exact hstop (by omega)
    · rw [if_neg hroom]
      refine ⟨0, 0, ?_, rfl, rfl, ?_, by omega, by omega⟩
      · rw [delivered]
        simp
      · intro i hi
        omega

/-! ## The call -/

/-- What the call does on a line whose first byte is at poll `f`: it takes that byte and `n` more
from the polls right behind it, and as many as there is room for. -/
theorem readStdin_eq {f : Nat} (hf : FirstByte line f) {buf : Nat} (hbuf : buf ≠ 0) (mem : Store)
    (count : UInt64) :
    ∃ n k, (∀ fuel, f < fuel → readStdin line fuel mem buf count =
        some (asI64 (n + 1), writeBytes mem buf (delivered line 0 k), k)) ∧
      delivered line 0 k = delivered line f (n + 1) ∧ (delivered line f (n + 1)).length = n + 1 ∧
      (∀ i ≤ n, tryReadByte (line (f + i)) ≠ none) ∧ n + 1 ≤ max 1 count.toNat ∧
      (n + 1 < count.toNat → tryReadByte (line (f + (n + 1))) = none) := by
  obtain ⟨b, hb⟩ := Option.ne_none_iff_exists'.1 hf.2
  obtain ⟨n, m, heq, hsame, hlen, hbytes, hle, hstop⟩ :=
    drain_spec line buf (s := ⟨writeBytes mem buf [b], 1, f + 1⟩)
      (show count.toNat ≤ 1 + count.toNat by omega)
  simp only at heq hsame hlen hbytes hle hstop
  have hall : delivered line 0 (f + 1 + m) = b :: delivered line (f + 1) n := by
    rw [delivered_add, delivered_add, delivered_of_silent (by simpa using hf.1), Nat.zero_add,
      Nat.zero_add, delivered_cons hb, hsame]
    rfl
  have hfirst := delivered_cons hb n
  refine ⟨n, f + 1 + m, ?_, hall.trans hfirst.symm, ?_, ?_, by omega, ?_⟩
  · intro fuel hfuel
    have hwait : waitFirst line fuel 0 = some (b, f + 1) := by
      have h := waitFirst_eq (k := 0) (by simpa using hf.1) (by simpa using hb) hfuel
      rwa [Nat.zero_add] at h
    have hstore := writeBytes_append mem buf [b] (delivered line (f + 1) n)
    rw [readStdin, if_neg hbuf, hwait, Option.map_some]
    simp only [heq]
    rw [hall, Nat.add_comm 1 n]
    exact congrArg (fun mem' => some (asI64 (n + 1), mem', f + 1 + m)) hstore
  · rw [hfirst, List.length_cons, hlen]
  · intro i hi
    cases i with
    | zero => exact hf.2
    | succ i =>
      rw [Nat.add_comm i 1, ← Nat.add_assoc]
      exact hbytes i (by omega)
  · intro hlt
    rw [Nat.add_comm n 1, ← Nat.add_assoc]
    exact hstop (by omega)

/-- The call returns some `r ≤ count`, stores the `r` bytes that it took from the line at the
start of the buffer, and leaves what is behind the buffer. -/
def KeepsToBuffer (line : Nat → SerialPoll) (mem : Store) (buf : Nat) (count : UInt64) : Prop :=
  ∃ (enough r k : Nat) (mem' : Store),
    (∀ fuel, enough ≤ fuel → readStdin line fuel mem buf count = some ((r : Int), mem', k)) ∧
      r ≤ count.toNat ∧ (delivered line 0 k).length = r ∧
      mem' = writeBytes mem buf (delivered line 0 k) ∧
      ∀ a, buf + count.toNat ≤ a → mem' a = mem a

/-- A number of bytes is returned as it is when it is an `i64`. -/
theorem asI64_eq_iff {r r' : Nat} (hr : r < 2 ^ 64) : asI64 r = (r' : Int) ↔ r = r' ∧ r < 2 ^ 63 := by
  unfold asI64
  split
  · omega
  · omega

/-- The call keeps to its buffer if and only if the buffer has room for the byte that it waits
for, and it does not return more than 2^63 - 1 bytes: the buffer is smaller, or a poll without a
byte comes before. -/
theorem readStdin_sound_iff {line : Nat → SerialPoll} {f : Nat} (hf : FirstByte line f)
    {buf : Nat} (hbuf : buf ≠ 0) (mem : Store) (count : UInt64) :
    KeepsToBuffer line mem buf count ↔
      0 < count.toNat ∧ (count.toNat < 2 ^ 63 ∨
        ∃ i, f < i ∧ i < f + 2 ^ 63 ∧ tryReadByte (line i) = none) := by
  obtain ⟨n, k, heq, htaken, hlen, hbytes, hle, hstop⟩ := readStdin_eq hf hbuf mem count
  rw [← htaken] at hlen
  have hcount := count.toNat_lt
  have hr : n + 1 < 2 ^ 64 := by omega
  constructor
  · rintro ⟨enough, r, k', mem', hret, hrle, -⟩
    have hsame := (heq (max enough (f + 1)) (by omega)).symm.trans
      (hret (max enough (f + 1)) (by omega))
    simp only [Option.some.injEq, Prod.mk.injEq] at hsame
    obtain ⟨rfl, hsmall⟩ := (asI64_eq_iff hr).1 hsame.1
    refine ⟨by omega, ?_⟩
    by_cases hfull : n + 1 < count.toNat
    · exact Or.inr ⟨f + (n + 1), by omega, by omega, hstop hfull⟩
    · exact Or.inl (by omega)
  · rintro ⟨hpos, hsmall⟩
    have hr63 : n + 1 < 2 ^ 63 := by
      rcases hsmall with hsmall | ⟨i, hfi, hi, hidle⟩
      · omega
      · by_contra hlong
        refine hbytes (i - f) (by omega) ?_
        rwa [show f + (i - f) = i by omega]
    refine ⟨f + 1, n + 1, k, _, ?_, by omega, hlen, rfl, ?_⟩
    · intro fuel hfuel
      rw [heq fuel (by omega), (asI64_eq_iff hr).2 ⟨rfl, hr63⟩]
    · intro a ha
      apply writeBytes_out
      omega

/-- A byte and then silence, for a buffer of four bytes. -/
theorem readStdin_sound_iff_one :
    KeepsToBuffer (fun k => if k = 0 then ⟨1, 0x61⟩ else ⟨0, 0⟩) (fun _ => 0) 0x1000 4 :=
  (readStdin_sound_iff (f := 0) ⟨fun i hi => absurd hi (Nat.not_lt_zero i), by decide⟩
    (by decide) (fun _ => 0) 4).2 ⟨by decide, Or.inl (by decide)⟩

/-- With a count of 0 the byte is stored, behind the buffer. -/
theorem not_keepsToBuffer_zero :
    ¬ KeepsToBuffer (fun k => if k = 0 then ⟨1, 0x61⟩ else ⟨0, 0⟩) (fun _ => 0) 0x1000 0 := by
  rintro ⟨enough, r, k, mem', hret, hrle, -⟩
  have h := hret (enough + 1) (by omega)
  have hone : readStdin (fun k => if k = 0 then ⟨1, 0x61⟩ else ⟨0, 0⟩) (enough + 1) (fun _ => 0)
      0x1000 0 = some (1, writeBytes (fun _ => 0) 0x1000 [0x61], 1) := rfl
  rw [hone] at h
  simp only [Option.some.injEq, Prod.mk.injEq] at h
  have hzero : (0 : UInt64).toNat = 0 := rfl
  omega

/-! ## The bytes that wait -/

variable {τ : Type}

/-- The call of `Dispatch`, where the bytes that wait at the line come in consecutive polls, up
to one without a byte. -/
theorem sysRead_stdin {line : Nat → SerialPoll} {f : Nat} (hf : FirstByte line f) {env : Env}
    (hserial : env.serial ≠ []) (hwait : delivered line f env.serial.length = env.serial)
    (hidle : tryReadByte (line (f + env.serial.length)) = none) (v : Vfs (Devices × τ))
    (m : Machine τ) {buf : Nat} (hbuf : buf ≠ 0) (count : UInt64) {fuel : Nat} (hfuel : f < fuel) :
    ∃ ret bytes k, (sysRead v env m 0 buf count.toNat).1 = ⟨some ret, [(buf, bytes)]⟩ ∧
      readStdin line fuel env.mem buf count = some (ret, writeBytes env.mem buf bytes, k) := by
  obtain ⟨n, k, heq, htaken, hlen, hbytes, hle, hstop⟩ := readStdin_eq hf hbuf env.mem count
  have hlt : n < env.serial.length := by
    by_contra hge
    exact hbytes env.serial.length (by omega) hidle
  have htaken' : env.serial.take (n + 1) = delivered line f (n + 1) := by
    obtain ⟨j, hj⟩ : ∃ j, env.serial.length = n + 1 + j := ⟨env.serial.length - (n + 1), by omega⟩
    rw [hj, delivered_add] at hwait
    rw [← hwait, List.take_left' hlen]
  have htake : env.serial.take (max 1 count.toNat) = delivered line f (n + 1) := by
    by_cases hfull : n + 1 = max 1 count.toNat
    · rw [← hfull, htaken']
    · -- the drain stopped early: the bytes that wait are used up
      have hstopped := hstop (by omega)
      have hend : env.serial.length = n + 1 := by
        by_contra hmore
        exact delivers_of_length (congrArg List.length hwait) (by omega) hstopped
      rw [← htaken', List.take_of_length_le (by omega), List.take_of_length_le (by omega)]
  refine ⟨asI64 (n + 1), delivered line f (n + 1), k, ?_, ?_⟩
  · rw [sysRead, if_neg hbuf, if_pos (by decide), if_neg hserial]
    simp only [htake, hlen]
  · rw [heq fuel hfuel, htaken]

end AeroOS.Syscalls
