import AeroOS.Proc.Lifecycle

/-!
# Which signals terminate

A signal other than the two termination signals sets a bit of the pending mask;
`deliver_pending_into` reads two bits of the mask later.  The first function
takes the bit from the signal number modulo 32, so signals share bits.

* `hasPending_eq` and `hasPending_post`: the two bits, before and after a signal.
* `deliverTo_mortal`, `deliverTo_spared`: what one delivery does.
* `not_diesBySignal_iff`: after any number of deliveries.
-/

namespace AeroOS.Proc

/-! ## The pending bits -/

theorem and_shift_ne_zero (x : BitVec 32) {k : Nat} (hk : k < 32) :
    (x &&& (1#32 <<< k) != 0) = x.getLsbD k := by
  rw [← BitVec.twoPow_eq, BitVec.and_twoPow]
  cases h : x.getLsbD k with
  | false => rfl
  | true =>
    have hne : BitVec.twoPow 32 k ≠ 0#32 := fun he => by
      have hbit := congrArg (·.getLsbD k) he
      simp [hk] at hbit
    simpa using hne

namespace Process

/-- The process with one more pending bit. -/
def post (p : Process) (k : Nat) : Process :=
  { p with pendingSignals := p.pendingSignals ||| (1#32 <<< k) }

theorem hasPending_eq (p : Process) {signum : Nat} (h : signum - 1 < 32) :
    p.hasPending signum = p.pendingSignals.getLsbD (signum - 1) :=
  and_shift_ne_zero _ h

theorem hasPending_post (p : Process) {k signum : Nat} (hk : k < 32) (h : signum - 1 < 32) :
    (p.post k).hasPending signum = (p.hasPending signum || k == signum - 1) := by
  rw [hasPending_eq _ h, hasPending_eq _ h, post, BitVec.getLsbD_or, ← BitVec.twoPow_eq,
    BitVec.getLsbD_twoPow]
  simp [hk, beq_eq_decide]

/-- A delivery to the process kills it. -/
def Mortal (p : Process) : Prop := p.hasPending SIGKILL = true ∨ p.hasPending SIGTERM = true

instance (p : Process) : Decidable p.Mortal := inferInstanceAs (Decidable (_ ∨ _))

/-- The signal whose bit is set is fatal when its bit is that of a termination
signal. -/
theorem mortal_post (p : Process) {k : Nat} (hk : k < 32) :
    (p.post k).Mortal ↔ p.Mortal ∨ k = 8 ∨ k = 14 := by
  unfold Mortal
  rw [hasPending_post p hk (by decide), hasPending_post p hk (by decide)]
  simp only [Bool.or_eq_true, beq_iff_eq, SIGKILL, SIGTERM]
  tauto

end Process

/-! ## Deliveries -/

namespace ProcessTable

variable {t : ProcessTable} {pid signum n : Nat}

/-- A delivery to a process with one of the two bits kills it. -/
theorem deliverTo_mortal {p : Process} (h : p.Mortal) : (deliverTo p).state = .zombie := by
  have hne : p.pendingSignals ≠ 0 := fun h0 => by
    unfold Process.Mortal Process.hasPending at h
    rw [h0] at h
    exact absurd h (by decide)
  unfold deliverTo
  rw [if_neg hne]
  split
  · rfl
  · split
    · rfl
    · rename_i h9 h15
      exact absurd h (not_or.2 ⟨h9, h15⟩)

/-- A delivery to any other process leaves it as it is. -/
theorem deliverTo_spared {p : Process} (h : ¬ p.Mortal) : deliverTo p = p := by
  unfold Process.Mortal at h
  rw [not_or] at h
  unfold deliverTo
  split
  · rfl
  · rw [if_neg h.1, if_neg h.2]
    rw [p.hasPending_eq (by decide), p.hasPending_eq (by decide)] at h
    have hmask : p.pendingSignals &&&
        ~~~((1#32 <<< (SIGKILL - 1)) ||| (1#32 <<< (SIGTERM - 1))) = p.pendingSignals := by
      refine BitVec.eq_of_getLsbD_eq fun i hi => ?_
      rw [← BitVec.twoPow_eq, ← BitVec.twoPow_eq, BitVec.getLsbD_and, BitVec.getLsbD_not,
        BitVec.getLsbD_or, BitVec.getLsbD_twoPow, BitVec.getLsbD_twoPow]
      by_cases h8 : SIGKILL - 1 = i
      · rw [← h8, Bool.eq_false_iff.2 h.1]
        rfl
      · by_cases h14 : SIGTERM - 1 = i
        · rw [← h14, Bool.eq_false_iff.2 h.2]
          rfl
        · simp [h8, h14, hi]
    rw [hmask]

/-- An edit that keeps the pids is seen by the lookup. -/
theorem get_modify {f : Process → Process} (hf : ∀ p, (f p).pid = p.pid) :
    (t.modify pid f).get pid = (t.get pid).map f := by
  rw [get, get, slotOf_modify hf]
  cases hi : t.slotOf pid with
  | none => rfl
  | some i => rw [Option.map_some, modify_processes, if_pos hi]; rfl

/-- The current process after deliveries. -/
theorem get_deliverPendingInto (hcur : t.currentPid = pid) (hpid : pid ≠ 0) (n : Nat) :
    (deliverPendingInto^[n] t).get pid = (t.get pid).map deliverTo^[n] := by
  induction n generalizing t with
  | zero => rw [Function.iterate_zero, Function.iterate_zero, Option.map_id, id, id]
  | succ n ih =>
    have hstep : t.deliverPendingInto = t.modify pid deliverTo := by
      rw [deliverPendingInto, hcur, if_neg hpid]
    rw [Function.iterate_succ_apply, hstep, ih (by exact hcur),
      get_modify fun p => (deliverTo_kept p).1, Option.map_map, ← Function.iterate_succ]

/-- Delivery makes a process a zombie: it is not one when `sys_kill` is called,
and after some deliveries with the process as current process it is. -/
def DiesBySignal (t : ProcessTable) (pid signum : Nat) : Prop :=
  ∃ n p q, t.get pid = some p ∧ p.state ≠ .zombie ∧
    (deliverPendingInto^[n] ((t.sysKill pid signum).2.setCurrent pid)).get pid = some q ∧
      q.state = .zombie

/-- What keeps a process alive: it has no bit of a termination signal, and the
signal does not set one. -/
def Spared (t : ProcessTable) (pid signum : Nat) : Prop :=
  pid = 0 ∨ ∀ p, t.get pid = some p → p.state = .zombie ∨
    ¬ p.Mortal ∧ (p.state = .free ∨ signum % 32 ≠ 9 ∧ signum % 32 ≠ 15)

/-- Some number of deliveries makes a process a zombie when the first one
does. -/
theorem exists_deliverTo_zombie {p : Process} (hz : p.state ≠ .zombie) :
    (∃ n, (deliverTo^[n] p).state = .zombie) ↔ p.Mortal := by
  refine ⟨fun ⟨n, hn⟩ => ?_, fun h => ⟨1, deliverTo_mortal h⟩⟩
  by_contra h
  rw [Function.iterate_fixed (deliverTo_spared h)] at hn
  exact hz hn

/-- What `sys_kill` does to a process with a signal that is not a termination
signal. -/
def signalled (signum : Nat) (p : Process) : Process :=
  if p.state = .free then p else p.post ((signum + 255) % 256 % 32)

theorem get_sysKill (hpid : pid ≠ 0) (h1 : 1 ≤ signum) (h9 : signum ≠ 9) (h15 : signum ≠ 15) :
    (t.sysKill pid signum).2.get pid = (t.get pid).map (signalled signum) := by
  have hsend : (t.sysKill pid signum).2 = (t.sendSignal pid signum).2 := by
    rw [sysKill, if_neg hpid, if_neg (by omega), signal,
      if_neg (by simp only [SIGKILL, SIGTERM]; omega)]
    rcases t.sendSignal pid signum with ⟨_ | _, t'⟩ <;> rfl
  rw [hsend, sendSignal]
  cases hp : t.get pid with
  | none => exact hp
  | some p =>
    simp only [Option.map_some, signalled]
    split
    · exact hp
    · show (t.modify pid fun p => p.post ((signum + 255) % 256 % 32)).get pid = _
      have hpost : ∀ q : Process, (q.post ((signum + 255) % 256 % 32)).pid = q.pid := fun _ => rfl
      rw [get_modify hpost, hp]
      rfl

theorem signalled_state (signum : Nat) (p : Process) : (signalled signum p).state = p.state := by
  unfold signalled
  split <;> rfl

theorem signalled_mortal (signum : Nat) (p : Process) :
    (signalled signum p).Mortal ↔
      p.Mortal ∨ p.state ≠ .free ∧ (signum % 32 = 9 ∨ signum % 32 = 15) := by
  unfold signalled
  split
  · rename_i hf
    simp [hf]
  · rename_i hf
    rw [p.mortal_post (Nat.mod_lt _ (by decide))]
    have h9 : (signum + 255) % 256 % 32 = 8 ↔ signum % 32 = 9 := by omega
    have h15 : (signum + 255) % 256 % 32 = 14 ↔ signum % 32 = 15 := by omega
    rw [h9, h15]
    simp [hf]

/-- A signal other than `SIGKILL` and `SIGTERM` terminates nobody exactly when
its number is not one of theirs modulo 32 and the target has no bit of theirs
from before. -/
theorem not_diesBySignal_iff (h1 : 1 ≤ signum) (h9 : signum ≠ 9) (h15 : signum ≠ 15) :
    ¬ DiesBySignal t pid signum ↔ Spared t pid signum := by
  by_cases hpid : pid = 0
  · subst hpid
    refine iff_of_true ?_ (Or.inl rfl)
    rintro ⟨n, p, q, hp, hz, hq, hqz⟩
    have hfix : deliverPendingInto (t.setCurrent 0) = t.setCurrent 0 := rfl
    rw [show (t.sysKill 0 signum).2 = t from rfl, Function.iterate_fixed hfix] at hq
    obtain rfl := Option.some.inj (hp.symm.trans hq)
    exact hz hqz
  · have hget : ∀ n, (deliverPendingInto^[n] ((t.sysKill pid signum).2.setCurrent pid)).get pid =
        ((t.get pid).map (signalled signum)).map deliverTo^[n] := fun n => by
      have hcur : ((t.sysKill pid signum).2.setCurrent pid).currentPid = pid := rfl
      rw [get_deliverPendingInto hcur hpid n, ← get_sysKill hpid h1 h9 h15]
      rfl
    unfold DiesBySignal Spared
    simp only [hget, hpid, false_or]
    cases t.get pid with
    | none => simp
    | some p =>
      have hex : (∃ n, (deliverTo^[n] (signalled signum p)).state = .zombie) ↔
          p.state = .zombie ∨ (signalled signum p).Mortal := by
        by_cases hz : p.state = .zombie
        · exact iff_of_true ⟨0, (signalled_state signum p).trans hz⟩ (Or.inl hz)
        · rw [exists_deliverTo_zombie (by rwa [signalled_state]), or_iff_right hz]
      rw [signalled_mortal] at hex
      have hdies : (∃ n p' q, some p = some p' ∧ p'.state ≠ .zombie ∧
          ((some p).map (signalled signum)).map deliverTo^[n] = some q ∧ q.state = .zombie) ↔
            p.state ≠ .zombie ∧ ∃ n, (deliverTo^[n] (signalled signum p)).state = .zombie := by
        constructor
        · rintro ⟨n, p', q, hp, hz, hq, hqz⟩
          cases hp
          cases hq
          exact ⟨hz, n, hqz⟩
        · rintro ⟨hz, n, hq⟩
          exact ⟨n, p, _, rfl, hz, rfl, hq⟩
      rw [hdies, hex]
      simp only [Option.some.injEq, forall_eq']
      tauto

/-- A table with one process, which is running. -/
def oneProcess : ProcessTable :=
  { ProcessTable.new.setSlot 0 { fresh 1 0 [] with state := .running } with
    nextPid := 2
    currentPid := 1 }

/-- Signal 41 has the pending bit of `SIGKILL`. -/
theorem diesBySignal_41 : DiesBySignal oneProcess 1 41 :=
  ⟨1, _, _, rfl, by decide, rfl, by decide⟩

/-- Signal 1 does not terminate. -/
theorem not_diesBySignal_iff_1 : ¬ DiesBySignal oneProcess 1 1 := by
  refine (not_diesBySignal_iff (by decide) (by decide) (by decide)).2 (Or.inr fun p hp => ?_)
  cases hp
  decide

end ProcessTable

end AeroOS.Proc
