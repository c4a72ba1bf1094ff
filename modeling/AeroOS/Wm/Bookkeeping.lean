import Mathlib.Data.Fintype.Card
import AeroOS.Lib.Run
import AeroOS.Wm.Window

/-!
# The bookkeeping of the window list

Applications create, destroy, move, raise and focus windows by id, in any order.

* `Consistent` is the invariant: the counter is the number of live slots, live ids differ,
  and the next id is above all of them until it wraps.
* `Consistent.after`: a call keeps it, unless its id is 0 and finds an empty slot, or the
  next id has wrapped to 0.
* `bookkeeping`: what holds after every run of such calls.
-/

namespace AeroOS.Wm

open Run

namespace WindowList

variable {l : WindowList} {i j : Fin MAX_WINDOWS} {id : UInt32}

/-! ## Live slots -/

/-- The slots with a non-zero id. -/
def live (l : WindowList) : Finset (Fin MAX_WINDOWS) :=
  Finset.univ.filter fun i => (l.windows i).Live

@[simp] theorem mem_live : i ∈ l.live ↔ (l.windows i).id ≠ 0 := by
  rw [live, Finset.mem_filter]
  exact and_iff_right (Finset.mem_univ i)

theorem live_eq_univ : l.live = Finset.univ ↔ ∀ i, (l.windows i).id ≠ 0 := by
  simp [Finset.eq_univ_iff_forall]

theorem card_live_le (l : WindowList) : l.live.card ≤ MAX_WINDOWS := by
  have hle := Finset.card_le_univ l.live
  rwa [Fintype.card_fin] at hle

theorem card_live_eq : l.live.card = MAX_WINDOWS ↔ l.live = Finset.univ := by
  rw [← Finset.card_eq_iff_eq_univ, Fintype.card_fin]

/-- The live slots depend on the ids only. -/
theorem live_congr {l' : WindowList} (h : SameIds l l') : l'.live = l.live := by
  ext i
  rw [mem_live, mem_live, h.id]

/-- A slot that gets a window. -/
theorem live_update_of_ne {l' : WindowList} {w : Window}
    (h : l'.windows = Function.update l.windows i w) (hw : w.id ≠ 0) :
    l'.live = insert i l.live := by
  ext j
  rw [Finset.mem_insert, mem_live, mem_live, h]
  by_cases hji : j = i
  · subst hji
    simp [hw]
  · simp [hji]

/-- A slot that is emptied. -/
theorem live_update_empty {l' : WindowList}
    (h : l'.windows = Function.update l.windows i .empty) : l'.live = l.live.erase i := by
  ext j
  rw [Finset.mem_erase, mem_live, mem_live, h]
  by_cases hji : j = i
  · subst hji
    simp
  · simp [hji]

/-- No live window has the id. -/
def NamesNone (l : WindowList) (id : UInt32) : Prop := ∀ i ∈ l.live, (l.windows i).id ≠ id

/-! ## Calls -/

/-- A call of an application. -/
inductive Op where
  | create (x y : Int32) (width height : UInt32) (title : List UInt8)
      (contentBuf contentLen : Nat)
  | destroy (id : UInt32)
  | moveWindow (id : UInt32) (x y : Int32)
  | raiseToTop (id : UInt32)
  | setFocus (id : UInt32)

/-- The list after a call. -/
def after (l : WindowList) : Op → WindowList
  | .create x y width height title contentBuf contentLen =>
    (l.create x y width height title contentBuf contentLen).2
  | .destroy id => (l.destroy id).2
  | .moveWindow id x y => (l.moveWindow id x y).2
  | .raiseToTop id => (l.raiseToTop id).2
  | .setFocus id => l.setFocus id

/-- What a call with an id returns; `set_focus` returns nothing. -/
def answer (l : WindowList) : Op → Option Bool
  | .destroy id => some (l.destroy id).1
  | .moveWindow id x y => some (l.moveWindow id x y).1
  | .raiseToTop id => some (l.raiseToTop id).1
  | .create .. | .setFocus _ => none

/-- The id that a call names. -/
def Op.names : Op → Option UInt32
  | .create .. => none
  | .destroy id | .moveWindow id _ _ | .raiseToTop id | .setFocus id => some id

/-- The call does not take an empty slot for a window with the id 0: no window is created
with that id, and none is destroyed, moved or raised, unless there is no empty slot. -/
def Tame (l : WindowList) : Op → Prop
  | .create .. => l.nextId ≠ 0 ∨ l.live = Finset.univ
  | .destroy id | .moveWindow id _ _ | .raiseToTop id => id ≠ 0 ∨ l.live = Finset.univ
  | .setFocus _ => True

/-! ## The invariant -/

/-- The counter and the ids agree with the slots. -/
structure Consistent (l : WindowList) : Prop where
  count : l.count.toNat = l.live.card
  distinct : ∀ i ∈ l.live, ∀ j ∈ l.live, (l.windows i).id = (l.windows j).id → i = j
  fresh : l.nextId = 0 ∨ ∀ i ∈ l.live, (l.windows i).id < l.nextId

theorem consistent_new : Consistent new where
  count := by decide
  distinct := by decide
  fresh := by decide

/-- What does not change an id, the counter or the next id keeps the invariant. -/
theorem Consistent.congr (h : Consistent l) {l' : WindowList} (hs : SameIds l l') :
    Consistent l' := by
  have hlive := live_congr hs
  constructor
  · rw [hs.count, hlive]
    exact h.count
  · rw [hlive]
    intro i hi j hj heq
    rw [hs.id, hs.id] at heq
    exact h.distinct i hi j hj heq
  · rw [hs.nextId, hlive]
    rcases h.fresh with h0 | hlt
    · exact Or.inl h0
    · right
      intro i hi
      rw [hs.id]
      exact hlt i hi

/-- A search for an id that is not 0, or in a list without empty slots, finds a live
window. -/
theorem live_of_slotOf (h : (l.windows i).id = id) (hid : id ≠ 0 ∨ l.live = Finset.univ) :
    i ∈ l.live := by
  rcases hid with hid | hfull
  · rw [mem_live, h]
    exact hid
  · rw [hfull]
    exact Finset.mem_univ i

theorem Consistent.create (h : Consistent l) (hnext : l.nextId ≠ 0 ∨ l.live = Finset.univ)
    (x y : Int32) (width height : UInt32) (title : List UInt8) (contentBuf contentLen : Nat) :
    Consistent (l.create x y width height title contentBuf contentLen).2 := by
  rcases l.create_cases x y width height title contentBuf contentLen with
    ⟨heq, -⟩ | ⟨i, hi, hcount, heq⟩
  · rw [heq]
    exact h
  · have hnext : l.nextId ≠ 0 := by
      rcases hnext with hnext | hfull
      · exact hnext
      · exact absurd hi (live_eq_univ.1 hfull i)
    have hlt := h.fresh.resolve_left hnext
    have hfree : i ∉ l.live := by simp [hi]
    rw [heq]
    set w := l.newWindow x y width height title contentBuf contentLen
    have hw : w.id = l.nextId := rfl
    set l' : WindowList := ⟨Function.update l.windows i w, l.count + 1, l.nextId + 1, l.nextZ + 1⟩
    have hlive : l'.live = insert i l.live := live_update_of_ne rfl (by rw [hw]; exact hnext)
    have hself : (l'.windows i).id = l.nextId := by
      show (Function.update l.windows i w i).id = l.nextId
      rw [Function.update_self, hw]
    have hold : ∀ j ∈ l.live, (l'.windows j).id = (l.windows j).id := by
      intro j hj
      show (Function.update l.windows i w j).id = _
      rw [Function.update_of_ne]
      rintro rfl
      exact hfree hj
    constructor
    · rw [hlive, Finset.card_insert_of_notMem hfree, ← h.count]
      show (l.count + 1).toNat = _
      rw [UInt64.toNat_add]
      have hmax : l.count.toNat < 16 := hcount
      have hone : (1 : UInt64).toNat = 1 := rfl
      omega
    · have hdistinct := Cells.eq_of_update (a := l.windows) (i := i) (x := w) (p := Window.Live)
        (r := fun v v' => v.id = v'.id) (fun _ _ => Eq.symm)
        (fun j k hj hk => h.distinct j (mem_live.2 hj) k (mem_live.2 hk)) (by
          intro _ j _ hj heq
          have hidlt := hlt j (mem_live.2 hj)
          rw [heq] at hidlt
          exact UInt32.lt_irrefl _ hidlt)
      intro j hj k hk
      exact hdistinct j k (mem_live.1 hj) (mem_live.1 hk)
    · rw [hlive]
      by_cases hwrap : l.nextId + 1 = 0
      · exact Or.inl hwrap
      · right
        have hsucc : l.nextId < l.nextId + 1 := by grind
        intro j hj
        show (l'.windows j).id < l.nextId + 1
        rcases Finset.mem_insert.1 hj with rfl | hj
        · rw [hself]
          exact hsucc
        · rw [hold j hj]
          exact UInt32.lt_trans (hlt j hj) hsucc

theorem Consistent.destroy (h : Consistent l) (hid : id ≠ 0 ∨ l.live = Finset.univ) :
    Consistent (l.destroy id).2 := by
  unfold WindowList.destroy
  rcases l.withSlot_cases id _ with ⟨heq, -⟩ | ⟨i, -, hi, heq⟩
  · rw [heq]
    exact h
  · have hmem := live_of_slotOf hi hid
    rw [heq]
    set l' : WindowList :=
      { l with windows := Function.update l.windows i .empty, count := l.count - 1 }
    have hlive : l'.live = l.live.erase i := live_update_empty rfl
    have hold : ∀ j ∈ l'.live, j ∈ l.live ∧ (l'.windows j).id = (l.windows j).id := by
      intro j hj
      rw [hlive] at hj
      refine ⟨Finset.mem_of_mem_erase hj, ?_⟩
      show (Function.update l.windows i .empty j).id = _
      rw [Function.update_of_ne (Finset.ne_of_mem_erase hj)]
    constructor
    · have hpos : 0 < l.live.card := Finset.card_pos.2 ⟨i, hmem⟩
      have hcount := h.count
      have hone : (1 : UInt64) ≤ l.count := by
        rw [UInt64.le_iff_toNat_le, hcount]
        exact hpos
      rw [hlive, Finset.card_erase_of_mem hmem, ← hcount]
      exact UInt64.toNat_sub_of_le _ _ hone
    · intro j hj k hk hjk
      rw [(hold j hj).2, (hold k hk).2] at hjk
      exact h.distinct j (hold j hj).1 k (hold k hk).1 hjk
    · rcases h.fresh with h0 | hlt
      · exact Or.inl h0
      · right
        intro j hj
        rw [(hold j hj).2]
        exact hlt j (hold j hj).1

/-- A call keeps the invariant. -/
theorem Consistent.after (h : Consistent l) {op : Op} (hop : l.Tame op) :
    Consistent (l.after op) := by
  cases op with
  | create x y width height title contentBuf contentLen =>
    exact h.create hop x y width height title contentBuf contentLen
  | destroy id => exact h.destroy hop
  | moveWindow id x y => exact h.congr (sameIds_moveWindow l id x y)
  | raiseToTop id => exact h.congr (sameIds_raiseToTop l id)
  | setFocus id => exact h.congr (sameIds_setFocus l id)

/-- A run of calls keeps the invariant. -/
theorem consistent_of_run {ops : List Op} (h : Consistent l)
    (hops : AllOk WindowList.after Tame l ops) : Consistent (ops.foldl WindowList.after l) := by
  refine (Reaches.foldl hops).invariant ?_ h
  intro s op s' hs hop hstep
  rw [hstep]
  exact hs.after hop

/-! ## What follows -/

/-- `create` fails exactly when all slots are live. -/
theorem Consistent.create_eq_zero_iff (h : Consistent l)
    (hnext : l.nextId ≠ 0 ∨ l.live = Finset.univ) (x y : Int32) (width height : UInt32)
    (title : List UInt8) (contentBuf contentLen : Nat) :
    (l.create x y width height title contentBuf contentLen).1 = 0 ↔ l.live = Finset.univ := by
  rcases l.create_cases x y width height title contentBuf contentLen with
    ⟨heq, hfull⟩ | ⟨i, hi, -, heq⟩
  · refine iff_of_true (by rw [heq]) ?_
    rcases hfull with hfull | hfull
    · rw [h.count] at hfull
      exact card_live_eq.1 (Nat.le_antisymm l.card_live_le hfull)
    · exact live_eq_univ.2 hfull
  · have hnot : ¬ l.live = Finset.univ := fun hfull => live_eq_univ.1 hfull i hi
    refine iff_of_false ?_ hnot
    rw [heq]
    exact hnext.resolve_right hnot

/-- A search for an id that no live window has finds nothing, but for the id 0 among empty
slots. -/
theorem withSlot_of_namesNone (h : l.NamesNone id) (hid : id ≠ 0 ∨ l.live = Finset.univ)
    (f : Fin MAX_WINDOWS → WindowList) : l.withSlot id f = (false, l) := by
  rcases l.withSlot_cases id f with ⟨heq, -⟩ | ⟨i, -, hi, -⟩
  · exact heq
  · exact absurd hi (h i (live_of_slotOf hi hid))

/-- What a call does that names no live window.  `set_focus` leaves all windows without
focus. -/
def Refused (l : WindowList) : Op → Prop
  | .setFocus id =>
    let l' := l.setFocus id
    (∀ i ∈ l.live, l'.windows i = { l.windows i with focused := false }) ∧ l'.live = l.live ∧
      l'.count = l.count ∧ l'.nextId = l.nextId ∧ l'.nextZ = l.nextZ
  | op => l.answer op = some false ∧ l.after op = l

theorem refused_of_namesNone {op : Op} (hid : op.names = some id) (hop : l.Tame op)
    (h : l.NamesNone id) : l.Refused op := by
  cases op with
  | create x y width height title contentBuf contentLen => cases hid
  | destroy id' =>
    cases hid
    have heq : l.destroy id = (false, l) := withSlot_of_namesNone h hop _
    exact ⟨by rw [answer, heq], by rw [WindowList.after, heq]⟩
  | moveWindow id' x y =>
    cases hid
    have heq : l.moveWindow id x y = (false, l) := withSlot_of_namesNone h hop _
    exact ⟨by rw [answer, heq], by rw [WindowList.after, heq]⟩
  | raiseToTop id' =>
    cases hid
    have heq : l.raiseToTop id = (false, l) := withSlot_of_namesNone h hop _
    exact ⟨by rw [answer, heq], by rw [WindowList.after, heq]⟩
  | setFocus id' =>
    cases hid
    refine ⟨?_, live_congr (sameIds_setFocus l id), rfl, rfl, rfl⟩
    intro i hi
    have hfocused : ((l.windows i).id == id) = false := by simpa using h i hi
    show { l.windows i with focused := (l.windows i).id == id } = _
    rw [hfocused]

/-- The bookkeeping of the list after a run of calls. -/
theorem bookkeeping {ops : List Op} (hops : AllOk WindowList.after Tame new ops) :
    let l := ops.foldl WindowList.after new
    l.count.toNat = l.live.card ∧
      (∀ i ∈ l.live, ∀ j ∈ l.live, (l.windows i).id = (l.windows j).id → i = j) ∧
      (∀ x y width height title contentBuf contentLen,
        l.Tame (.create x y width height title contentBuf contentLen) →
          ((l.create x y width height title contentBuf contentLen).1 = 0 ↔
            l.live = Finset.univ)) ∧
      ∀ op id, op.names = some id → l.Tame op → l.NamesNone id → l.Refused op := by
  have h := consistent_of_run consistent_new hops
  refine ⟨h.count, h.distinct, ?_, ?_⟩
  · intro x y width height title contentBuf contentLen hop
    exact h.create_eq_zero_iff hop x y width height title contentBuf contentLen
  · intro op id hid hop hnone
    exact refused_of_namesNone hid hop hnone

/-- A window is created and focused, and another id is focused: both calls are tame. -/
theorem bookkeeping_stale_focus :
    let l := [Op.create 0 0 10 10 [] 0 0, .setFocus 1].foldl WindowList.after new
    l.count.toNat = l.live.card ∧ l.Refused (.setFocus 7) := by
  have hops : AllOk WindowList.after Tame new [.create 0 0 10 10 [] 0 0, .setFocus 1] :=
    ⟨Or.inl (by decide), trivial, trivial⟩
  have h := bookkeeping hops
  exact ⟨h.1, h.2.2.2 (.setFocus 7) 7 rfl trivial (by unfold NamesNone; decide)⟩

/-- The list does what is asked of it for any call. -/
def Strict (l : WindowList) : Prop :=
  l.count.toNat = l.live.card ∧
    (∀ i ∈ l.live, ∀ j ∈ l.live, (l.windows i).id = (l.windows j).id → i = j) ∧
    (∀ x y width height title contentBuf contentLen,
      (l.create x y width height title contentBuf contentLen).1 = 0 ↔ l.live = Finset.univ) ∧
    ∀ op id, op.names = some id → l.NamesNone id →
      l.answer op ≠ some true ∧ ∀ i ∈ l.live, (l.after op).windows i = l.windows i

instance : NeZero MAX_WINDOWS := ⟨by decide⟩

/-- The list without windows, when `n` windows have been created and destroyed. -/
def vacated (n : Nat) : WindowList :=
  { new with nextId := UInt32.ofNat (n + 1), nextZ := UInt32.ofNat (n + 1) }

/-- Windows are created and destroyed, `n` of them after the first `k`. -/
def churn : Nat → Nat → List Op
  | _, 0 => []
  | k, n + 1 => .create 0 0 0 0 [] 0 0 :: .destroy (UInt32.ofNat (k + 1)) :: churn (k + 1) n

/-- The list with one window, when `n` have been created and destroyed. -/
def occupied (n : Nat) : WindowList where
  windows := Function.update (vacated n).windows 0 ((vacated n).newWindow 0 0 0 0 [] 0 0)
  count := 1
  nextId := UInt32.ofNat (n + 1) + 1
  nextZ := UInt32.ofNat (n + 1) + 1

theorem create_vacated (n : Nat) :
    (vacated n).create 0 0 0 0 [] 0 0 = (UInt32.ofNat (n + 1), occupied n) := by
  have hslot : (vacated n).slotOf 0 = some 0 := Cells.position_zero rfl
  rw [create, hslot]
  rfl

theorem destroy_occupied (n : Nat) :
    (occupied n).destroy (UInt32.ofNat (n + 1)) = (true, vacated (n + 1)) := by
  have hself : (occupied n).windows 0 = (vacated n).newWindow 0 0 0 0 [] 0 0 := by
    simp only [occupied, Function.update_self]
  have hslot : (occupied n).slotOf (UInt32.ofNat (n + 1)) = some 0 := by
    apply Cells.position_zero
    rw [hself]
    exact beq_self_eq_true _
  have hwindows : Function.update (occupied n).windows 0 .empty = (vacated (n + 1)).windows := by
    show Function.update (Function.update _ _ _) _ _ = _
    rw [Function.update_idem]
    exact Function.update_eq_self_iff.2 rfl
  have hsucc : UInt32.ofNat (n + 1) + 1 = UInt32.ofNat (n + 1 + 1) :=
    (UInt32.ofNat_add (n + 1) 1).symm
  unfold WindowList.destroy withSlot
  rw [hslot]
  show (true, WindowList.mk (Function.update (occupied n).windows 0 .empty) _ _ _) = _
  rw [hwindows]
  simp only [occupied, hsucc]
  rfl

/-- The ids run through all values, with at most one window at a time. -/
theorem churn_run {k n : Nat} (hn : k + n < 2 ^ 32) :
    (churn k n).foldl WindowList.after (vacated k) = vacated (k + n) ∧
      AllOk WindowList.after Tame (vacated k) (churn k n) := by
  induction n generalizing k with
  | zero => exact ⟨rfl, trivial⟩
  | succ n ih =>
    have hcreate : (vacated k).after (.create 0 0 0 0 [] 0 0) = occupied k := by
      rw [WindowList.after, create_vacated]
    have hdestroy : (occupied k).after (.destroy (UInt32.ofNat (k + 1))) = vacated (k + 1) := by
      rw [WindowList.after, destroy_occupied]
    have hid : UInt32.ofNat (k + 1) ≠ 0 := by
      rw [Ne, ← UInt32.toNat_inj, UInt32.toNat_ofNat_of_lt' (show k + 1 < 2 ^ 32 by omega)]
      exact Nat.succ_ne_zero k
    obtain ⟨hfold, hok⟩ := ih (k := k + 1) (by omega)
    rw [churn, List.foldl_cons, List.foldl_cons, hcreate, hdestroy]
    refine ⟨?_, Or.inl hid, ?_⟩
    · rw [hfold, Nat.add_right_comm, Nat.add_assoc]
    · rw [hcreate]
      refine ⟨Or.inl hid, ?_⟩
      rw [hdestroy]
      exact hok

/-- Three ways in which the list does not do what is asked of it: `set_focus` with an id
that no window has takes the focus from the window that has it, `destroy` of 0 finds an empty
slot, and when the ids have run out a window is created with the id 0. -/
theorem not_strict :
    ¬ ([Op.create 0 0 10 10 [] 0 0, .setFocus 1].foldl WindowList.after new).Strict ∧
      ¬ new.Strict ∧
      ¬ ((churn 0 (2 ^ 32 - 1)).foldl WindowList.after new).Strict := by
  refine ⟨?_, ?_, ?_⟩
  · intro h
    have hsame := (h.2.2.2 (.setFocus 7) 7 rfl (by unfold NamesNone; decide)).2 ⟨0, by decide⟩
      (by decide)
    exact absurd (congrArg Window.focused hsame) (by decide)
  · intro h
    exact (h.2.2.2 (.destroy 0) 0 rfl (by unfold NamesNone; decide)).1 (by decide)
  · intro h
    have hend : (churn 0 (2 ^ 32 - 1)).foldl WindowList.after new = vacated (2 ^ 32 - 1) := by
      have hrun := (churn_run (k := 0) (n := 2 ^ 32 - 1) (by omega)).1
      rwa [Nat.zero_add] at hrun
    rw [hend] at h
    have hfull := (h.2.2.1 0 0 0 0 [] 0 0).1 (by rw [create_vacated]; rfl)
    exact live_eq_univ.1 hfull 0 rfl

end WindowList

end AeroOS.Wm
