import Mathlib.Data.List.FinRange
import AeroOS.Wm.Window

/-!
# The order of painting and the hit test

`iter_z_order` sorts slots with an insertion sort; `hit_test` keeps a running maximum.

* `Below` is the order of painting: by z-order, and by slot where the z-orders tie.
* `indices_pairwise` and `indices_perm`: the iterator goes through the shown windows in
  that order.
* `hitTest_loop`: the loop of `hit_test` keeps the greatest in that order.
* `hitTest_eq_lastPainted`: the window under the pointer is the one painted last.
-/

namespace AeroOS.Wm

/-! ## The iterator -/

namespace ZOrderIter

/-- What calls of `next` give. -/
theorem collect_eq (n : Nat) (it : ZOrderIter) :
    it.collect n = ((it.indices.drop it.pos).take n).map it.windows := by
  induction n generalizing it with
  | zero => rw [List.take_zero]; rfl
  | succ n ih =>
    rw [collect, next]
    cases hidx : it.indices[it.pos]? with
    | none =>
      rw [List.drop_eq_nil_of_le (List.getElem?_eq_none_iff.1 hidx)]
      rfl
    | some idx =>
      obtain ⟨hlt, rfl⟩ := List.getElem?_eq_some_iff.1 hidx
      simp only [ih]
      rw [List.drop_eq_getElem_cons hlt, List.take_succ_cons, List.map_cons]

end ZOrderIter

namespace WindowList

variable (l : WindowList)

/-! ## The order -/

/-- The window in slot `i` is painted before the one in slot `j`. -/
def Below (i j : Fin MAX_WINDOWS) : Prop :=
  (l.windows i).zOrder < (l.windows j).zOrder ∨
    (l.windows i).zOrder = (l.windows j).zOrder ∧ i < j

instance : IsTrans (Fin MAX_WINDOWS) l.Below where
  trans i j k hij hjk := by
    unfold Below at *
    simp only [UInt32.lt_iff_toNat_lt, ← UInt32.toNat_inj] at *
    omega

variable {l}

theorem Below.asymm {i j : Fin MAX_WINDOWS} (h : l.Below i j) : ¬ l.Below j i := by
  unfold Below at *
  simp only [UInt32.lt_iff_toNat_lt, ← UInt32.toNat_inj] at *
  omega

theorem Below.zOrder_le {i j : Fin MAX_WINDOWS} (h : l.Below i j) :
    (l.windows i).zOrder ≤ (l.windows j).zOrder := by
  unfold Below at h
  simp only [UInt32.le_iff_toNat_le, UInt32.lt_iff_toNat_lt, ← UInt32.toNat_inj] at *
  omega

/-! ## The slots in order -/

theorem mem_shownSlots {i : Fin MAX_WINDOWS} : i ∈ l.shownSlots ↔ (l.windows i).Shown := by
  simp [shownSlots, Window.Shown]

theorem shownSlots_pairwise : l.shownSlots.Pairwise (· < ·) :=
  (List.pairwise_lt_finRange MAX_WINDOWS).filter _

theorem indices_perm : l.iterZOrder.indices.Perm l.shownSlots := InsertionSort.sort_perm _

theorem mem_indices {i : Fin MAX_WINDOWS} :
    i ∈ l.iterZOrder.indices ↔ (l.windows i).Shown :=
  indices_perm.mem_iff.trans mem_shownSlots

theorem indices_nodup : l.iterZOrder.indices.Nodup :=
  indices_perm.nodup_iff.2 ((List.nodup_finRange MAX_WINDOWS).filter _)

/-- The slots come in the order of painting. -/
theorem indices_pairwise : l.iterZOrder.indices.Pairwise l.Below := by
  apply InsertionSort.sort_pairwise
  refine shownSlots_pairwise.imp ?_
  intro b key hlt
  by_cases hz : (l.windows key).zOrder < (l.windows b).zOrder
  · rw [if_pos (by simpa using hz)]
    exact Or.inl hz
  · rw [if_neg (by simpa using hz)]
    show _ ∨ _
    simp only [UInt32.lt_iff_toNat_lt, ← UInt32.toNat_inj] at *
    omega

theorem length_indices_le : l.iterZOrder.indices.length ≤ MAX_WINDOWS := by
  rw [indices_perm.length_eq]
  exact (List.length_filter_le _ _).trans (List.length_finRange (n := MAX_WINDOWS)).le

theorem zOrdered_eq : l.zOrdered = l.iterZOrder.indices.map l.windows := by
  rw [zOrdered, ZOrderIter.collect_eq]
  show ((l.iterZOrder.indices.drop 0).take _).map _ = _
  rw [List.drop_zero, List.take_of_length_le length_indices_le]
  rfl

/-! ## The running maximum -/

/-- The window in a slot is shown at a point. -/
def Hits (l : WindowList) (px py : Int32) (i : Fin MAX_WINDOWS) : Prop :=
  (l.windows i).Shown ∧ (l.windows i).containsPoint px py = true

/-- `c` is the last of the slots `is` at a point, in the order of painting. -/
def Topmost (l : WindowList) (px py : Int32) (is : List (Fin MAX_WINDOWS))
    (c : Fin MAX_WINDOWS) : Prop :=
  c ∈ is ∧ l.Hits px py c ∧ ∀ d ∈ is, l.Hits px py d → d = c ∨ l.Below d c

/-- One slot is the topmost of a list. -/
theorem Topmost.unique {px py : Int32} {is is' : List (Fin MAX_WINDOWS)}
    {c c' : Fin MAX_WINDOWS} (h : l.Topmost px py is c) (h' : l.Topmost px py is' c')
    (hsub : c ∈ is') (hsub' : c' ∈ is) : c = c' := by
  rcases h'.2.2 c hsub h.2.1 with heq | hbelow
  · exact heq
  · rcases h.2.2 c' hsub' h'.2.1 with heq | hbelow'
    · exact heq.symm
    · exact absurd hbelow' hbelow.asymm

theorem hitStep_of_not_hits {px py : Int32} {i : Fin MAX_WINDOWS} (h : ¬ l.Hits px py i)
    (best : UInt32 × UInt32) : hitStep px py best (l.windows i) = best := by
  unfold hitStep
  split
  · rfl
  · rename_i hshown
    rw [not_or] at hshown
    rw [if_neg]
    intro hhit
    rw [Bool.and_eq_true] at hhit
    exact h ⟨⟨hshown.1, Bool.eq_true_of_not_eq_false hshown.2⟩, hhit.1⟩

theorem hitStep_of_hits {px py : Int32} {i : Fin MAX_WINDOWS} (h : l.Hits px py i)
    (best : UInt32 × UInt32) :
    hitStep px py best (l.windows i) =
      if best.1 ≤ (l.windows i).zOrder then ((l.windows i).zOrder, (l.windows i).id)
      else best := by
  unfold hitStep
  rw [if_neg (by simp [h.1.1, h.1.2]), h.2, Bool.true_and]
  simp

/-- A slot above all those before it is the topmost one. -/
theorem topmost_snoc {px py : Int32} {is : List (Fin MAX_WINDOWS)} {i : Fin MAX_WINDOWS}
    (hi : l.Hits px py i) (hbelow : ∀ d ∈ is, l.Hits px py d → l.Below d i) :
    l.Topmost px py (is ++ [i]) i := by
  refine ⟨by simp, hi, ?_⟩
  intro d hd hhit
  rcases List.mem_append.1 hd with hd | hd
  · exact Or.inr (hbelow d hd hhit)
  · exact Or.inl (List.mem_singleton.1 hd)

/-- The topmost slot stays if the next one is below it. -/
theorem Topmost.snoc {px py : Int32} {is : List (Fin MAX_WINDOWS)} {c i : Fin MAX_WINDOWS}
    (hc : l.Topmost px py is c) (hi : l.Hits px py i → l.Below i c) :
    l.Topmost px py (is ++ [i]) c := by
  refine ⟨List.mem_append_left _ hc.1, hc.2.1, ?_⟩
  intro d hd hhit
  rcases List.mem_append.1 hd with hd | hd
  · exact hc.2.2 d hd hhit
  · rw [List.mem_singleton.1 hd] at hhit ⊢
    exact Or.inr (hi hhit)

/-- The loop of `hit_test` after the slots `is`: nothing was hit, or the topmost slot is
kept. -/
theorem hitTest_loop (l : WindowList) (px py : Int32) {is : List (Fin MAX_WINDOWS)}
    (his : is.Pairwise (· < ·)) :
    let best := is.foldl (fun best i => hitStep px py best (l.windows i)) (0, 0)
    ((∀ i ∈ is, ¬ l.Hits px py i) ∧ best = (0, 0)) ∨
      ∃ c, l.Topmost px py is c ∧ best = ((l.windows c).zOrder, (l.windows c).id) := by
  induction is using List.reverseRecOn with
  | nil =>
    refine Or.inl ⟨?_, rfl⟩
    intro i hi
    cases hi
  | append_singleton is i ih =>
    obtain ⟨hinit, -, hlast⟩ := List.pairwise_append.1 his
    simp only [List.foldl_append, List.foldl_cons, List.foldl_nil]
    by_cases hi : l.Hits px py i
    · right
      rw [hitStep_of_hits hi]
      rcases ih hinit with ⟨hnone, hbest⟩ | ⟨c, hc, hbest⟩
      · -- the first hit: `top_z` is 0
        refine ⟨i, topmost_snoc hi fun d hd hhit => absurd hhit (hnone d hd), ?_⟩
        rw [hbest, if_pos]
        exact UInt32.zero_le
      · have hci : c < i := hlast c hc.1 i (by simp)
        rw [hbest]
        by_cases hz : (l.windows c).zOrder ≤ (l.windows i).zOrder
        · rw [if_pos hz]
          have hbelow : l.Below c i := by
            show _ ∨ _
            simp only [UInt32.le_iff_toNat_le, UInt32.lt_iff_toNat_lt, ← UInt32.toNat_inj] at *
            omega
          refine ⟨i, topmost_snoc hi fun d hd hhit => ?_, rfl⟩
          rcases hc.2.2 d hd hhit with rfl | hdc
          · exact hbelow
          · exact IsTrans.trans _ _ _ hdc hbelow
        · rw [if_neg hz]
          exact ⟨c, hc.snoc fun _ => Or.inl (by simpa using hz), rfl⟩
    · rw [hitStep_of_not_hits hi]
      rcases ih hinit with ⟨hnone, hbest⟩ | ⟨c, hc, hbest⟩
      · refine Or.inl ⟨?_, hbest⟩
        intro d hd
        rcases List.mem_append.1 hd with hd | hd
        · exact hnone d hd
        · rwa [List.mem_singleton.1 hd]
      · exact Or.inr ⟨c, hc.snoc fun hhit => absurd hhit hi, hbest⟩

/-- What `hit_test` finds: nothing, or the topmost slot at the point. -/
theorem hitTest_cases (l : WindowList) (px py : Int32) :
    ((∀ i, ¬ l.Hits px py i) ∧ l.hitTest px py = 0) ∨
      ∃ c, l.Topmost px py (List.finRange MAX_WINDOWS) c ∧
        l.hitTest px py = (l.windows c).id := by
  rcases hitTest_loop l px py (List.pairwise_lt_finRange MAX_WINDOWS) with h | h
  · obtain ⟨hnone, hbest⟩ := h
    exact Or.inl ⟨fun i => hnone i (List.mem_finRange i), by rw [hitTest, hbest]⟩
  · obtain ⟨c, hc, hbest⟩ := h
    exact Or.inr ⟨c, hc, by rw [hitTest, hbest]⟩

/-- A window that is hit is live. -/
theorem hitTest_hasId {px py : Int32} (h : l.hitTest px py ≠ 0) : l.HasId (l.hitTest px py) := by
  rcases l.hitTest_cases px py with ⟨-, hhit⟩ | ⟨c, -, hhit⟩
  · exact absurd hhit h
  · exact ⟨h, c, hhit.symm⟩

/-! ## Agreement -/

/-- The last window yielded that contains the point. -/
def lastPainted (l : WindowList) (px py : Int32) : Option Window :=
  (l.zOrdered.filter fun w => w.containsPoint px py).getLast?

/-- The last window painted at a point is in the topmost slot. -/
theorem lastPainted_cases (l : WindowList) (px py : Int32) :
    ((∀ i, ¬ l.Hits px py i) ∧ l.lastPainted px py = none) ∨
      ∃ c, l.Topmost px py (List.finRange MAX_WINDOWS) c ∧
        l.lastPainted px py = some (l.windows c) := by
  set hits := l.iterZOrder.indices.filter fun i => (l.windows i).containsPoint px py
  have hmem : ∀ i, i ∈ hits ↔ l.Hits px py i := by
    intro i
    rw [List.mem_filter, mem_indices]
    rfl
  have hlast : l.lastPainted px py = hits.getLast?.map l.windows := by
    rw [lastPainted, zOrdered_eq, List.filter_map, List.getLast?_map]
    rfl
  rw [hlast]
  cases hc : hits.getLast? with
  | none =>
    rw [List.getLast?_eq_none_iff] at hc
    refine Or.inl ⟨?_, rfl⟩
    intro i hi
    rw [← hmem, hc] at hi
    cases hi
  | some c =>
    have hcmem : c ∈ hits := List.mem_of_getLast? hc
    refine Or.inr ⟨c, ⟨List.mem_finRange c, (hmem c).1 hcmem, ?_⟩, rfl⟩
    intro d _ hd
    exact InsertionSort.eq_or_rel_getLast (indices_pairwise.filter _) hc d ((hmem d).2 hd)

/-- The window under the pointer is the one painted last. -/
theorem hitTest_eq_lastPainted (l : WindowList) (px py : Int32) :
    l.hitTest px py = ((l.lastPainted px py).map (·.id)).getD 0 := by
  rcases l.hitTest_cases px py with ⟨hnone, hhit⟩ | ⟨c, hc, hhit⟩
  · rcases l.lastPainted_cases px py with ⟨-, hlast⟩ | ⟨c, hc, -⟩
    · rw [hhit, hlast]
      rfl
    · exact absurd hc.2.1 (hnone c)
  · rcases l.lastPainted_cases px py with ⟨hnone, -⟩ | ⟨c', hc', hlast⟩
    · exact absurd hc.2.1 (hnone c)
    · rw [hhit, hlast, hc.unique hc' hc.1 hc'.1]
      rfl

/-- The hit test and the order of painting agree, and every shown window is painted once, in
the order of z. -/
theorem hitTest_refines_iterZOrder (l : WindowList) :
    (∀ px py, l.hitTest px py = ((l.lastPainted px py).map (·.id)).getD 0) ∧
      (∃ slots : List (Fin MAX_WINDOWS), l.zOrdered = slots.map l.windows ∧ slots.Nodup ∧
        ∀ i, i ∈ slots ↔ (l.windows i).id ≠ 0 ∧ (l.windows i).visible = true) ∧
      l.zOrdered.Pairwise fun w w' => w.zOrder ≤ w'.zOrder := by
  refine ⟨l.hitTest_eq_lastPainted, ?_, ?_⟩
  · exact ⟨l.iterZOrder.indices, zOrdered_eq, indices_nodup, fun i => mem_indices⟩
  · rw [zOrdered_eq]
    exact List.pairwise_map.2 (indices_pairwise.imp Below.zOrder_le)

end WindowList

end AeroOS.Wm
