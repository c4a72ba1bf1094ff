import Mathlib.Data.List.Basic
import Mathlib.Data.Option.Basic

/-!
# Painting in layers

An operation on a picture puts a value at a place, or leaves the place as it is.

* `Paints view f o`: what `f` does to the place that `view` looks at; `o` is the value, or
  `none`.
* `Paints.comp`, `Paints.ite` and `Paints.foldl_at` are the rules for sequences, branches and
  loops of which one round is for the place.
* `shade` is what a list of layers puts there: the last layer that puts something.
-/

namespace AeroOS.Painting

variable {σ ν α : Type*} {I : σ → Prop} {view : σ → ν}

/-- On pictures that satisfy `I`, `f` puts `o` at the place. -/
def Paints (I : σ → Prop) (view : σ → ν) (f : σ → σ) (o : Option ν) : Prop :=
  ∀ s, I s → I (f s) ∧ view (f s) = o.getD (view s)

theorem Paints.id : Paints I view (fun s => s) none := fun _ hs => ⟨hs, rfl⟩

/-- One after the other: what the second puts covers what the first put. -/
theorem Paints.comp {f g : σ → σ} {o o' : Option ν} (hf : Paints I view f o)
    (hg : Paints I view g o') : Paints I view (fun s => g (f s)) (o'.or o) := by
  intro s hs
  obtain ⟨hfs, hfv⟩ := hf s hs
  obtain ⟨hgs, hgv⟩ := hg (f s) hfs
  refine ⟨hgs, ?_⟩
  rw [hgv, hfv]
  cases o' <;> rfl

theorem Paints.congr {f g : σ → σ} {o : Option ν} (hf : Paints I view f o)
    (h : ∀ s, I s → g s = f s) : Paints I view g o := by
  intro s hs
  rw [h s hs]
  exact hf s hs

/-- A loop in which the round for `t` puts `v`, and no other round puts anything. -/
theorem Paints.foldl_at [DecidableEq α] {f : σ → α → σ} {t : α} {v : Option ν} {l : List α}
    (h : ∀ a ∈ l, Paints I view (fun s => f s a) (if a = t then v else none)) :
    Paints I view (fun s => l.foldl f s) (if t ∈ l then v else none) := by
  induction l with
  | nil =>
    rw [if_neg List.not_mem_nil]
    exact Paints.id
  | cons a l ih =>
    have hhead := h a List.mem_cons_self
    have htail := ih fun b hb => h b (List.mem_cons_of_mem a hb)
    have hboth := hhead.comp htail
    have hval : (if t ∈ l then v else none).or (if a = t then v else none) =
        if t ∈ a :: l then v else none := by
      by_cases hat : a = t
      · subst hat
        rw [if_pos rfl, if_pos List.mem_cons_self]
        split
        · cases v <;> rfl
        · rfl
      · have hmem : t ∈ a :: l ↔ t ∈ l := by
          rw [List.mem_cons]
          exact or_iff_right fun h => hat h.symm
        rw [if_neg hat, Option.or_none]
        simp only [hmem]
    rw [hval] at hboth
    exact hboth

/-! ## Layers -/

/-- What a list of layers puts at the place, the last one on top. -/
def shade (o : α → Option ν) : List α → Option ν
  | [] => none
  | a :: l => (shade o l).or (o a)

variable {o : α → Option ν} {l l' : List α}

theorem Paints.layers {f : σ → α → σ} (h : ∀ a ∈ l, Paints I view (fun s => f s a) (o a)) :
    Paints I view (fun s => l.foldl f s) (shade o l) := by
  induction l with
  | nil => exact Paints.id
  | cons a l ih =>
    exact (h a List.mem_cons_self).comp (ih fun b hb => h b (List.mem_cons_of_mem a hb))

theorem shade_append : shade o (l ++ l') = (shade o l').or (shade o l) := by
  induction l with
  | nil => rw [List.nil_append, shade, Option.or_none]
  | cons a l ih => rw [List.cons_append, shade, ih, shade, Option.or_assoc]

theorem shade_congr {o' : α → Option ν} (h : ∀ a ∈ l, o a = o' a) : shade o l = shade o' l := by
  induction l with
  | nil => rfl
  | cons a l ih =>
    rw [shade, shade, h a List.mem_cons_self, ih fun b hb => h b (List.mem_cons_of_mem a hb)]

theorem shade_ne_none : shade o l ≠ none ↔ ∃ a ∈ l, o a ≠ none := by
  induction l with
  | nil => simp [shade]
  | cons a l ih =>
    rw [shade, Ne, Option.or_eq_none_iff, not_and_or]
    simp only [List.exists_mem_cons_iff]
    rw [← Ne, ih, or_comm]

/-- Of the layers that put something, the last one counts. -/
theorem shade_last {R : α → α → Prop} (hl : l.Pairwise R) (h : ∃ a ∈ l, o a ≠ none) :
    ∃ a ∈ l, o a ≠ none ∧ shade o l = o a ∧ ∀ b ∈ l, o b ≠ none → b = a ∨ R b a := by
  induction l with
  | nil =>
    obtain ⟨a, ha, -⟩ := h
    exact absurd ha List.not_mem_nil
  | cons a l ih =>
    obtain ⟨hhead, htail⟩ := List.pairwise_cons.1 hl
    by_cases hlater : ∃ b ∈ l, o b ≠ none
    · obtain ⟨b, hb, hob, hshade, hlast⟩ := ih htail hlater
      refine ⟨b, List.mem_cons_of_mem a hb, hob, ?_, ?_⟩
      · obtain ⟨v, hv⟩ := Option.ne_none_iff_exists'.1 hob
        rw [shade, hshade, hv]
        rfl
      · intro c hc hoc
        rcases List.mem_cons.1 hc with rfl | hc
        · exact Or.inr (hhead b hb)
        · exact hlast c hc hoc
    · have hnone : shade o l = none := by
        by_contra hne
        exact hlater (shade_ne_none.1 hne)
      obtain ⟨b, hb, hob⟩ := h
      have honly : ∀ c ∈ a :: l, o c ≠ none → c = a := by
        intro c hc hoc
        rcases List.mem_cons.1 hc with rfl | hc
        · rfl
        · exact absurd ⟨c, hc, hoc⟩ hlater
      rw [honly b hb hob] at hob
      refine ⟨a, List.mem_cons_self, hob, ?_, fun c hc hoc => Or.inl (honly c hc hoc)⟩
      rw [shade, hnone]
      rfl

end AeroOS.Painting
