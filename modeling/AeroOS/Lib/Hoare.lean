import Mathlib.Data.List.Basic
import AeroOS.Lib.Run

/-!
# Computations that may fail

A computation on a state that may end in an error keeps the state it had
reached.  `Triple P x Q E` says that from a state in `P` the computation ends
in `Q` with its result, or with an error in `E`.

The rules follow the program: one for each way of putting computations
together (`bind`, `ite`, `forM`), and `conseq` to fit them.

`ErrorsIn T x` says which errors the computation can end in, from any state;
`exec_forM_stops` is about a loop that stops at the first element that fails.
-/

namespace AeroOS.Hoare

variable {σ ε α β : Type}

/-- A computation on the state `σ` that may end in an error `ε`. -/
abbrev Comp (σ ε : Type) := ExceptT ε (StateM σ)

/-- The result of a computation and the state after it. -/
def exec (x : Comp σ ε α) (s : σ) : Except ε α × σ := x.run.run s

@[simp] theorem exec_pure (a : α) (s : σ) : exec (pure a : Comp σ ε α) s = (.ok a, s) := rfl

@[simp] theorem exec_throw (e : ε) (s : σ) : exec (throw e : Comp σ ε α) s = (.error e, s) := rfl

@[simp] theorem exec_get (s : σ) : exec (get : Comp σ ε σ) s = (.ok s, s) := rfl

@[simp] theorem exec_modify (f : σ → σ) (s : σ) :
    exec (modify f : Comp σ ε PUnit) s = (.ok ⟨⟩, f s) := rfl

theorem exec_bind (x : Comp σ ε α) (f : α → Comp σ ε β) (s : σ) :
    exec (x >>= f) s =
      match exec x s with
      | (.ok a, s') => exec (f a) s'
      | (.error e, s') => (.error e, s') := by
  show (ExceptT.run (x >>= f)).run s = _
  rw [ExceptT.run_bind, StateT.run_bind]
  cases h : exec x s with
  | mk r s' =>
    rw [show x.run.run s = (r, s') from h]
    cases r with
    | ok a => rfl
    | error e => rfl

/-- A run from its result. -/
theorem exec_of_fst {x : Comp σ ε α} {s : σ} {r : Except ε α} (h : (exec x s).1 = r) :
    exec x s = (r, (exec x s).2) := by
  rw [← h]

/-- From `P` the computation ends in `Q`, or with an error in `E`. -/
def Triple (P : σ → Prop) (x : Comp σ ε α) (Q : α → σ → Prop) (E : σ → Prop) : Prop :=
  ∀ s, P s → (∀ a, (exec x s).1 = .ok a → Q a (exec x s).2) ∧
    ∀ e, (exec x s).1 = .error e → E (exec x s).2

namespace Triple

variable {P P' : σ → Prop} {x : Comp σ ε α} {Q Q' : α → σ → Prop} {E E' : σ → Prop}

theorem ok (h : Triple P x Q E) {s s' : σ} {a : α} (hs : P s) (hx : exec x s = (.ok a, s')) :
    Q a s' := by
  have := (h s hs).1 a
  rw [hx] at this
  exact this rfl

theorem error (h : Triple P x Q E) {s s' : σ} {e : ε} (hs : P s)
    (hx : exec x s = (.error e, s')) : E s' := by
  have := (h s hs).2 e
  rw [hx] at this
  exact this rfl

/-- A triple that starts in one state. -/
theorem single {s : σ} (h : (∀ a, (exec x s).1 = .ok a → Q a (exec x s).2) ∧
    ∀ e, (exec x s).1 = .error e → E (exec x s).2) : Triple (· = s) x Q E := by
  intro s' hs
  rwa [show s' = s from hs]

theorem of_single (h : ∀ s, P s → Triple (· = s) x Q E) : Triple P x Q E :=
  fun s hs => h s hs s rfl

theorem conseq (h : Triple P x Q E) (hP : ∀ s, P' s → P s) (hQ : ∀ a s, Q a s → Q' a s)
    (hE : ∀ s, E s → E' s) : Triple P' x Q' E' := fun s hs =>
  ⟨fun a ha => hQ a _ ((h s (hP s hs)).1 a ha), fun e he => hE _ ((h s (hP s hs)).2 e he)⟩

theorem pre (h : Triple P x Q E) (hP : ∀ s, P' s → P s) : Triple P' x Q E :=
  h.conseq hP (fun _ _ => id) fun _ => id

theorem post (h : Triple P x Q E) (hQ : ∀ a s, Q a s → Q' a s) : Triple P x Q' E :=
  h.conseq (fun _ => id) hQ fun _ => id

/-- Two triples about one computation. -/
theorem and (h : Triple P x Q E) (h' : Triple P x Q' E') :
    Triple P x (fun a s => Q a s ∧ Q' a s) (fun s => E s ∧ E' s) := fun s hs =>
  ⟨fun a ha => ⟨(h s hs).1 a ha, (h' s hs).1 a ha⟩, fun e he => ⟨(h s hs).2 e he, (h' s hs).2 e he⟩⟩

/-- A fact that does not depend on the state. -/
theorem assume {c : Prop} (h : c → Triple P x Q E) : Triple (fun s => c ∧ P s) x Q E :=
  fun s hs => h hs.1 s hs.2

theorem pure {a : α} (h : ∀ s, P s → Q a s) : Triple P (Pure.pure a : Comp σ ε α) Q E :=
  fun s hs => ⟨fun _ ha => Except.ok.inj ha ▸ h s hs, fun _ he => nomatch he⟩

theorem throw {e : ε} (h : ∀ s, P s → E s) : Triple P (MonadExcept.throw e : Comp σ ε α) Q E :=
  fun s hs => ⟨fun _ ha => (nomatch ha), fun _ _ => h s hs⟩

theorem update {f : σ → σ} {Q : PUnit → σ → Prop} (h : ∀ s, P s → Q ⟨⟩ (f s)) :
    Triple P (modify f : Comp σ ε PUnit) Q E :=
  fun s hs => ⟨fun _ _ => h s hs, fun _ he => nomatch he⟩

theorem bind {R : α → σ → Prop} {f : α → Comp σ ε β} {Q : β → σ → Prop} (h : Triple P x R E)
    (h' : ∀ a, Triple (R a) (f a) Q E) : Triple P (x >>= f) Q E := by
  intro s hs
  rw [exec_bind]
  cases hx : exec x s with
  | mk r s' =>
    have hr := h s hs
    rw [hx] at hr
    cases r with
    | ok a => exact h' a s' (hr.1 a rfl)
    | error e => exact ⟨fun _ ha => (nomatch ha), fun _ _ => hr.2 e rfl⟩

/-- The state at one point of a computation. -/
theorem get_bind {f : σ → Comp σ ε β} {Q : β → σ → Prop}
    (h : ∀ s, P s → Triple (fun s' => s' = s) (f s) Q E) : Triple P (get >>= f) Q E := by
  intro s hs
  rw [exec_bind]
  exact h s hs s rfl

theorem ite {c : Prop} [Decidable c] {y : Comp σ ε α} (h : c → Triple P x Q E)
    (h' : ¬ c → Triple P y Q E) : Triple P (if c then x else y) Q E := by
  by_cases hc : c
  · rw [if_pos hc]
    exact h hc
  · rw [if_neg hc]
    exact h' hc

/-- A loop over a list: `I done` holds when the elements `done` are behind. -/
theorem forM {I : List α → σ → Prop} {l : List α} {f : α → Comp σ ε PUnit}
    (h : ∀ done a rest, l = done ++ a :: rest →
      Triple (I done) (f a) (fun _ => I (done ++ [a])) E) :
    Triple (I []) (l.forM f) (fun _ => I l) E := by
  suffices hgen : ∀ rest done, l = done ++ rest →
      Triple (I done) (rest.forM f) (fun _ => I l) E from hgen l [] rfl
  intro rest
  induction rest with
  | nil =>
    rintro done hl
    rw [List.append_nil] at hl
    subst hl
    exact Triple.pure fun _ => id
  | cons a rest ih =>
    intro done hl
    refine Triple.bind (h done a rest hl) fun _ => ih (done ++ [a]) ?_
    rw [hl, List.append_assoc]
    rfl

end Triple

/-! ## Errors -/

/-- Every error of the computation is in `T`. -/
def ErrorsIn (T : ε → Prop) (x : Comp σ ε α) : Prop := ∀ s e, (exec x s).1 = .error e → T e

namespace ErrorsIn

variable {T : ε → Prop} {x : Comp σ ε α}

theorem pure (a : α) : ErrorsIn T (Pure.pure a : Comp σ ε α) := fun _ _ he => nomatch he

theorem throw {e : ε} (h : T e) : ErrorsIn T (MonadExcept.throw e : Comp σ ε α) :=
  fun _ _ he => Except.error.inj he ▸ h

theorem update (f : σ → σ) : ErrorsIn T (modify f : Comp σ ε PUnit) := fun _ _ he => nomatch he

theorem bind {f : α → Comp σ ε β} (h : ErrorsIn T x) (h' : ∀ a, ErrorsIn T (f a)) :
    ErrorsIn T (x >>= f) := by
  intro s e he
  rw [exec_bind] at he
  cases hx : exec x s with
  | mk r s' =>
    rw [hx] at he
    cases r with
    | ok a => exact h' a s' e he
    | error e' =>
      cases he
      exact h s e (by rw [hx])

theorem get_bind {f : σ → Comp σ ε β} (h : ∀ s, ErrorsIn T (f s)) : ErrorsIn T (get >>= f) := by
  intro s e he
  rw [exec_bind] at he
  exact h s s e he

theorem ite {c : Prop} [Decidable c] {y : Comp σ ε α} (h : c → ErrorsIn T x)
    (h' : ¬ c → ErrorsIn T y) : ErrorsIn T (if c then x else y) := by
  by_cases hc : c
  · rw [if_pos hc]
    exact h hc
  · rw [if_neg hc]
    exact h' hc

theorem forM {l : List α} {f : α → Comp σ ε PUnit} (h : ∀ a ∈ l, ErrorsIn T (f a)) :
    ErrorsIn T (l.forM f) := by
  induction l with
  | nil => exact pure _
  | cons a l ih =>
    exact bind (h a List.mem_cons_self) fun _ => ih fun b hb => h b (List.mem_cons_of_mem _ hb)

end ErrorsIn

/-- A loop whose elements go through in `I`, but for the bad ones, ends in `I`
when none is bad, and with an error in `T` when one is. -/
theorem exec_forM_stops {I : σ → Prop} {T : ε → Prop} {B : α → Prop} {l : List α}
    {f : α → Comp σ ε PUnit}
    (hgood : ∀ a ∈ l, ¬ B a → ∀ s, I s → ∃ s', exec (f a) s = (.ok ⟨⟩, s') ∧ I s')
    (hbad : ∀ a ∈ l, B a → ∀ s, I s → ∃ e, (exec (f a) s).1 = .error e ∧ T e) {s : σ}
    (hs : I s) :
    ((∀ a ∈ l, ¬ B a) → ∃ s', exec (l.forM f) s = (.ok ⟨⟩, s') ∧ I s') ∧
      ((∃ a ∈ l, B a) → ∃ e, (exec (l.forM f) s).1 = .error e ∧ T e) := by
  induction l generalizing s with
  | nil => exact ⟨fun _ => ⟨s, rfl, hs⟩, fun ⟨_, ha, _⟩ => nomatch ha⟩
  | cons a l ih =>
    have hexec : exec ((a :: l).forM f) s = exec (f a >>= fun _ => l.forM f) s := rfl
    rw [hexec, exec_bind]
    by_cases ha : B a
    · obtain ⟨e, he, hT⟩ := hbad a List.mem_cons_self ha s hs
      rw [exec_of_fst he]
      exact ⟨fun h => absurd ha (h a List.mem_cons_self), fun _ => ⟨e, rfl, hT⟩⟩
    · obtain ⟨s', hs', hI⟩ := hgood a List.mem_cons_self ha s hs
      rw [hs']
      obtain ⟨hall, hex⟩ := ih (fun b hb => hgood b (List.mem_cons_of_mem _ hb))
        (fun b hb => hbad b (List.mem_cons_of_mem _ hb)) hI
      refine ⟨fun h => hall fun b hb => h b (List.mem_cons_of_mem _ hb), ?_⟩
      rintro ⟨b, hb, hbb⟩
      rcases List.mem_cons.1 hb with rfl | hb
      · exact absurd hbb ha
      · exact hex ⟨b, hb, hbb⟩

end AeroOS.Hoare
