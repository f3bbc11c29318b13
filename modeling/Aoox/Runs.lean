import Mathlib.Logic.Function.Basic

/-! # Runs of a transition system

A system is a partial step function: `step s a = some s'` when action `a` can be
taken in state `s` and leads to `s'`.  A run is a list of actions, so "any
interleaving" of several parties is a universally quantified list.  A condition
on steps is required along a run by `Meets`, and an invariant that every step
meeting the condition keeps holds in every state such a run reaches
(`exec_invariant`).  Where a step that misses the condition breaks a property at once, the
property holds in every state a run passes through exactly when all its steps meet the
condition (`throughout_iff_meets`).
-/
open Option Function
namespace Runs
variable {S A : Type} (step : S → A → Option S)

/-- The state a run reaches; `none` when one of its actions cannot be taken. -/
def exec : S → List A → Option S
  | s, [] => some s
  | s, a :: as => (step s a).bind fun s' => exec s' as

/-- Every step of the run meets `C` in the state it is taken from. -/
def Meets (C : S → A → Prop) : S → List A → Prop
  | _, [] => True
  | s, a :: as => C s a ∧ ∀ s', step s a = some s' → Meets C s' as

/-- Every state the run passes through has the property. -/
def Throughout (P : S → Prop) (s : S) (as : List A) : Prop :=
  ∀ bs s', bs <+: as → exec step s bs = some s' → P s'

variable {step}

variable {s : S} {a : A} {as : List A}

theorem exec_cons {s' : S} :
    exec step s (a :: as) = some s' ↔ ∃ t, step s a = some t ∧ exec step t as = some s' := by
  simp [exec, bind_eq_some_iff]

variable {C : S → A → Prop}

theorem meets_cons {t : S} (hstep : step s a = some t) (ha : C s a)
    (has : Meets step C t as) : Meets step C s (a :: as) :=
  ⟨ha, fun _ ht => some.inj (hstep.symm.trans ht) ▸ has⟩

variable {Inv : S → Prop}

/-- **The invariant rule.** -/
theorem exec_invariant (keep : ∀ s a s', Inv s → C s a → step s a = some s' → Inv s') :
    ∀ (as : List A) (s s' : S), Inv s → Meets step C s as → exec step s as = some s' → Inv s' := by
  intro as
  induction as with
  | nil =>
    intro s s' hinv _ hexec
    exact some.inj hexec ▸ hinv
  | cons a as ih =>
    intro s s' hinv hmeets hexec
    obtain ⟨t, ht, hexec⟩ := exec_cons.mp hexec
    exact ih t s' (keep s a t hinv hmeets.1 ht) (hmeets.2 t ht) hexec

/-- The invariant rule for every run. -/
theorem exec_keeps (keep : ∀ s a s', Inv s → step s a = some s' → Inv s') (as : List A) (s s' : S)
    (hinv : Inv s) (hexec : exec step s as = some s') : Inv s' := by
  have hmeets : ∀ (as : List A) (s : S), Meets step (fun _ _ => True) s as := by
    intro as
    induction as with
    | nil => exact fun _ => trivial
    | cons a as ih => exact fun s => ⟨trivial, fun t _ => ih t⟩
  exact exec_invariant (fun s a s' h _ hstep => keep s a s' h hstep) as s s' hinv (hmeets as s) hexec

/-- A run whose steps all meet the condition keeps the invariant; the first step that misses it
leads to a state of the other kind, and `Lost` stays. -/
theorem exec_meets_or {D : S → A → Prop} {Lost : S → Prop}
    (keep : ∀ s a s', Inv s → D s a → C s a → step s a = some s' → Inv s')
    (lose : ∀ s a s', Inv s → D s a → ¬ C s a → step s a = some s' → Lost s')
    (stay : ∀ s a s', Lost s → D s a → step s a = some s' → Lost s') :
    ∀ (as : List A) (s s' : S), Inv s → Meets step D s as → exec step s as = some s' →
      (Meets step C s as ∧ Inv s') ∨ Lost s' := by
  intro as
  induction as with
  | nil =>
    intro s s' hinv _ hexec
    exact .inl ⟨trivial, some.inj hexec ▸ hinv⟩
  | cons a as ih =>
    intro s s' hinv hD hexec
    obtain ⟨t, ht, hexec⟩ := exec_cons.mp hexec
    by_cases hC : C s a
    · rcases ih t s' (keep s a t hinv hD.1 hC ht) (hD.2 t ht) hexec with ⟨hmeets, hinv'⟩ | hlost
      · exact .inl ⟨meets_cons ht hC hmeets, hinv'⟩
      · exact .inr hlost
    · exact .inr (exec_invariant stay as t s' (lose s a t hinv hD.1 hC ht) (hD.2 t ht) hexec)

variable {P : S → Prop}

theorem throughout_nil : Throughout step P s [] ↔ P s := by
  constructor
  · intro h
    exact h [] s List.nil_prefix rfl
  · intro h bs s' hbs hexec
    obtain rfl := List.prefix_nil.mp hbs
    exact some.inj hexec ▸ h

theorem throughout_cons :
    Throughout step P s (a :: as) ↔ P s ∧ ∀ t, step s a = some t → Throughout step P t as := by
  constructor
  · intro h
    refine ⟨h [] s List.nil_prefix rfl, ?_⟩
    intro t ht bs s' hbs hexec
    exact h (a :: bs) s' (List.cons_prefix_cons.mpr ⟨rfl, hbs⟩) (exec_cons.mpr ⟨t, ht, hexec⟩)
  · rintro ⟨hs, hrest⟩ bs s' hbs hexec
    cases bs with
    | nil => exact some.inj hexec ▸ hs
    | cons b bs =>
      obtain ⟨rfl, htail⟩ := List.cons_prefix_cons.mp hbs
      obtain ⟨t, ht, hexec⟩ := exec_cons.mp hexec
      exact hrest t ht bs s' htail hexec

/-- **The rule for an exact condition.**  The invariant gives the property, steps that meet
the condition keep the invariant, and a step that misses it can be taken and breaks the
property. -/
theorem throughout_iff_meets (keep : ∀ s a s', Inv s → C s a → step s a = some s' → Inv s')
    (holds : ∀ s, Inv s → P s)
    (breaks : ∀ s a, Inv s → ¬ C s a → ∃ s', step s a = some s' ∧ ¬ P s') :
    ∀ (as : List A) (s : S), Inv s → (Throughout step P s as ↔ Meets step C s as) := by
  intro as
  induction as with
  | nil =>
    intro s hinv
    rw [throughout_nil]
    exact ⟨fun _ => trivial, fun _ => holds s hinv⟩
  | cons a as ih =>
    intro s hinv
    rw [throughout_cons]
    constructor
    · rintro ⟨-, hrest⟩
      have ha : C s a := by
        by_contra hC
        obtain ⟨t, ht, hP⟩ := breaks s a hinv hC
        exact hP (hrest t ht [] t List.nil_prefix rfl)
      exact ⟨ha, fun t ht => (ih t (keep s a t hinv ha ht)).mp (hrest t ht)⟩
    · rintro ⟨ha, hrest⟩
      exact ⟨holds s hinv, fun t ht => (ih t (keep s a t hinv ha ht)).mpr (hrest t ht)⟩

/-- A condition on what an entry holds, if it holds anything. -/
instance decidableForallSome {V : Type} {P : V → Prop} [DecidablePred P] (o : Option V) :
    Decidable (∀ v, o = some v → P v) :=
  match o with
  | none => isTrue fun _ h => by cases h
  | some v => decidable_of_iff (P v) (by simp)

/-- Whether a given run meets a condition that can be checked at each step. -/
instance decidableMeets {C : S → A → Prop} [∀ s a, Decidable (C s a)] :
    ∀ (as : List A) (s : S), Decidable (Meets step C s as)
  | [], _ => isTrue trivial
  | a :: as, s =>
    let _ : DecidablePred fun s' => Meets step C s' as := fun s' => decidableMeets as s'
    inferInstanceAs (Decidable (C s a ∧ ∀ s', step s a = some s' → Meets step C s' as))

/-- What one party holds after another's entry was replaced. -/
theorem update_eq_some {P V : Type} [DecidableEq P] {f : P → Option V} {p q : P} {v : Option V} {x : V}
    (h : update f p v q = some x) : (q = p ∧ v = some x) ∨ (q ≠ p ∧ f q = some x) := by
  by_cases hq : q = p
  · subst hq
    exact Or.inl ⟨rfl, by rwa [update_self] at h⟩
  · exact Or.inr ⟨hq, by rwa [update_of_ne hq] at h⟩

end Runs
