import Aoox.Runs

/-! # Rows saved whole by evaluations

A row holds a configuration, which users save, and a state, which evaluations of the row
bring up to date.  Both write the row whole, from a copy they read before: an evaluation
that a save overtakes puts the old configuration back, and the state from before a reset.

Any number of saves and evaluations may be under way (`step`).  `Kept` says that the row
has the configuration that was saved last, and is at rest after a save that resets it, for
as long as nothing but evaluations that began before that save have written it.  It is an
invariant when no evaluation writes once it is overtaken (`kept_of_run`).
-/
namespace StaleSaves

/-- What saves and evaluations do to a row of type `R` with a configuration of type `C`;
`P` is what a user gives, `O` what an evaluation finds. -/
structure Design (R C P O : Type) where
  config : R → C
  /-- The state is what a reset leaves. -/
  atRest : R → Bool
  /-- The row to write and whether it is reset; `none` when the input is refused. -/
  save : Option R → P → Option (R × Bool)
  /-- The row to write; `none` when there is nothing to write. -/
  evaluate : R → O → Option R
  save_atRest : ∀ old p r, save old p = some (r, true) → atRest r = true
  evaluate_config : ∀ r o r', evaluate r o = some r' → config r' = config r

/-- An evaluation under way. -/
structure Evaluation (R : Type) where
  copy : R
  /-- A save has reset the row since the copy was read. -/
  late : Bool

structure State (R C P : Type) where
  row : Option R
  /-- The saves under way: the row they read, if there was one, and what the user gave. -/
  saving : Nat → Option (Option R × P)
  evaluating : Nat → Option (Evaluation R)
  /-- The configuration that was saved last. -/
  saved : Option C
  /-- The last write was a save that resets the row, or an evaluation that began before one. -/
  standing : Bool

inductive Action (P O : Type) where
  /-- A save reads the row. -/
  | read (n : Nat) (p : P)
  | write (n : Nat)
  /-- An evaluation reads the row. -/
  | load (n : Nat)
  /-- An evaluation ends. -/
  | finish (n : Nat) (o : O)

namespace Design
variable {R C P O : Type} (D : Design R C P O)

def initial (row : Option R) : State R C P := ⟨row, fun _ => none, fun _ => none, none, false⟩

/-- A save is written.  A save that found no row adds one, which fails when there is one by
now. -/
def written (s : State R C P) (n : Nat) (old : Option R) (p : P) : State R C P :=
  let ended := { s with saving := Function.update s.saving n none }
  match D.save old p with
  | none => ended
  | some (r, resets) =>
    if old.isNone && s.row.isSome then ended
    else
      { row := some r
        saving := ended.saving
        evaluating := fun m => (s.evaluating m).map fun e => { e with late := e.late || resets }
        saved := some (D.config r)
        standing := resets }

/-- An evaluation writes its copy. -/
def finished (s : State R C P) (n : Nat) (e : Evaluation R) (o : O) : State R C P :=
  let ended := { s with evaluating := Function.update s.evaluating n none }
  match D.evaluate e.copy o with
  | none => ended
  | some r => { ended with row := some r, standing := e.late }

def step (s : State R C P) : Action P O → Option (State R C P)
  | .read n p =>
    if (s.saving n).isSome then none
    else some { s with saving := Function.update s.saving n (some (s.row, p)) }
  | .write n => (s.saving n).map fun u => D.written s n u.1 u.2
  | .load n =>
    if (s.evaluating n).isSome then none
    else s.row.map fun r =>
      { s with evaluating := Function.update s.evaluating n (some ⟨r, false⟩) }
  | .finish n o => (s.evaluating n).map fun e => D.finished s n e o

/-- What saves have done is still there. -/
structure Kept (s : State R C P) : Prop where
  config : ∀ c, s.saved = some c → s.row.map D.config = some c
  reset : s.standing = true → ∀ r, s.row = some r → D.atRest r = true

/-- An evaluation that writes has not been overtaken: its copy has the configuration of the
row, and no save has reset the row since it was read. -/
def InTime (s : State R C P) : Action P O → Prop
  | .finish n o => ∀ e, s.evaluating n = some e → (D.evaluate e.copy o).isSome = true →
      s.row.map D.config = some (D.config e.copy) ∧ e.late = false
  | .read _ _ | .write _ | .load _ => True

variable {D} {s s' : State R C P}

theorem kept_initial (row : Option R) : D.Kept (initial row) where
  config c h := by cases h
  reset h := by cases h

theorem Kept.of_row_eq (h : D.Kept s) (hrow : s'.row = s.row) (hsaved : s'.saved = s.saved)
    (hstanding : s'.standing = s.standing) : D.Kept s' where
  config c hc := by
    rw [hrow]
    exact h.config c (hsaved ▸ hc)
  reset hs r hr := h.reset (hstanding ▸ hs) r (hrow ▸ hr)

/-- A save keeps the invariant whatever came before it. -/
theorem Kept.written (h : D.Kept s) (n : Nat) (old : Option R) (p : P) :
    D.Kept (D.written s n old p) := by
  unfold Design.written
  split
  · exact h.of_row_eq rfl rfl rfl
  · rename_i r resets hsave
    split
    · exact h.of_row_eq rfl rfl rfl
    · refine ⟨?_, ?_⟩
      · intro c hc
        exact hc
      · intro hresets r' hr'
        obtain rfl := Option.some.inj hr'
        obtain rfl : resets = true := hresets
        exact D.save_atRest old p r hsave

/-- An evaluation in time leaves the configuration alone. -/
theorem Kept.finished (h : D.Kept s) {n : Nat} {e : Evaluation R} {o : O}
    (hin : (D.evaluate e.copy o).isSome = true →
      s.row.map D.config = some (D.config e.copy) ∧ e.late = false) :
    D.Kept (D.finished s n e o) := by
  unfold Design.finished
  split
  · exact h.of_row_eq rfl rfl rfl
  · rename_i r heval
    obtain ⟨hconfig, hlate⟩ := hin (by rw [heval]; rfl)
    refine ⟨?_, ?_⟩
    · intro c hc
      have hrow := h.config c hc
      show some (D.config r) = some c
      rw [D.evaluate_config e.copy o r heval, ← hconfig, hrow]
    · intro hstanding
      rw [show e.late = true from hstanding] at hlate
      cases hlate

theorem Kept.step {a : Action P O} (h : D.Kept s) (hin : D.InTime s a)
    (hstep : D.step s a = some s') : D.Kept s' := by
  cases a with
  | read n p =>
    simp only [Design.step] at hstep
    split at hstep
    · cases hstep
    · cases hstep
      exact h.of_row_eq rfl rfl rfl
  | write n =>
    obtain ⟨u, -, rfl⟩ := Option.map_eq_some_iff.mp hstep
    exact h.written n u.1 u.2
  | load n =>
    simp only [Design.step] at hstep
    split at hstep
    · cases hstep
    · obtain ⟨r, -, rfl⟩ := Option.map_eq_some_iff.mp hstep
      exact h.of_row_eq rfl rfl rfl
  | finish n o =>
    obtain ⟨e, he, rfl⟩ := Option.map_eq_some_iff.mp hstep
    exact h.finished (hin e he)

/-- **What saves have done is still there after every run in time.** -/
theorem kept_of_run (row : Option R) (as : List (Action P O)) (s : State R C P)
    (hmeets : Runs.Meets D.step D.InTime (initial row) as)
    (hrun : Runs.exec D.step (initial row) as = some s) : D.Kept s :=
  Runs.exec_invariant (fun _ _ _ h hin hstep => h.step hin hstep) as (initial row) s
    (kept_initial row) hmeets hrun

instance [DecidableEq C] (s : State R C P) : ∀ a : Action P O, Decidable (D.InTime s a)
  | .finish n o => inferInstanceAs (Decidable (∀ e, s.evaluating n = some e →
      (D.evaluate e.copy o).isSome = true →
        s.row.map D.config = some (D.config e.copy) ∧ e.late = false))
  | .read _ _ | .write _ | .load _ => isTrue trivial

end Design
end StaleSaves
