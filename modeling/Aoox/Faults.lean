import Mathlib.Logic.Basic

/-! # Programs against a system that may fail

A program makes calls to some outside system and any of them may go wrong.  What
happens is decided by a list of outcomes, one for each call: the call succeeds,
it reports an error, or the program dies there; with an error or a death the
call may still have had its effect.  A universally quantified list is then every
failure pattern, and a list that ends is a death before the next call.

`Ensures` is the partial rule for runs that return, `Keeps` the rule for every
end of a run, returns, errors and deaths alike, and `Leaves` the same with a
condition of its own at the end.
-/
namespace Faults
variable {W E H α β : Type}

/-- What one call meets.  `applied` is the answer under which the effect took
place although the program got none. -/
inductive Outcome (E H : Type) where
  | ok (answer : H)
  | failed (error : E) (applied : Option H)
  | died (applied : Option H)

/-- How a run ends. -/
inductive Result (E α : Type) where
  | returned (a : α)
  | thrown (e : E)
  | dead
deriving DecidableEq

/-- A program over a world `W`: its end, the world then, and the outcomes it has
not used. -/
def Run (W E H α : Type) : Type := W → List (Outcome E H) → Result E α × W × List (Outcome E H)

/-- The world behind a call whose answer was lost. -/
def after (effect : H → W → Except E (α × W)) (applied : Option H) (w : W) : W :=
  match applied with
  | none => w
  | some h =>
    match effect h w with
    | .ok (_, w') => w'
    | .error _ => w

/-- One call; the system may refuse it by itself. -/
def call (effect : H → W → Except E (α × W)) : Run W E H α
  | w, [] => (.dead, w, [])
  | w, .ok h :: os =>
    match effect h w with
    | .ok (a, w') => (.returned a, w', os)
    | .error e => (.thrown e, w, os)
  | w, .failed e applied :: os => (.thrown e, after effect applied w, os)
  | w, .died applied :: os => (.dead, after effect applied w, os)

instance : Monad (Run W E H) where
  pure a := fun w os => (.returned a, w, os)
  bind x f := fun w os =>
    match x w os with
    | (.returned a, w', os') => f a w' os'
    | (.thrown e, w', os') => (.thrown e, w', os')
    | (.dead, w', os') => (.dead, w', os')

theorem Run.bind_pure (x : Run W E H α) : (x >>= fun a => pure a) = x := by
  funext w os
  rcases hx : x w os with ⟨_ | _ | _, w', os'⟩ <;> simp only [bind, hx] <;> rfl

theorem Run.bind_assoc {γ : Type} (x : Run W E H α) (f : α → Run W E H β) (g : β → Run W E H γ) :
    x >>= f >>= g = x >>= fun a => f a >>= g := by
  funext w os
  rcases hx : x w os with ⟨_ | _ | _, w', os'⟩ <;> simp only [bind, hx]

instance : LawfulMonad (Run W E H) :=
  LawfulMonad.mk' _ Run.bind_pure (fun _ _ => rfl) Run.bind_assoc

def raise (e : E) : Run W E H α := fun w os => (.thrown e, w, os)

/-- `try x catch (e) h`; a dead program handles nothing. -/
def attempt (x : Run W E H α) (handler : E → Run W E H α) : Run W E H α := fun w os =>
  match x w os with
  | (.thrown e, w', os') => handler e w' os'
  | r => r

/-- `await x.catch(() => undefined)`. -/
def swallow (x : Run W E H Unit) : Run W E H Unit := attempt x fun _ => pure ()

/-! ## Runs that return -/

/-- If `x` starts where `P` holds and returns, `Q` holds of its value and world. -/
def Ensures (P : W → Prop) (x : Run W E H α) (Q : α → W → Prop) : Prop :=
  ∀ w os a w' os', P w → x w os = (.returned a, w', os') → Q a w'

variable {P P' : W → Prop} {x : Run W E H α} {Q Q' : α → W → Prop}

theorem ensures_pure (a : α) (h : ∀ w, P w → Q a w) : Ensures P (pure a : Run W E H α) Q := by
  intro w os b w' os' hP hx
  have heq : (Result.returned a, w, os) = (Result.returned b, w', os') := hx
  simp only [Prod.mk.injEq, Result.returned.injEq] at heq
  obtain ⟨rfl, rfl, -⟩ := heq
  exact h w hP

variable {f : α → Run W E H β}

theorem Ensures.bind {R : β → W → Prop} (hx : Ensures P x Q)
    (hf : ∀ a, Ensures (Q a) (f a) R) : Ensures P (x >>= f) R := by
  intro w os b w' os' hP hrun
  change (match x w os with
    | (.returned a, w', os') => f a w' os'
    | (.thrown e, w', os') => (.thrown e, w', os')
    | (.dead, w', os') => (.dead, w', os')) = _ at hrun
  split at hrun
  · rename_i a w₁ os₁ hx₁
    exact hf a w₁ os₁ b w' os' (hx w os a w₁ os₁ hP hx₁) hrun
  · cases hrun
  · cases hrun

theorem Ensures.conseq (hx : Ensures P x Q) (hpre : ∀ w, P' w → P w)
    (hpost : ∀ a w, Q a w → Q' a w) : Ensures P' x Q' :=
  fun w os a w' os' hP hrun => hpost a w' (hx w os a w' os' (hpre w hP) hrun)

theorem ensures_true : Ensures P x fun _ _ => True := fun _ _ _ _ _ _ _ => trivial

theorem ensures_raise (e : E) : Ensures P (raise e : Run W E H α) Q := by
  intro w os a w' os' _ hrun
  cases hrun

variable {effect : H → W → Except E (α × W)}

theorem ensures_call (h : ∀ w answer a w', P w → effect answer w = .ok (a, w') → Q a w') :
    Ensures P (call effect) Q := by
  intro w os a w' os' hP hrun
  cases os with
  | nil => cases hrun
  | cons o os =>
    cases o with
    | ok answer =>
      simp only [call] at hrun
      split at hrun
      · rename_i b w₁ heff
        simp only [Prod.mk.injEq, Result.returned.injEq] at hrun
        obtain ⟨rfl, rfl, -⟩ := hrun
        exact h w answer b w₁ hP heff
      · cases hrun
    | failed e applied => cases hrun
    | died applied => cases hrun

variable {handler : E → Run W E H α}

/-- A handler that never returns does not matter to a run that does. -/
theorem Ensures.attempt (hx : Ensures P x Q)
    (hh : ∀ e, Ensures (fun _ => True) (handler e) fun _ _ => False) :
    Ensures P (attempt x handler) Q := by
  intro w os a w' os' hP hrun
  simp only [Faults.attempt] at hrun
  split at hrun
  · rename_i e w₁ os₁ _
    exact (hh e w₁ os₁ a w' os' trivial hrun).elim
  · exact hx w os a w' os' hP hrun

/-! ## Runs that end in any way -/

/-- `P` holds of the world however `x` ends. -/
def Keeps (P : W → Prop) (x : Run W E H α) : Prop := ∀ w os, P w → P (x w os).2.1

/-- If `x` starts where `P` holds, `K` holds of the world however it ends. -/
def Leaves (P : W → Prop) (x : Run W E H α) (K : W → Prop) : Prop := ∀ w os, P w → K (x w os).2.1

variable {K K' : W → Prop}

theorem leaves_pure (a : α) (h : ∀ w, P w → K w) : Leaves P (pure a : Run W E H α) K :=
  fun w _ hP => h w hP

theorem Leaves.bind (hk : Leaves P x K) (hx : Ensures P x Q)
    (hf : ∀ a, Leaves (Q a) (f a) K) : Leaves P (x >>= f) K := by
  intro w os hP
  have hend := hk w os hP
  show K (match x w os with
    | (.returned a, w', os') => f a w' os'
    | (.thrown e, w', os') => (.thrown e, w', os')
    | (.dead, w', os') => (.dead, w', os')).2.1
  split
  · rename_i a w' os' hrun
    exact hf a w' os' (hx w os a w' os' hP hrun)
  · rename_i e w' os' hrun
    rw [hrun] at hend
    exact hend
  · rename_i w' os' hrun
    rw [hrun] at hend
    exact hend

theorem leaves_call {effect : H → W → Except E (α × W)} (hstay : ∀ w, P w → K w)
    (h : ∀ w answer a w', P w → effect answer w = .ok (a, w') → K w') : Leaves P (call effect) K := by
  have hafter : ∀ applied w, P w → K (after effect applied w) := by
    intro applied w hP
    cases applied with
    | none => exact hstay w hP
    | some answer =>
      simp only [after]
      split
      · rename_i a w' heff
        exact h w answer a w' hP heff
      · exact hstay w hP
  intro w os hP
  cases os with
  | nil => exact hstay w hP
  | cons o os =>
    cases o with
    | ok answer =>
      simp only [call]
      split
      · rename_i a w' heff
        exact h w answer a w' hP heff
      · exact hstay w hP
    | failed e applied => exact hafter applied w hP
    | died applied => exact hafter applied w hP

theorem Leaves.attempt (hx : Leaves P x K)
    (hh : ∀ e, Leaves K (handler e) K) : Leaves P (Faults.attempt x handler) K := by
  intro w os hP
  have hend := hx w os hP
  simp only [Faults.attempt]
  split
  · rename_i e w' os' hrun
    rw [hrun] at hend
    exact hh e w' os' hend
  · exact hend

/-- A handler that goes on from what the failed run has left. -/
theorem Ensures.attempt_leaves (hx : Ensures P x Q) (hk : Leaves P x K)
    (hh : ∀ e, Ensures K (handler e) Q) : Ensures P (Faults.attempt x handler) Q := by
  intro w os a w' os' hP hrun
  have hend := hk w os hP
  simp only [Faults.attempt] at hrun
  split at hrun
  · rename_i e w₁ os₁ hx₁
    rw [hx₁] at hend
    exact hh e w₁ os₁ a w' os' hend hrun
  · exact hx w os a w' os' hP hrun

theorem keeps_call
    (h : ∀ w answer a w', P w → effect answer w = .ok (a, w') → P w') : Keeps P (call effect) :=
  leaves_call (fun _ hP => hP) h

theorem Ensures.attempt_keeps (hx : Ensures P x Q) (hk : Keeps P x)
    (hh : ∀ e, Ensures P (handler e) Q) : Ensures P (Faults.attempt x handler) Q :=
  hx.attempt_leaves hk hh

theorem Keeps.ensures (hx : Keeps P x) : Ensures P x fun _ => P := by
  intro w os a w' os' hP hrun
  have hkeep := hx w os hP
  rw [hrun] at hkeep
  exact hkeep

theorem Keeps.bind (hx : Keeps P x) (hf : ∀ a, Keeps P (f a)) :
    Keeps P (x >>= f) := Leaves.bind hx hx.ensures hf

theorem keeps_raise (e : E) : Keeps P (raise e : Run W E H α) := fun _ _ hP => hP

theorem keeps_swallow {x : Run W E H Unit} (hx : Keeps P x) : Keeps P (swallow x) :=
  Leaves.attempt hx fun _ => leaves_pure () fun _ hP => hP

theorem Keeps.swallow {x : Run W E H Unit} (hx : Keeps P x) :
    Ensures P (swallow x) fun _ => P := (keeps_swallow hx).ensures

end Faults
