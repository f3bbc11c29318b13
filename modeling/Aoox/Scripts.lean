import Mathlib.Logic.Basic

/-! # Programs that take turns

Several programs work on one system and each waits for one call at a time, so between two
calls of one program the others may have changed everything.  A program is the tree of its
calls: what it does next depends on the answers it got (`Script`).  Every call may go wrong:
the system refuses it, it fails, or its answer is lost and its effect is there
(`Outcome`).  A failed call throws, and `attempt` catches.

`Script.advance` is one turn.  All that a turn does to the system is the effect of the call
the program stands at (`advance_world`), so what holds over every interleaving follows from
what the calls do.
-/
namespace Scripts
variable {W : Type}

/-- The calls of a system over a world `W`: what each answers, and what it does; `none` when
it is refused. -/
structure System (W : Type) where
  Call : Type
  Reply : Call → Type
  effect : (c : Call) → W → Option (Reply c × W)

variable (S : System W)

inductive Script (α : Type) : Type where
  | done (a : α)
  | thrown
  | call (c : S.Call) (answered : S.Reply c → Script α) (failed : Script α)

inductive Outcome where
  | ok
  | failed
  /-- The effect takes place and the answer is lost. -/
  | lost
  deriving DecidableEq

variable {S} {α β : Type}

namespace Script

def bind : Script S α → (α → Script S β) → Script S β
  | done a, f => f a
  | thrown, _ => thrown
  | call c answered failed, f => call c (fun r => (answered r).bind f) (failed.bind f)

instance : Monad (Script S) where
  pure := done
  bind := bind

/-- `try x catch handler`. -/
def attempt : Script S α → Script S α → Script S α
  | done a, _ => done a
  | thrown, handler => handler
  | call c answered failed, handler =>
    call c (fun r => (answered r).attempt handler) (failed.attempt handler)

/-- `await x.catch(() => undefined)`. -/
def swallow (x : Script S Unit) : Script S Unit := x.attempt (done ())

/-- `try x finally cleanup`. -/
def andFinally (x : Script S α) (cleanup : Script S Unit) : Script S α := do
  let r ← (x >>= fun a => pure (some a)).attempt (pure none)
  cleanup
  match r with
  | some a => pure a
  | none => thrown

def await (c : S.Call) : Script S (S.Reply c) := call c done thrown

/-- The call the program stands at. -/
def next : Script S α → Option S.Call
  | done _ | thrown => none
  | call c _ _ => some c

/-- One turn of a program. -/
def advance (o : Outcome) (w : W) : Script S α → Option (Script S α × W)
  | done _ | thrown => none
  | call c answered failed =>
    match S.effect c w with
    | none => some (failed, w)
    | some (r, w') =>
      match o with
      | .ok => some (answered r, w')
      | .failed => some (failed, w)
      | .lost => some (failed, w')

/-- **What a turn does to the system.** -/
theorem advance_world {o : Outcome} {w w' : W} {x x' : Script S α}
    (h : x.advance o w = some (x', w')) :
    w' = w ∨ (o ≠ .failed ∧ ∃ c r, x.next = some c ∧ S.effect c w = some (r, w')) := by
  cases x with
  | done a => cases h
  | thrown => cases h
  | call c answered failed =>
    simp only [advance] at h
    split at h
    · cases h
      exact Or.inl rfl
    · rename_i r w₁ heffect
      cases o with
      | ok =>
        cases h
        exact Or.inr ⟨by decide, c, r, rfl, heffect⟩
      | failed =>
        cases h
        exact Or.inl rfl
      | lost =>
        cases h
        exact Or.inr ⟨by decide, c, r, rfl, heffect⟩

end Script

end Scripts
