import Mathlib.Data.List.Basic

/-! # All matches of a pattern

A pattern reads the beginning of a text and says what it has found and what it leaves.
`matchAll` looks for it from left to right and goes on behind each match.  What is found in a text
is read off piece by piece: a match is followed by the matches of what it leaves
(`matchAll_match`), and units at which nothing begins are passed over (`matchAll_skip`).
-/
namespace Matches
variable {C α : Type} (m : List C → Option (α × List C))

/-- The search; the counter passes over the last match. -/
def go : Nat → List C → List α
  | _, [] => []
  | k + 1, _ :: cs => go k cs
  | 0, c :: cs =>
    match m (c :: cs) with
    | some (a, rest) => a :: go (cs.length - rest.length) cs
    | none => go 0 cs

/-- What `m` finds in the text. -/
def matchAll (text : List C) : List α := go m 0 text

variable {m}

theorem go_append (u rest : List C) : go m u.length (u ++ rest) = matchAll m rest := by
  induction u with
  | nil => rfl
  | cons c u ih => exact ih

theorem matchAll_match {c : C} {u rest : List C} {a : α} (h : m (c :: (u ++ rest)) = some (a, rest)) :
    matchAll m (c :: (u ++ rest)) = a :: matchAll m rest := by
  have hlength : (u ++ rest).length - rest.length = u.length := by
    rw [List.length_append]
    omega
  rw [matchAll, go, h]
  dsimp only
  rw [hlength, go_append]

theorem matchAll_skip {u : List C} (h : ∀ c ∈ u, ∀ text, m (c :: text) = none) (rest : List C) :
    matchAll m (u ++ rest) = matchAll m rest := by
  induction u with
  | nil => rfl
  | cons c u ih =>
    rw [List.cons_append, matchAll, go, h c List.mem_cons_self]
    exact ih fun d hd => h d (List.mem_cons_of_mem c hd)

end Matches
