import Mathlib.Data.List.Basic

/-! # Frames in a stream

A reader takes complete frames off the front of what it has and keeps the rest for the next chunk.
Where a frame that is complete stays what it is when more follows, the frames it takes and what it
keeps do not depend on how the stream is cut (`feed_eq`).
-/
namespace Framing
variable {β γ : Type}

/-- A test for a complete frame at the front. -/
structure Cutter (β γ : Type) where
  cut : List β → Option (γ × List β)
  shorter : ∀ {a rest : List β} {x : γ}, cut a = some (x, rest) → rest.length < a.length
  stable : ∀ {a rest : List β} {x : γ} (b : List β), cut a = some (x, rest) →
    cut (a ++ b) = some (x, rest ++ b)

variable (c : Cutter β γ)

/-- Takes frames while there are any. -/
def drain (a : List β) : List γ × List β :=
  match _h : c.cut a with
  | some (x, rest) => (x :: (drain rest).1, (drain rest).2)
  | none => ([], a)
termination_by a.length
decreasing_by all_goals exact c.shorter ‹_›

variable {c}

theorem drain_some {a rest : List β} {x : γ} (h : c.cut a = some (x, rest)) :
    drain c a = (x :: (drain c rest).1, (drain c rest).2) := by
  rw [drain]
  split
  · rename_i h'
    obtain ⟨rfl, rfl⟩ := Prod.mk.inj (Option.some.inj (h.symm.trans h'))
    rfl
  · rename_i h'
    rw [h] at h'
    cases h'

theorem drain_none {a : List β} (h : c.cut a = none) : drain c a = ([], a) := by
  rw [drain]
  split
  · rename_i h'
    rw [h] at h'
    cases h'
  · rfl

/-- **Draining twice is draining once.** -/
theorem drain_append (a b : List β) :
    drain c (a ++ b) = ((drain c a).1 ++ (drain c ((drain c a).2 ++ b)).1,
      (drain c ((drain c a).2 ++ b)).2) := by
  induction hn : a.length using Nat.strongRecOn generalizing a with
  | ind n ih =>
    cases h : c.cut a with
    | none => rw [drain_none h, List.nil_append]
    | some cut =>
      obtain ⟨x, rest⟩ := cut
      rw [drain_some h, drain_some (c.stable b h), ih rest.length (hn ▸ c.shorter h) rest rfl]
      rfl

variable (c) in
/-- Chunk after chunk, with what is kept from the one before. -/
def feed : List β → List (List β) → List γ × List β
  | carry, [] => ([], carry)
  | carry, chunk :: chunks =>
    let (xs, rest) := drain c (carry ++ chunk)
    (xs ++ (feed rest chunks).1, (feed rest chunks).2)

/-- **However a stream is cut, the frames are those of the whole.** -/
theorem feed_eq (chunks : List (List β)) : feed c [] chunks = drain c chunks.flatten := by
  have hgo : ∀ (chunks : List (List β))
      (a : List β), ((drain c a).1 ++ (feed c (drain c a).2 chunks).1,
      (feed c (drain c a).2 chunks).2) = drain c (a ++ chunks.flatten) := by
    intro chunks
    induction chunks with
    | nil =>
      intro a
      simp [feed]
    | cons chunk chunks ih =>
      intro a
      rw [List.flatten_cons, ← List.append_assoc, ← ih (a ++ chunk), drain_append a chunk]
      simp only [feed, List.append_assoc]
  have hnil : c.cut [] = none := by
    cases h : c.cut [] with
    | none => rfl
    | some cut => exact absurd (c.shorter h) (Nat.not_lt_zero _)
  have h := hgo chunks []
  rw [drain_none hnil] at h
  exact h

end Framing
