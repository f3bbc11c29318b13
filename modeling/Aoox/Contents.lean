import Mathlib.Logic.Basic

/-! # Names that share a content

A store maps names to contents, and several names of one place may stand for the same
content.  A content can only be removed as a whole, which takes all its names in that
place.  After a sequence of removals, each asked for by a name, exactly those names are
left that shared with none of the names asked for when the sequence began
(`foldl_removeBy`): the removals before it change nothing for a name that is left.
-/
namespace Contents
variable {κ γ β : Type} [DecidableEq γ] [DecidableEq β] (place : κ → γ)

/-- Removes a content from a place. -/
def remove (s : κ → Option β) (g : γ) (b : β) : κ → Option β :=
  fun k => if place k = g ∧ s k = some b then none else s k

/-- Removes what a name stands for, if it stands for anything. -/
def removeBy (s : κ → Option β) (k : κ) : κ → Option β :=
  match s k with
  | none => s
  | some b => remove place s (place k) b

/-- Two names of one content. -/
def Shares (s : κ → Option β) (k k' : κ) : Prop :=
  place k = place k' ∧ s k = s k' ∧ s k ≠ none

variable {place} {s : κ → Option β} {k k' : κ}

omit [DecidableEq γ] [DecidableEq β] in
theorem Shares.trans {k'' : κ} (h : Shares place s k k') (h' : Shares place s k' k'') :
    Shares place s k k'' :=
  ⟨h.1.trans h'.1, h.2.1.trans h'.2.1, h.2.2⟩

theorem removeBy_eq_some {b : β} :
    removeBy place s k k' = some b ↔ s k' = some b ∧ ¬ Shares place s k k' := by
  rcases hk : s k with _ | c
  · simp [removeBy, Shares, hk]
  · simp only [removeBy, remove, hk, Shares]
    split
    · rename_i h
      simp [h.1, h.2]
    · rename_i h
      constructor
      · intro hb
        exact ⟨hb, fun hs => h ⟨hs.1.symm, hs.2.1.symm⟩⟩
      · exact fun hb => hb.1

/-- A name that is left shares with the same names as before. -/
theorem shares_removeBy {k₀ : κ} (h : ¬ Shares place s k₀ k') :
    Shares place (removeBy place s k₀) k k' ↔ Shares place s k k' := by
  constructor
  · rintro ⟨hplace, heq, hne⟩
    obtain ⟨b, hb⟩ := Option.ne_none_iff_exists'.mp hne
    have hs := (removeBy_eq_some.mp hb).1
    have hs' := (removeBy_eq_some.mp (heq ▸ hb)).1
    exact ⟨hplace, hs.trans hs'.symm, by simp [hs]⟩
  · intro hs
    obtain ⟨b, hb⟩ := Option.ne_none_iff_exists'.mp hs.2.2
    -- Were `k` removed with `k₀`, so would `k'` have been.
    have hk : ¬ Shares place s k₀ k := fun h₀ => h (h₀.trans hs)
    have hleft : removeBy place s k₀ k = some b := removeBy_eq_some.mpr ⟨hb, hk⟩
    have hleft' : removeBy place s k₀ k' = some b := removeBy_eq_some.mpr ⟨hs.2.1 ▸ hb, h⟩
    exact ⟨hs.1, hleft.trans hleft'.symm, by simp [hleft]⟩

/-- **What a sequence of removals leaves.** -/
theorem foldl_removeBy {ks : List κ} {b : β} : ks.foldl (removeBy place) s k' = some b ↔
      s k' = some b ∧ ∀ k ∈ ks, ¬ Shares place s k k' := by
  induction ks generalizing s with
  | nil => simp
  | cons k₀ ks ih =>
    rw [List.foldl_cons, ih, removeBy_eq_some, List.forall_mem_cons, and_assoc]
    refine and_congr_right fun _ => and_congr_right fun h₀ => ?_
    exact forall₂_congr fun k _ => not_congr (shares_removeBy h₀)

end Contents
