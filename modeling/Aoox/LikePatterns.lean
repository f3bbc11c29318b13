import Aoox.JsString
import Mathlib.Data.List.Forall2

/-! # Patterns of LIKE

A pattern of SQL's `LIKE` is matched against a whole text: `%` stands for any text, `_` for any one
unit, and the unit behind a backslash for itself.  A pattern that has a plain middle between two `%`
matches the texts that have a part like that middle (`like_contains`), where an underscore of the
middle is still any unit.
-/
namespace Aoox.Like
open JsString

inductive Token where
  | many
  | one
  | unit (c : CodeUnit)

/-- The tokens of a pattern.  A pattern that ends in a backslash is an error, and not asked for. -/
def tokens : JsString → List Token
  | [] => []
  | c :: cs =>
    if c = cu '%' then .many :: tokens cs
    else if c = cu '_' then .one :: tokens cs
    else if c = cu '\\' then
      match cs with
      | [] => []
      | d :: ds => .unit d :: tokens ds
    else .unit c :: tokens cs

def matchTokens : List Token → JsString → Bool
  | [], text => text = []
  | .many :: ps, text => text.tails.any (matchTokens ps)
  | .one :: ps, _ :: cs => matchTokens ps cs
  | .unit c :: ps, x :: cs => x = c && matchTokens ps cs
  | .one :: _, [] => false
  | .unit _ :: _, [] => false

/-- `text LIKE pattern`. -/
def like (pattern text : JsString) : Bool := matchTokens (tokens pattern) text

attribute [local simp] tokens matchTokens

/-! ## Plain parts -/

/-- A unit that stands for itself, or an underscore. -/
def isPlain (c : CodeUnit) : Bool := c ≠ cu '%' && c ≠ cu '\\'

/-- What a plain part of a pattern matches: its own text, an underscore standing for any unit. -/
def Alike (part text : JsString) : Prop := List.Forall₂ (fun p c => p = cu '_' ∨ c = p) part text

theorem Alike.refl (text : JsString) : Alike text text := by
  induction text with
  | nil => exact .nil
  | cons c cs ih => exact .cons (.inr rfl) ih

variable {part text : JsString}

theorem Alike.length_eq (h : Alike part text) : part.length = text.length :=
  List.Forall₂.length_eq h

/-- A unit that is no underscore is matched by itself. -/
theorem alike_singleton {c : CodeUnit} (hc : c ≠ cu '_') : Alike [c] text ↔ text = [c] := by
  constructor
  · rintro (_ | ⟨hx, hnil⟩)
    cases hnil
    rw [hx.resolve_left hc]
  · rintro rfl
    exact Alike.refl [c]

theorem alike_append {rest : JsString} :
    Alike (part ++ rest) text ↔ ∃ a b, text = a ++ b ∧ Alike part a ∧ Alike rest b := by
  induction part generalizing text with
  | nil =>
    constructor
    · exact fun h => ⟨[], text, rfl, .nil, h⟩
    · rintro ⟨a, b, rfl, hnil, h⟩
      cases hnil
      exact h
  | cons p ps ih =>
    constructor
    · rintro (_ | ⟨hx, h⟩)
      obtain ⟨a, b, rfl, ha, hb⟩ := ih.mp h
      exact ⟨_ :: a, b, rfl, .cons hx ha, hb⟩
    · rintro ⟨a, b, rfl, _ | ⟨hx, ha⟩, hb⟩
      exact .cons hx (ih.mpr ⟨_, b, rfl, ha, hb⟩)

theorem Alike.count_le (h : Alike part text) {c : CodeUnit}
    (hc : c ≠ cu '_') : part.count c ≤ text.count c := by
  induction h with
  | nil => exact Nat.le_refl _
  | @cons p x ps xs hpx _ ih =>
    rw [List.count_cons, List.count_cons]
    by_cases hp : p = c
    · obtain rfl : x = c := (hpx.resolve_left fun hu => hc (hp ▸ hu)).trans hp
      simpa [hp] using ih
    · rw [if_neg (by simpa using hp)]
      omega

theorem tokens_many (cs : JsString) : tokens (cu '%' :: cs) = .many :: tokens cs := by
  cases cs <;> simp [tokens]

theorem tokens_one (cs : JsString) : tokens (cu '_' :: cs) = .one :: tokens cs := by
  have hne : cu '_' ≠ cu '%' := by decide
  cases cs <;> simp [tokens, hne]

theorem tokens_unit {c : CodeUnit} (hc : isPlain c = true) (hone : c ≠ cu '_') (cs : JsString) :
    tokens (c :: cs) = .unit c :: tokens cs := by
  rw [isPlain, Bool.and_eq_true, decide_eq_true_eq, decide_eq_true_eq] at hc
  cases cs <;> simp [tokens, hc, hone]

theorem matchTokens_many {ps : List Token} :
    matchTokens (.many :: ps) text = true ↔ ∃ a b, text = a ++ b ∧ matchTokens ps b = true := by
  simp only [matchTokens, List.any_eq_true, List.mem_tails]
  constructor
  · rintro ⟨b, ⟨a, rfl⟩, hb⟩
    exact ⟨a, b, rfl, hb⟩
  · rintro ⟨a, b, rfl, hb⟩
    exact ⟨b, List.suffix_append a b, hb⟩

theorem matchTokens_nil : matchTokens [.many] text = true :=
  matchTokens_many.mpr ⟨text, [], by simp, rfl⟩

/-- **A plain part in front.**  It takes a text like it off the front. -/
theorem matchTokens_plain {rest : JsString} (h : part.all isPlain = true) :
    matchTokens (tokens (part ++ rest)) text = true ↔
      ∃ a b, text = a ++ b ∧ Alike part a ∧ matchTokens (tokens rest) b = true := by
  induction part generalizing text with
  | nil =>
    constructor
    · exact fun hm => ⟨[], text, rfl, .nil, hm⟩
    · rintro ⟨a, b, rfl, hnil, hm⟩
      cases hnil
      exact hm
  | cons p ps ih =>
    rw [List.all_cons, Bool.and_eq_true] at h
    obtain ⟨hp, hps⟩ := h
    have hstep : ∀ {x : CodeUnit} {xs : JsString},
        matchTokens (tokens (p :: (ps ++ rest))) (x :: xs) = true ↔
          (p = cu '_' ∨ x = p) ∧ matchTokens (tokens (ps ++ rest)) xs = true := by
      intro x xs
      by_cases hone : p = cu '_'
      · rw [hone, tokens_one, matchTokens]
        simp
      · rw [tokens_unit hp hone, matchTokens]
        simp [hone]
    have hempty : matchTokens (tokens (p :: (ps ++ rest))) [] = false := by
      by_cases hone : p = cu '_'
      · rw [hone, tokens_one, matchTokens]
      · rw [tokens_unit hp hone, matchTokens]
    rw [List.cons_append]
    constructor
    · intro hm
      cases text with
      | nil =>
        rw [hempty] at hm
        cases hm
      | cons x xs =>
        obtain ⟨hx, hrest⟩ := hstep.mp hm
        obtain ⟨a, b, rfl, ha, hb⟩ := (ih hps).mp hrest
        exact ⟨x :: a, b, rfl, .cons hx ha, hb⟩
    · rintro ⟨a, b, rfl, ha, hb⟩
      cases ha with
      | cons hx ha => exact hstep.mpr ⟨hx, (ih hps).mpr ⟨_, b, rfl, ha, hb⟩⟩

/-- **A part anywhere in a text.** -/
theorem like_contains (h : part.all isPlain = true) :
    like (cu '%' :: (part ++ [cu '%'])) text = true ↔
      ∃ before mid after, text = before ++ (mid ++ after) ∧ Alike part mid := by
  have hback : tokens [cu '%'] = [.many] := rfl
  rw [like, tokens_many, matchTokens_many]
  constructor
  · rintro ⟨before, rest, rfl, hrest⟩
    obtain ⟨mid, after, rfl, hmid, -⟩ := (matchTokens_plain h).mp hrest
    exact ⟨before, mid, after, rfl, hmid⟩
  · rintro ⟨before, mid, after, rfl, hmid⟩
    refine ⟨before, mid ++ after, rfl, (matchTokens_plain h).mpr ⟨mid, after, rfl, hmid, ?_⟩⟩
    rw [hback]
    exact matchTokens_nil

end Aoox.Like
