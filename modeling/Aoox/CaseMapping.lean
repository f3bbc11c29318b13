import Aoox.JsString

/-! # Case mapping

`toLowerCase` and `toUpperCase` map a string character by character.  Their tables, which come from
the Unicode character database, are left open but for ASCII.  Only a sigma is looked at together
with what stands around it: it is a final one if a cased letter stands before it and none behind
it, whatever case-ignorable characters lie between.  A blank is neither cased nor ignorable, so
nothing behind a blank counts for what stands before it.
-/
open List
namespace Aoox.CaseMapping
open JsString

/-- The characters of a string; a lone surrogate is one too. -/
def characters : JsString → List JsString
  | [] => []
  | [c] => [[c]]
  | c :: d :: t =>
    if isLeadSurrogate c && isTrailSurrogate d then [c, d] :: characters t
    else [c] :: characters (d :: t)

def asciiUpper (c : CodeUnit) : CodeUnit := if cu 'a' ≤ c && c ≤ cu 'z' then c - 32 else c

/-- What the tables say of a character. -/
structure Tables where
  (lower upper : JsString → JsString)
  (cased ignorable : JsString → Bool)
  /-- The decomposition of a whole string, `normalize('NFKD')`. -/
  nfkd : JsString → JsString
  lower_ascii : ∀ c : CodeUnit, c < 128 → lower [c] = toLowerCase [c]
  upper_ascii : ∀ c : CodeUnit, c < 128 → upper [c] = [asciiUpper c]
  blank : cased [cu ' '] = false ∧ ignorable [cu ' '] = false

namespace Tables
variable (T : Tables)

/-- The first character that is not ignorable is a cased letter. -/
def meetsCased (text : List JsString) : Bool := (text.dropWhile T.ignorable).head?.any T.cased

/-- The lower case of what stands behind `before`, whose last character is its head. -/
def lowerBehind : (before text : List JsString) → JsString
  | _, [] => []
  | before, c :: t =>
    (if c = [0x3A3] then
      if T.meetsCased before && !T.meetsCased t then [0x3C2] else [0x3C3]
    else T.lower c) ++ lowerBehind (c :: before) t

def toLowerCase (text : JsString) : JsString := T.lowerBehind [] (characters text)

def toUpperCase (text : JsString) : JsString := (characters text).flatMap T.upper

end Tables

/-! ## Characters -/

theorem characters_append_cons {c : CodeUnit} (hc : isTrailSurrogate c = false) (t s : JsString) :
    characters (t ++ c :: s) = characters t ++ characters (c :: s) := by
  induction t using characters.induct with
  | case1 => rfl
  | case2 d => exact if_neg (by simp [hc])
  | case3 d e t hpair ih =>
    rw [cons_append, cons_append, characters, if_pos hpair, ih, characters, if_pos hpair]
    rfl
  | case4 d e t hpair ih =>
    rw [cons_append, cons_append, characters, if_neg hpair, ← cons_append, ih,
      characters, if_neg hpair]
    rfl

theorem characters_ascii {t : JsString} (h : ∀ c ∈ t, c < 128) :
    characters t = t.map fun c => [c] := by
  induction t with
  | nil => rfl
  | cons c t ih =>
    cases t with
    | nil => rfl
    | cons d t =>
      have hlead : isLeadSurrogate c = false := by
        have hlt : c < 0xD800 := UInt16.lt_trans (h c mem_cons_self) (by decide)
        simpa [isLeadSurrogate] using fun hle => absurd hlt (UInt16.not_lt.mpr hle)
      rw [characters, if_neg (by simp [hlead]), ih fun x hx => h x (mem_cons_of_mem _ hx)]
      rfl

/-! ## ASCII -/

section Ascii
variable (T : Tables)

theorem toUpperCase_ascii {t : JsString} (h : ∀ c ∈ t, c < 128) :
    T.toUpperCase t = t.map asciiUpper := by
  rw [Tables.toUpperCase, characters_ascii h, flatMap_map, map_eq_flatMap]
  exact flatMap_congr fun c hc => T.upper_ascii c (h c hc)

theorem meetsCased_append {t s : List JsString} :
    T.meetsCased (t ++ [cu ' '] :: s) = T.meetsCased t := by
  induction t with
  | nil => simp [Tables.meetsCased, T.blank]
  | cons c t ih =>
    cases hc : T.ignorable c with
    | true => simpa [Tables.meetsCased, hc] using ih
    | false => simp [Tables.meetsCased, hc]

theorem lowerBehind_append (before t s : List JsString) :
    T.lowerBehind before (t ++ [cu ' '] :: s) =
      T.lowerBehind before t ++ T.lowerBehind (t.reverse ++ before) ([cu ' '] :: s) := by
  induction t generalizing before with
  | nil => rfl
  | cons c t ih =>
    rw [cons_append, Tables.lowerBehind, Tables.lowerBehind, meetsCased_append, ih,
      append_assoc, reverse_cons, append_assoc, singleton_append]

theorem lowerBehind_ascii {t : JsString} (h : ∀ c ∈ t, c < 128 ∧ JsString.toLowerCase [c] = [c])
    (before : List JsString) : T.lowerBehind before (t.map fun c => [c]) = t := by
  induction t generalizing before with
  | nil => rfl
  | cons c t ih =>
    obtain ⟨hlt, hsame⟩ := h c mem_cons_self
    have hne : ([c] : JsString) ≠ [0x3A3] := by
      intro heq
      rw [(List.cons.inj heq).1] at hlt
      exact absurd hlt (by decide)
    rw [map_cons, Tables.lowerBehind, if_neg hne, T.lower_ascii c hlt, hsame,
      ih fun x hx => h x (mem_cons_of_mem _ hx)]
    rfl

/-- What stands behind a blank and has no case stays, and changes nothing before it. -/
theorem toLowerCase_append {t s : JsString} (h : ∀ c ∈ s, c < 128 ∧ JsString.toLowerCase [c] = [c]) :
    T.toLowerCase (t ++ cu ' ' :: s) = T.toLowerCase t ++ cu ' ' :: s := by
  have hall : ∀ c ∈ cu ' ' :: s, c < 128 ∧ JsString.toLowerCase [c] = [c] :=
    forall_mem_cons.mpr ⟨by decide, h⟩
  rw [Tables.toLowerCase, characters_append_cons (by decide),
    characters_ascii fun c hc => (hall c hc).1, map_cons, lowerBehind_append]
  exact congrArg (T.toLowerCase t ++ ·) (lowerBehind_ascii T hall _)

end Ascii

end Aoox.CaseMapping
