import Aoox.ShellSyntax
import Mathlib.Data.List.MinMax

/-! # Searching and editing lines

The part of `grep` and `sed` that scripts put together by a program need: basic regular
expressions of characters, `.` and `*`, with or without a `^` in front, and the command
`s/expression/replacement/`.  What is not covered is refused.

A text is its complete lines and what stands behind the last line end (`splitEnds_unlines`).
-/
open List Option
namespace Sed
open Shell (Alphabet sign sign_eq_iff)
variable {C : Type} [DecidableEq C] [Alphabet C]

/-! ## Lines -/

/-- A character in front of lines and a rest. -/
def putFirst (c : C) : List (List C) × List C → List (List C) × List C
  | ([], rest) => ([], c :: rest)
  | (l :: ls, rest) => ((c :: l) :: ls, rest)

/-- The complete lines of a text, and what is behind the last of them. -/
def splitEnds : List C → List (List C) × List C
  | [] => ([], [])
  | c :: t =>
    if c = sign '\n' then ([] :: (splitEnds t).1, (splitEnds t).2) else putFirst c (splitEnds t)

/-- The lines of a text; the last one may lack its end. -/
def lines (t : List C) : List (List C) :=
  (splitEnds t).1 ++ if (splitEnds t).2 = [] then [] else [(splitEnds t).2]

def unlines (ls : List (List C)) : List C := ls.flatMap (· ++ [sign '\n'])

/-- Every line is edited; a last line without an end is left without one. -/
def editLines (f : List C → List C) (t : List C) : List C :=
  unlines ((splitEnds t).1.map f) ++ if (splitEnds t).2 = [] then [] else f (splitEnds t).2

/-! ## Expressions -/

inductive Atom (C : Type) where
  | char (c : C)
  | any

def Atom.fits : Atom C → C → Bool
  | .char d, c => c = d
  | .any, _ => true

/-- An atom, or any number of them. -/
structure Item (C : Type) where
  atom : Atom C
  many : Bool

structure Regex (C : Type) where
  anchored : Bool
  items : List (Item C)

/-- The characters with a meaning that is not covered, or only in some places. -/
def isSpecial (c : C) : Bool :=
  c = sign '\\' || c = sign '[' || c = sign '*' || c = sign '^' || c = sign '$'

def parseItems : List C → Option (List (Item C))
  | [] => some []
  | [c] => if isSpecial c then none else some [⟨if c = sign '.' then .any else .char c, false⟩]
  | c :: d :: t =>
    if isSpecial c then none
    else
      let atom := if c = sign '.' then .any else .char c
      if d = sign '*' then (parseItems t).map (⟨atom, true⟩ :: ·)
      else (parseItems (d :: t)).map (⟨atom, false⟩ :: ·)

def parseRegex : List C → Option (Regex C)
  | [] => none
  | c :: t =>
    if c = sign '^' then (parseItems t).map (⟨true, ·⟩) else (parseItems (c :: t)).map (⟨false, ·⟩)

def behindMany (a : Atom C) : List C → List (List C)
  | [] => [[]]
  | c :: t => (c :: t) :: if a.fits c then behindMany a t else []

/-- What can be left of a text behind the items. -/
def rests : List (Item C) → List C → List (List C)
  | [], t => [t]
  | ⟨a, true⟩ :: is, t => (behindMany a t).flatMap (rests is)
  | ⟨a, false⟩ :: is, t =>
    match t with
    | [] => []
    | c :: t => if a.fits c then rests is t else []

/-- The first and longest match: what is in front of it and what is behind it. -/
def Regex.find (r : Regex C) : List C → Option (List C × List C)
  | [] => (List.argmin List.length (rests r.items [])).map fun rest => ([], rest)
  | c :: t =>
    match List.argmin List.length (rests r.items (c :: t)) with
    | some rest => some ([], rest)
    | none => if r.anchored then none else (r.find t).map fun m => (c :: m.1, m.2)

/-- `grep -q`: the exit code. -/
def search (pattern t : List C) : Nat :=
  match parseRegex pattern with
  | none => 2
  | some r => if (lines t).any fun l => (r.find l).isSome then 0 else 1

/-! ## Substitutions -/

/-- A piece of a replacement. -/
inductive Part (C : Type) where
  | char (c : C)
  /-- `&`. -/
  | whole

/-- A replacement up to the delimiter that ends it, and the script with it.  What a backslash and
another character stand for is left open; a `sed` may refuse them. -/
def parseParts (escape : C → Option (List C)) : List C → Option (List (Part C))
  | [] => none
  | [c] => if c = sign '/' then some [] else none
  | c :: d :: t =>
    if c = sign '/' ∨ c = sign '\n' then none
    else if c = sign '\\' then
      if d = sign '\\' ∨ d = sign '&' ∨ d = sign '/' then (parseParts escape t).map (.char d :: ·)
      else (escape d).bind fun text => (parseParts escape t).map (text.map .char ++ ·)
    else if c = sign '&' then (parseParts escape (d :: t)).map (.whole :: ·)
    else (parseParts escape (d :: t)).map (.char c :: ·)

attribute [local simp] parseParts

/-- `s/expression/replacement/`. -/
def parseScript (escape : C → Option (List C)) (script : List C) :
    Option (Regex C × List (Part C)) :=
  match script with
  | c :: d :: t =>
    if c = sign 's' ∧ d = sign '/' then
      (parseRegex (t.takeWhile (· ≠ sign '/'))).bind fun r =>
        (parseParts escape (t.dropWhile (· ≠ sign '/')).tail).map (r, ·)
    else none
  | _ => none

def Part.fill (whole : List C) : Part C → List C
  | .char c => [c]
  | .whole => whole

/-- The first match in a line is replaced. -/
def substitute (r : Regex C) (parts : List (Part C)) (line : List C) : List C :=
  match r.find line with
  | none => line
  | some (before, behind) =>
    let whole := (line.drop before.length).take (line.length - before.length - behind.length)
    before ++ parts.flatMap (Part.fill whole) ++ behind

/-- `sed -i`: the new text; `none` if the script is not in order. -/
def edit (escape : C → Option (List C)) (script t : List C) : Option (List C) :=
  (parseScript escape script).map fun s => editLines (substitute s.1 s.2) t

/-! ## Texts as lines -/

theorem splitEnds_rest {t : List C} (h : sign '\n' ∉ t) : splitEnds t = ([], t) := by
  induction t with
  | nil => rfl
  | cons c t ih =>
    rw [mem_cons, not_or] at h
    rw [splitEnds, if_neg (Ne.symm h.1), ih h.2]
    rfl

theorem splitEnds_line {l : List C} (h : sign '\n' ∉ l) (t : List C) :
    splitEnds (l ++ sign '\n' :: t) = (l :: (splitEnds t).1, (splitEnds t).2) := by
  induction l with
  | nil => exact if_pos rfl
  | cons c l ih =>
    rw [mem_cons, not_or] at h
    rw [cons_append, splitEnds, if_neg (Ne.symm h.1), ih h.2]
    rfl

/-- **A text is its complete lines and the rest.** -/
theorem splitEnds_unlines {ls : List (List C)} (hls : ∀ l ∈ ls, sign '\n' ∉ l) {rest : List C}
    (hrest : sign '\n' ∉ rest) : splitEnds (unlines ls ++ rest) = (ls, rest) := by
  induction ls with
  | nil => exact splitEnds_rest hrest
  | cons l ls ih =>
    have htext : unlines (l :: ls) ++ rest = l ++ sign '\n' :: (unlines ls ++ rest) := by
      simp [unlines]
    rw [htext, splitEnds_line (hls l mem_cons_self), ih fun m hm => hls m (mem_cons_of_mem _ hm)]

theorem exists_unlines (t : List C) : ∃ ls rest, t = unlines ls ++ rest ∧
    (∀ l ∈ ls, sign '\n' ∉ l) ∧ sign '\n' ∉ rest := by
  induction t with
  | nil => exact ⟨[], [], rfl, fun l hl => (by cases hl), not_mem_nil⟩
  | cons c t ih =>
    obtain ⟨ls, rest, rfl, hls, hrest⟩ := ih
    by_cases hc : c = sign '\n'
    · subst hc
      refine ⟨[] :: ls, rest, rfl, ?_, hrest⟩
      exact forall_mem_cons.mpr ⟨not_mem_nil, hls⟩
    · have hcons : ∀ {l : List C}, sign '\n' ∉ l → sign '\n' ∉ c :: l :=
        fun hl hmem => (mem_cons.mp hmem).elim (fun heq => hc heq.symm) hl
      cases ls with
      | nil => exact ⟨[], c :: rest, rfl, hls, hcons hrest⟩
      | cons l ls =>
        rw [forall_mem_cons] at hls
        exact ⟨(c :: l) :: ls, rest, rfl, forall_mem_cons.mpr ⟨hcons hls.1, hls.2⟩, hrest⟩

omit [DecidableEq C] in
theorem unlines_append (ls ms : List (List C)) : unlines (ls ++ ms) = unlines ls ++ unlines ms :=
  flatMap_append

section Lines
variable {ls : List (List C)} {rest : List C} (hls : ∀ l ∈ ls, sign '\n' ∉ l)
    (hrest : sign '\n' ∉ rest)
include hls hrest

theorem lines_unlines : lines (unlines ls ++ rest) = ls ++ if rest = [] then [] else [rest] := by
  rw [lines, splitEnds_unlines hls hrest]

/-- **Every line is edited on its own.** -/
theorem lines_editLines {f : List C → List C} (hf : ∀ l, sign '\n' ∉ l → sign '\n' ∉ f l)
    (hne : rest ≠ [] → f rest ≠ []) :
    lines (editLines f (unlines ls ++ rest)) = (lines (unlines ls ++ rest)).map f := by
  have hmap : ∀ l ∈ ls.map f, sign '\n' ∉ l := by
    intro l hl
    obtain ⟨m, hm, rfl⟩ := mem_map.mp hl
    exact hf m (hls m hm)
  have hedited : editLines f (unlines ls ++ rest) =
      unlines (ls.map f) ++ if rest = [] then [] else f rest := by
    rw [editLines, splitEnds_unlines hls hrest]
  rw [hedited, lines_unlines hls hrest]
  split_ifs with hempty
  · rw [lines, splitEnds_unlines hmap not_mem_nil]
    simp
  · rw [lines, splitEnds_unlines hmap (hf rest hrest), if_neg (hne hempty), map_append]
    rfl

/-- A line that is added continues the rest. -/
theorem lines_added {l : List C} (hl : sign '\n' ∉ l) :
    lines (unlines ls ++ rest ++ (l ++ [sign '\n'])) = ls ++ [rest ++ l] := by
  have hline : sign '\n' ∉ rest ++ l := fun hmem => (mem_append.mp hmem).elim hrest hl
  have hall : ∀ m ∈ ls ++ [rest ++ l], sign '\n' ∉ m := by
    intro m hm
    rcases mem_append.mp hm with hm | hm
    · exact hls m hm
    · rw [mem_singleton.mp hm]
      exact hline
  have htext : unlines ls ++ rest ++ (l ++ [sign '\n']) = unlines (ls ++ [rest ++ l]) ++ [] := by
    simp [unlines]
  rw [htext, lines, splitEnds_unlines hall not_mem_nil]
  simp

end Lines

/-! ## Expressions for the beginning of a line -/

/-- A character that stands for itself in an expression. -/
def isLiteral (c : C) : Bool := !isSpecial c && c ≠ sign '.'

/-- The characters of a word, as items. -/
def itemsOf (w : List C) : List (Item C) := w.map fun c => ⟨.char c, false⟩

theorem parseItems_literal {w : List C} (h : w.all isLiteral = true) :
    parseItems w = some (itemsOf w) ∧
      parseItems (w ++ [sign '.', sign '*']) = some (itemsOf w ++ [⟨.any, true⟩]) := by
  have hstep : ∀ {c d : C} {t : List C}, isLiteral c = true → d ≠ sign '*' →
      parseItems (c :: d :: t) = (parseItems (d :: t)).map (⟨.char c, false⟩ :: ·) := by
    intro c d t hc hd
    simp only [isLiteral, Bool.and_eq_true, Bool.not_eq_true', decide_eq_true_eq] at hc
    simp [parseItems, hc, hd]
  have hdot : sign (C := C) '.' ≠ sign '*' := fun h =>
    absurd ((sign_eq_iff (by decide) (by decide)).mp h) (by decide)
  have hmany : parseItems [sign (C := C) '.', sign '*'] = some [⟨.any, true⟩] := by
    simp (disch := decide) [parseItems, isSpecial, sign_eq_iff]
  induction w with
  | nil => exact ⟨rfl, hmany⟩
  | cons c w ih =>
    rw [all_cons, Bool.and_eq_true] at h
    obtain ⟨hc, hw⟩ := h
    obtain ⟨ihw, ihmany⟩ := ih hw
    cases w with
    | nil =>
      constructor
      · simp only [isLiteral, Bool.and_eq_true, Bool.not_eq_true', decide_eq_true_eq] at hc
        simp [parseItems, hc, itemsOf]
      · rw [cons_append, nil_append, hstep hc hdot, hmany]
        rfl
    | cons d w =>
      have hd : d ≠ sign '*' := by
        rintro rfl
        rw [all_cons, Bool.and_eq_true] at hw
        simp [isLiteral, isSpecial] at hw
      constructor
      · rw [hstep hc hd, ihw]
        rfl
      · rw [cons_append, cons_append, hstep hc hd, ← cons_append, ihmany]
        rfl

omit [Alphabet C] in
theorem rests_itemsOf (w : List C) (is : List (Item C)) (t : List C) :
    rests (itemsOf w ++ is) t = if w <+: t then rests is (t.drop w.length) else [] := by
  induction w generalizing t with
  | nil => simp [itemsOf]
  | cons c w ih =>
    cases t with
    | nil => simp [itemsOf, rests]
    | cons d t =>
      have hstep : rests (itemsOf (c :: w) ++ is) (d :: t) =
          if Atom.fits (.char c) d then rests (itemsOf w ++ is) t else [] := rfl
      rw [hstep, ih]
      by_cases hd : d = c
      · simp [Atom.fits, hd]
      · simp [Atom.fits, hd, Ne.symm hd]

omit [Alphabet C] in
theorem mem_behindMany_any (t : List C) : [] ∈ behindMany .any t := by
  induction t with
  | nil => exact mem_singleton_self _
  | cons c t ih => exact mem_cons_of_mem _ ih

omit [Alphabet C] in
theorem find_anchored (is : List (Item C)) (l : List C) :
    Regex.find ⟨true, is⟩ l = (argmin List.length (rests is l)).map fun rest => ([], rest) := by
  cases l with
  | nil => rfl
  | cons c l =>
    rw [Regex.find]
    cases argmin List.length (rests is (c :: l)) with
    | none => rfl
    | some rest => rfl

omit [Alphabet C] in
/-- **A word at the beginning of a line**, alone or with all that follows it. -/
theorem find_word (w l : List C) :
    Regex.find ⟨true, itemsOf w⟩ l = (if w <+: l then some ([], l.drop w.length) else none) ∧
      Regex.find ⟨true, itemsOf w ++ [⟨.any, true⟩]⟩ l =
        if w <+: l then some ([], []) else none := by
  have halone := rests_itemsOf w [] l
  rw [append_nil] at halone
  rw [find_anchored, find_anchored, halone, rests_itemsOf w [⟨.any, true⟩] l]
  split_ifs with hw
  · refine ⟨rfl, ?_⟩
    have hmany : rests [⟨.any, true⟩] (l.drop w.length) = behindMany .any (l.drop w.length) :=
      flatMap_singleton' _
    have hmem := mem_behindMany_any (l.drop w.length)
    rw [hmany]
    cases hmin : argmin List.length (behindMany .any (l.drop w.length)) with
    | none =>
      rw [argmin_eq_none.mp hmin] at hmem
      cases hmem
    | some rest =>
      have hle := le_of_mem_argmin hmem hmin
      rw [length_eq_zero_iff.mp (Nat.le_zero.mp hle)]
      rfl
  · exact ⟨rfl, rfl⟩

section Words
variable {w : List C} (hw : w.all isLiteral = true)
include hw

theorem parseRegex_word : parseRegex (sign '^' :: w) = some ⟨true, itemsOf w⟩ ∧
    parseRegex (sign '^' :: (w ++ [sign '.', sign '*'])) =
      some ⟨true, itemsOf w ++ [⟨.any, true⟩]⟩ := by
  obtain ⟨halone, hmany⟩ := parseItems_literal hw
  rw [parseRegex, parseRegex, if_pos rfl, if_pos rfl, halone, hmany]
  exact ⟨rfl, rfl⟩

/-- **`grep -q '^word'`** -/
theorem search_word (t : List C) :
    search (sign '^' :: w) t = if (lines t).any fun l => w <+: l then 0 else 1 := by
  have hfind : ∀ l, (Regex.find ⟨true, itemsOf w⟩ l).isSome = decide (w <+: l) := by
    intro l
    rw [(find_word w l).1]
    by_cases hl : w <+: l <;> simp [hl]
  rw [search, (parseRegex_word hw).1]
  simp only [hfind]

/-- **`s/^word.*/replacement/`** -/
theorem edit_word (hslash : sign '/' ∉ w) (escape : C → Option (List C)) (replacement t : List C) :
    edit escape (sign 's' :: sign '/' :: sign '^' ::
        (w ++ sign '.' :: sign '*' :: sign '/' :: replacement)) t =
      (parseParts escape replacement).map fun parts =>
        editLines (fun l => if w <+: l then parts.flatMap (Part.fill l) else l) t := by
  have hexpr : ∀ c ∈ sign '^' :: (w ++ [sign '.', sign '*']), decide (c ≠ sign '/') = true := by
    intro c hc
    rw [decide_eq_true_iff]
    rintro rfl
    rw [mem_cons, mem_append] at hc
    rcases hc with hc | hc | hc
    · exact absurd ((sign_eq_iff (by decide) (by decide)).mp hc) (by decide)
    · exact hslash hc
    · simp (disch := decide) [sign_eq_iff] at hc
  have htext : sign '^' :: (w ++ sign '.' :: sign '*' :: sign '/' :: replacement) =
      sign '^' :: (w ++ [sign '.', sign '*']) ++ sign '/' :: replacement := by simp
  have hscript : parseScript escape (sign 's' :: sign '/' :: sign '^' ::
      (w ++ sign '.' :: sign '*' :: sign '/' :: replacement)) =
        (parseParts escape replacement).map (⟨true, itemsOf w ++ [⟨.any, true⟩]⟩, ·) := by
    rw [htext, parseScript, if_pos ⟨rfl, rfl⟩, takeWhile_append_of_pos hexpr,
      dropWhile_append_of_pos hexpr, takeWhile_cons_of_neg (by simp),
      dropWhile_cons_of_neg (by simp), append_nil, (parseRegex_word hw).2, tail_cons,
      bind_some]
  have hline : ∀ parts l, substitute ⟨true, itemsOf w ++ [⟨.any, true⟩]⟩ parts l =
      if w <+: l then parts.flatMap (Part.fill l) else l := by
    intro parts l
    rw [substitute, (find_word w l).2]
    split_ifs with hl
    · simp
    · rfl
  rw [edit, hscript, Option.map_map]
  refine congrArg (Option.map · _) ?_
  funext parts
  refine congrArg (editLines · t) ?_
  funext l
  exact hline parts l

end Words

/-! ## Replacements -/

/-- A character with a meaning in a replacement, or in front of one. -/
def isGuarded (c : C) : Bool := c = sign '&' || c = sign '/'

/-- A character that stands for itself in a replacement. -/
def isPlainPart (c : C) : Bool := !isGuarded c && c ≠ sign '\\' && c ≠ sign '\n'

section Parts
variable (escape : C → Option (List C))

theorem parseParts_plain {c : C} (hc : isPlainPart c = true) {t : List C} (hne : t ≠ []) :
    parseParts escape (c :: t) = (parseParts escape t).map (.char c :: ·) := by
  simp only [isPlainPart, isGuarded, Bool.and_eq_true, Bool.not_eq_true', Bool.or_eq_false_iff,
    decide_eq_true_eq, decide_eq_false_iff_not] at hc
  obtain ⟨⟨⟨hand, hslash⟩, hback⟩, hline⟩ := hc
  cases t with
  | nil => exact absurd rfl hne
  | cons d t => rw [parseParts, if_neg (not_or.mpr ⟨hslash, hline⟩), if_neg hback, if_neg hand]

theorem parseParts_plains {w : List C} (hw : w.all isPlainPart = true) {t : List C} (hne : t ≠ []) :
    parseParts escape (w ++ t) = (parseParts escape t).map (w.map .char ++ ·) := by
  induction w with
  | nil => simp
  | cons c w ih =>
    rw [all_cons, Bool.and_eq_true] at hw
    rw [cons_append, parseParts_plain escape hw.1 (by simp [hne]), ih hw.2, Option.map_map]
    rfl

theorem parseParts_guarded {c : C} (hc : isGuarded c = true) (t : List C) :
    parseParts escape (sign '\\' :: c :: t) = (parseParts escape t).map (.char c :: ·) := by
  have hback : ¬ (sign (C := C) '\\' = sign '/' ∨ sign (C := C) '\\' = sign '\n') := by
    simp (disch := decide) [sign_eq_iff]
  simp only [isGuarded, Bool.or_eq_true, decide_eq_true_eq] at hc
  rw [parseParts, if_neg hback, if_pos rfl, if_pos (Or.inr hc)]

omit [DecidableEq C] [Alphabet C] in
theorem fill_chars (w l : List C) : (w.map Part.char).flatMap (Part.fill l) = w := by
  induction w with
  | nil => rfl
  | cons c w ih => exact congrArg (c :: ·) ih

end Parts

/-- What a replacement is written with, counted: it is put out with `used` of its backslashes and
with `whole` copies of the line. -/
structure Counts (t out l : List C) (used whole : Nat) : Prop where
  plain : (out.countP fun c => !isGuarded c && c ≠ sign '\\') =
    (t.countP fun c => !isGuarded c && c ≠ sign '\\') +
      whole * l.countP fun c => !isGuarded c && c ≠ sign '\\'
  backslashes : out.count (sign '\\') = used + whole * l.count (sign '\\')
  guarded : t.count (sign '\\') + whole + 1 = 2 * used + t.countP isGuarded
  inside : ∀ c ∈ out, c ∈ t ∨ c ∈ l

section Counts
variable {t out l : List C} {used whole : Nat} {c : C}

theorem Counts.cons (h : Counts t out l used whole) (hand : isGuarded c = false)
    (hback : c ≠ sign '\\') :
    Counts (c :: t) (c :: out) l used whole := by
  obtain ⟨hplain, hbackslashes, hguarded, hinside⟩ := h
  have hne : (c == sign '\\') = false := beq_false_of_ne hback
  refine ⟨?_, ?_, ?_, ?_⟩
  · rw [countP_cons, countP_cons, hplain]
    omega
  · rw [count_cons, hne, hbackslashes]
    rfl
  · rw [count_cons, countP_cons, hne, hand]
    exact hguarded
  · intro d hd
    rcases mem_cons.mp hd with rfl | hd
    · exact Or.inl mem_cons_self
    · exact (hinside d hd).imp_left (mem_cons_of_mem _)

theorem guarded_backslash : isGuarded (sign (C := C) '\\') = false := by
  simp (disch := decide) [isGuarded, sign_eq_iff]

theorem Counts.putIn (h : Counts t out l used whole) :
    Counts (sign '&' :: t) (l ++ out) l used (whole + 1) := by
  obtain ⟨hplain, hbackslashes, hguarded, hinside⟩ := h
  have hand : isGuarded (sign (C := C) '&') = true := by simp [isGuarded]
  have hne : (sign (C := C) '&' == sign '\\') = false := by simp (disch := decide) [sign_eq_iff]
  refine ⟨?_, ?_, ?_, ?_⟩
  · rw [countP_append, countP_cons, hplain, hand, Nat.succ_mul]
    simp only [Bool.not_true, Bool.false_and, Bool.false_eq_true, if_false]
    omega
  · rw [count_append, hbackslashes, Nat.succ_mul]
    omega
  · rw [count_cons, countP_cons, hne, hand]
    simp only [Bool.false_eq_true, if_false, if_true]
    omega
  · intro d hd
    rcases mem_append.mp hd with hd | hd
    · exact Or.inr hd
    · exact (hinside d hd).imp_left (mem_cons_of_mem _)

theorem Counts.escaped (h : Counts t out l used whole)
    (hc : c = sign '\\' ∨ c = sign '&' ∨ c = sign '/') :
    ∃ used', Counts (sign '\\' :: c :: t) (c :: out) l used' whole := by
  obtain ⟨hplain, hbackslashes, hguarded, hinside⟩ := h
  have hmem : ∀ d ∈ c :: out, d ∈ sign '\\' :: c :: t ∨ d ∈ l := by
    intro d hd
    rcases mem_cons.mp hd with rfl | hd
    · exact Or.inl (by simp)
    · exact (hinside d hd).imp_left fun hd => mem_cons_of_mem _ (mem_cons_of_mem _ hd)
  by_cases hback : c = sign '\\'
  · subst hback
    refine ⟨used + 1, ?_, ?_, ?_, hmem⟩
    · simp only [countP_cons, guarded_backslash, hplain]
      simp
    · rw [count_cons_self, hbackslashes]
      omega
    · rw [count_cons_self, count_cons_self]
      simp only [countP_cons, guarded_backslash, Bool.false_eq_true, if_false]
      omega
  · have hand : isGuarded c = true := by
      rw [isGuarded, Bool.or_eq_true, decide_eq_true_eq, decide_eq_true_eq]
      exact hc.resolve_left hback
    have hne : (c == sign '\\') = false := beq_false_of_ne hback
    refine ⟨used, ?_, ?_, ?_, hmem⟩
    · simp only [countP_cons, guarded_backslash, hand, hplain]
      simp
    · rw [count_cons, hne, hbackslashes]
      rfl
    · rw [count_cons_self, count_cons, hne]
      simp only [countP_cons, guarded_backslash, hand, Bool.false_eq_true, if_false, if_true]
      omega

/-- **What is put out, if no other escape is known.** -/
theorem parseParts_counts {parts : List (Part C)} (h : parseParts (fun _ => none) t = some parts)
    (l : List C) : ∃ used whole, Counts t (parts.flatMap (Part.fill l)) l used whole := by
  induction t using parseParts.induct generalizing parts with
  | case1 => cases h
  | case2 =>
    rw [parseParts, if_pos rfl] at h
    obtain rfl := some.inj h
    refine ⟨0, 0, ?_, ?_, ?_, fun c hc => (by cases hc)⟩
    · simp [isGuarded]
    · simp
    · have hne : sign (C := C) '/' ≠ sign '\\' := by simp (disch := decide) [sign_eq_iff]
      simp [isGuarded, hne]
  | case3 c hc =>
    rw [parseParts, if_neg hc] at h
    cases h
  | case4 c d t hc =>
    rw [parseParts, if_pos hc] at h
    cases h
  | case5 d t hd hback ih =>
    rw [parseParts, if_neg hback, if_pos rfl, if_pos hd] at h
    obtain ⟨parts, hparts, rfl⟩ := map_eq_some_iff.mp h
    obtain ⟨used, whole, hcounts⟩ := ih hparts
    obtain ⟨used', hcounts'⟩ := hcounts.escaped hd
    exact ⟨used', whole, hcounts'⟩
  | case6 d t hd hback ih =>
    rw [parseParts, if_neg hback, if_pos rfl, if_neg hd] at h
    cases h
  | case7 d t hand hback ih =>
    rw [parseParts, if_neg hand, if_neg hback, if_pos rfl] at h
    obtain ⟨parts, hparts, rfl⟩ := map_eq_some_iff.mp h
    obtain ⟨used, whole, hcounts⟩ := ih hparts
    exact ⟨used, whole + 1, hcounts.putIn⟩
  | case8 c d t hslash hback hand ih =>
    rw [parseParts, if_neg hslash, if_neg hback, if_neg hand] at h
    obtain ⟨parts, hparts, rfl⟩ := map_eq_some_iff.mp h
    obtain ⟨used, whole, hcounts⟩ := ih hparts
    have hunit : isGuarded c = false := by
      rw [isGuarded, Bool.or_eq_false_iff, decide_eq_false_iff_not, decide_eq_false_iff_not]
      exact ⟨hand, fun heq => hslash (Or.inl heq)⟩
    exact ⟨used, whole, hcounts.cons hunit hback⟩

end Counts

end Sed
