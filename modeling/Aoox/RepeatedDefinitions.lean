import Aoox.NormalizedText

/-! # Repeated definitions

When `setValues` sets a variable that is there, it writes the first line that
defines it and drops the others, so the lines that stay are `once key lines`, the
line of `key` with another value.  For the notes that value does not matter
(`notesIn_alike`): the edited lines carry the notes of the lines without their
repeated definitions, and these may be other ones, since the comment lines above a
dropped definition stay and now stand above what follows.
-/
namespace Aoox

open JsString List Option

/-! ## Taking repeated definitions out -/

/-- Some line defines `key`. -/
def defines (lines : List JsString) (key : JsString) : Bool := lines.any (definesKey · key)

variable {lines : List JsString} {key : JsString}

theorem defines_eq_false : defines lines key = false ↔ ∀ l ∈ lines, definesKey l key = false := by
  simp [defines]

@[simp] theorem defines_append (a b : List JsString) (key : JsString) :
    defines (a ++ b) key = (defines a key || defines b key) := any_append

/-- The lines without the definitions of `key` below the first one. -/
def once (key : JsString) : List JsString → List JsString
  | [] => []
  | l :: ls =>
    if definesKey l key then l :: ls.filter (fun x => !definesKey x key) else l :: once key ls

attribute [local simp] once

/-- The lines without the repeated definitions of `keys`. -/
def thinned (keys : List JsString) (lines : List JsString) : List JsString :=
  keys.foldl (fun ls key => once key ls) lines

theorem filter_eq_self_of_defines
    (h : defines lines key = false) : lines.filter (fun l => !definesKey l key) = lines :=
  filter_eq_self.mpr fun l hl => by simp [defines_eq_false.mp h l hl]

theorem once_eq_self (h : defines lines key = false) : once key lines = lines := by
  induction lines with
  | nil => rfl
  | cons l ls ih =>
    have hdef := defines_eq_false.mp h
    rw [once, if_neg (by simp [hdef l mem_cons_self]),
      ih (defines_eq_false.mpr fun x hx => hdef x (mem_cons_of_mem _ hx))]

/-- Lines below that do not define the name stay. -/
theorem once_append {a b : List JsString} (h : defines b key = false) :
    once key (a ++ b) = once key a ++ b := by
  induction a with
  | nil => exact once_eq_self h
  | cons l ls ih =>
    rw [cons_append, once, once]
    split
    · rw [filter_append, filter_eq_self_of_defines h, cons_append]
    · rw [ih, cons_append]

variable {keys : List JsString}

theorem thinned_append {a b : List JsString}
    (h : ∀ key ∈ keys, defines b key = false) : thinned keys (a ++ b) = thinned keys a ++ b := by
  induction keys generalizing a with
  | nil => rfl
  | cons key keys ih =>
    rw [thinned, foldl_cons, once_append (h key mem_cons_self)]
    exact ih fun k hk => h k (mem_cons_of_mem _ hk)

theorem once_sublist (key : JsString) (lines : List JsString) : Sublist (once key lines) lines := by
  induction lines with
  | nil => exact .slnil
  | cons l ls ih =>
    rw [once]
    split
    · exact .cons_cons l filter_sublist
    · exact .cons_cons l ih

theorem thinned_sublist (keys lines : List JsString) : Sublist (thinned keys lines) lines := by
  induction keys generalizing lines with
  | nil => exact Sublist.refl lines
  | cons key keys ih =>
    rw [thinned, foldl_cons]
    exact (ih _).trans (once_sublist key lines)

variable {p : JsString → Bool}

/-- Only definitions of the name go. -/
theorem filter_once (hp : ∀ l, definesKey l key = true → p l = false) (lines : List JsString) :
    (once key lines).filter p = lines.filter p := by
  induction lines with
  | nil => rfl
  | cons l ls ih =>
    rw [once]
    split
    · rename_i hl
      have hall : ls.filter (fun x => p x && !definesKey x key) = ls.filter p := by
        refine filter_congr fun x _ => ?_
        cases hx : definesKey x key with
        | false => simp
        | true => simp [hp x hx]
      rw [filter_cons_of_neg (by simp [hp l hl]), List.filter_filter, hall,
        filter_cons_of_neg (by simp [hp l hl])]
    · rw [filter_cons, filter_cons, ih]

theorem filter_thinned (hp : ∀ key ∈ keys, ∀ l, definesKey l key = true → p l = false)
    (lines : List JsString) : (thinned keys lines).filter p = lines.filter p := by
  induction keys generalizing lines with
  | nil => rfl
  | cons key keys ih =>
    rw [thinned, foldl_cons]
    exact (ih (fun k hk => hp k (mem_cons_of_mem _ hk)) _).trans
      (filter_once (hp key mem_cons_self) lines)

theorem definesKey_other {l other : JsString} (h : definesKey l key = true)
    (hne : other ≠ key) : definesKey l other = false := by
  obtain ⟨v, hv⟩ := definesKey_iff.mp h
  by_contra ho
  obtain ⟨w, hw⟩ := definesKey_iff.mp (by simpa using ho)
  rw [hv] at hw
  exact hne (Prod.mk.inj (some.inj hw)).1.symm

/-- The same names are defined as before. -/
theorem defines_once (key : JsString) (lines : List JsString) (other : JsString) :
    defines (once key lines) other = defines lines other := by
  by_cases hk : other = key
  · subst hk
    induction lines with
    | nil => rfl
    | cons l ls ih =>
      rw [once]
      split
      · rename_i hl
        simp [defines, hl]
      · rw [defines, any_cons]
        exact congrArg (_ || ·) ih
  · -- a line of the other name passes the test for this one
    have hfilter := filter_once (fun l (hl : definesKey l key = true) => definesKey_other hl hk) lines
    rw [Bool.eq_iff_iff, defines, defines, List.any_eq_true, List.any_eq_true]
    constructor
    · rintro ⟨l, hl, hdef⟩
      exact ⟨l, (mem_filter.mp (hfilter ▸ mem_filter.mpr ⟨hl, hdef⟩)).1, hdef⟩
    · rintro ⟨l, hl, hdef⟩
      exact ⟨l, (mem_filter.mp (hfilter.symm ▸ mem_filter.mpr ⟨hl, hdef⟩)).1, hdef⟩

theorem defines_thinned (keys : List JsString) (lines : List JsString) (key : JsString) :
    defines (thinned keys lines) key = defines lines key := by
  induction keys generalizing lines with
  | nil => rfl
  | cons k keys ih =>
    rw [thinned, foldl_cons]
    exact (ih _).trans (defines_once k lines key)

/-! ## Lines that differ in values only -/

/-- The same line, or two lines that define one of `keys`. -/
def AlikeLine (keys : List JsString) (l l' : JsString) : Prop :=
  l = l' ∨ ∃ key ∈ keys, ∃ v v', parseLine l = some (key, v) ∧ parseLine l' = some (key, v')

section Alike

variable {keys : List JsString} {l l' : JsString} {a b : List JsString}

theorem AlikeLine.definesKey (h : AlikeLine keys l l') (key : JsString) :
    definesKey l' key = definesKey l key := by
  rcases h with rfl | ⟨k, -, v, v', hv, hv'⟩
  · rfl
  · rw [Aoox.definesKey, Aoox.definesKey, hv, hv']

theorem AlikeLine.noteStep (h : AlikeLine keys l l') (s : NoteScan) :
    noteStep s l' = noteStep s l := by
  rcases h with rfl | ⟨k, -, v, v', hv, hv'⟩
  · rfl
  · by_cases hk : isEnvName k = true
    · rw [noteStep_variable hv hk, noteStep_variable hv' hk]
    · have hnot : ∀ {x value : JsString}, parseLine x = some (k, value) →
          ∀ key value, parseLine x = some (key, value) → isEnvName key = false := by
        intro x value hx key value' hkey
        rw [hx] at hkey
        rw [← (Prod.mk.inj (some.inj hkey)).1]
        simpa using hk
      rw [noteStep_other (isComment_of_parseLine hv) (hnot hv),
        noteStep_other (isComment_of_parseLine hv') (hnot hv')]

/-- A line with a variable is neither blank nor a comment. -/
theorem trim_ne_nil_of_parseLine {e : JsString × JsString} (h : parseLine l = some e) :
    trim l ≠ [] := fun hnil => by
  rw [parseLine_blank hnil] at h
  cases h

theorem AlikeLine.blank (h : AlikeLine keys l l') : trim l' = [] ↔ trim l = [] := by
  rcases h with rfl | ⟨k, -, v, v', hv, hv'⟩
  · rfl
  · exact iff_of_false (trim_ne_nil_of_parseLine hv') (trim_ne_nil_of_parseLine hv)

theorem AlikeLine.isComment (h : AlikeLine keys l l') : isComment l' = isComment l := by
  rcases h with rfl | ⟨k, -, v, v', hv, hv'⟩
  · rfl
  · rw [isComment_of_parseLine hv, isComment_of_parseLine hv']

theorem AlikeLine.refl (l : JsString) : AlikeLine keys l l := .inl rfl

abbrev AlikeLines (keys : List JsString) : List JsString → List JsString → Prop :=
  List.Forall₂ (AlikeLine keys)

theorem AlikeLines.refl (a : List JsString) : AlikeLines keys a a :=
  forall₂_same.mpr fun l _ => AlikeLine.refl l

theorem AlikeLines.append {c d : List JsString} (h : AlikeLines keys a b)
    (hcd : AlikeLines keys c d) : AlikeLines keys (a ++ c) (b ++ d) := rel_append h hcd

theorem AlikeLines.foldl_noteStep (h : AlikeLines keys a b) (s : NoteScan) :
    b.foldl noteStep s = a.foldl noteStep s := by
  induction h generalizing s with
  | nil => rfl
  | cons hl _ ih => rw [foldl_cons, foldl_cons, hl.noteStep, ih]

/-- **Notes do not depend on the values of the variables.** -/
theorem AlikeLines.noteIn (h : AlikeLines keys a b) (key : JsString) :
    noteIn b key = noteIn a key := by
  rw [Aoox.noteIn, Aoox.noteIn, notesIn, notesIn, h.foldl_noteStep]

theorem AlikeLines.defines (h : AlikeLines keys a b) (key : JsString) :
    defines b key = defines a key := by
  induction h with
  | nil => rfl
  | cons hl _ ih =>
    rw [Aoox.defines, any_cons, hl.definesKey]
    exact congrArg (_ || ·) ih

/-- Lines of other names are the very same. -/
theorem AlikeLines.filter (h : AlikeLines keys a b)
    (hp : ∀ key ∈ keys, ∀ l, Aoox.definesKey l key = true → p l = false) :
    b.filter p = a.filter p := by
  induction h with
  | nil => rfl
  | cons hl _ ih =>
    rcases hl with rfl | ⟨k, hk, v, v', hv, hv'⟩
    · rw [filter_cons, filter_cons, ih]
    · have hl := hp k hk _ (definesKey_iff.mpr ⟨v, hv⟩)
      have hl' := hp k hk _ (definesKey_iff.mpr ⟨v', hv'⟩)
      rw [filter_cons_of_neg (by simp [hl']), filter_cons_of_neg (by simp [hl]), ih]

/-! Room at the end is made alike -/

theorem AlikeLines.rdropWhile (h : AlikeLines keys a b) :
    AlikeLines keys (a.rdropWhile fun l => trim l = []) (b.rdropWhile fun l => trim l = []) := by
  have hdrop : ∀ {c d : List JsString}, AlikeLines keys c d →
      AlikeLines keys (c.dropWhile fun l => trim l = []) (d.dropWhile fun l => trim l = []) := by
    intro c d hcd
    induction hcd with
    | nil => exact .nil
    | @cons x y c d hl hrest ih =>
      by_cases hx : trim x = []
      · rw [dropWhile_cons_of_pos (by simpa using hx),
          dropWhile_cons_of_pos (by simpa using hl.blank.mpr hx)]
        exact ih
      · rw [dropWhile_cons_of_neg (by simpa using hx),
          dropWhile_cons_of_neg (by simpa using fun hy => hx (hl.blank.mp hy))]
        exact .cons hl hrest
  exact forall₂_reverse_iff.mpr (hdrop (forall₂_reverse_iff.mpr h))

theorem AlikeLines.roomAtEnd (h : AlikeLines keys a b) :
    AlikeLines keys (roomAtEnd a) (roomAtEnd b) := by
  have hkept := h.rdropWhile
  rw [Aoox.roomAtEnd, Aoox.roomAtEnd]
  generalize a.rdropWhile (fun l => trim l = []) = c at hkept ⊢
  generalize b.rdropWhile (fun l => trim l = []) = d at hkept ⊢
  induction c using reverseRecOn generalizing d with
  | nil =>
    obtain rfl := forall₂_nil_left_iff.mp hkept
    exact .nil
  | append_singleton c l _ =>
    have hrev := forall₂_reverse_iff.mpr hkept
    rw [reverse_append] at hrev
    obtain ⟨l', d', hl, -, hd⟩ := forall₂_cons_left_iff.mp hrev
    have hlast : d = d'.reverse ++ [l'] := by
      rw [← reverse_reverse d, hd, reverse_cons]
    have hcomment : startsWith (trim l') [cu '#'] = startsWith (trim l) [cu '#'] := hl.isComment
    rw [hlast] at hkept ⊢
    simp only [getLast?_concat, hcomment]
    split
    · exact hkept.append (AlikeLines.refl _)
    · exact hkept

end Alike

/-! ## One entry, in place or at the end -/

/-- The line of `key` written, further definitions dropped. -/
def putLine (key value : JsString) : List JsString → List JsString
  | [] => []
  | l :: ls =>
    if definesKey l key then lineOf key value :: ls.filter (fun x => !definesKey x key)
    else l :: putLine key value ls

variable {notes : VariableNotes} {key value : JsString} {lines : List JsString}

theorem setValue_known (h : defines lines key = true) :
    setValue notes lines (key, value) = some (putLine key value lines) := by
  have hput : ∀ i, lines.findIdx? (definesKey · key) = some i →
      putLine key value lines = lines.take i ++ lineOf key value ::
        (lines.drop (i + 1)).filter fun l => !definesKey l key := by
    clear h
    induction lines with
    | nil => intro i hi; cases hi
    | cons l ls ih =>
      intro i hi
      rw [findIdx?_cons] at hi
      rw [putLine]
      split at hi
      · rename_i hl
        obtain rfl := some.inj hi
        rw [if_pos hl]
        rfl
      · rename_i hl
        obtain ⟨j, hj, rfl⟩ := map_eq_some_iff.mp hi
        rw [if_neg hl, ih j hj]
        rfl
  obtain ⟨i, hi⟩ : ∃ i, lines.findIdx? (definesKey · key) = some i := by
    rw [← isSome_iff_exists, findIdx?_isSome]
    exact h
  rw [setValue, hi, hput i hi]

theorem setValue_new (h : defines lines key = false) :
    setValue notes lines (key, value) = (noteLinesFor notes key).map fun ns =>
      roomAtEnd lines ++ ns ++ [lineOf key value] := by
  have hfind : lines.findIdx? (definesKey · key) = none :=
    findIdx?_eq_none_iff.mpr (defines_eq_false.mp h)
  rw [setValue, hfind]

theorem putLine_append {tail : List JsString} (h : defines lines key = true)
    (htail : defines tail key = false) :
    putLine key value (lines ++ tail) = putLine key value lines ++ tail := by
  induction lines with
  | nil => cases h
  | cons l ls ih =>
    rw [cons_append, putLine, putLine]
    split
    · rw [filter_append, filter_eq_self_of_defines htail, cons_append]
    · rename_i hl
      have hls : defines ls key = true := by
        rw [defines, any_cons, Bool.or_eq_true] at h
        exact h.resolve_left hl
      rw [ih hls, cons_append]

/-- **A variable written in place leaves the lines alike, without its repeated definitions.** -/
theorem alike_putLine (hkey : key ∈ keys) (hentry : Entry key value) {before : List JsString}
    (h : AlikeLines keys before lines) :
    AlikeLines keys (once key before) (putLine key value lines) := by
  induction h with
  | nil => exact .nil
  | @cons l l' ls ls' hl hls ih =>
    rw [once, putLine, hl.definesKey]
    split
    · rename_i hdef
      obtain ⟨v, hv⟩ := definesKey_iff.mp hdef
      refine .cons (.inr ⟨key, hkey, v, value, hv, parseLine_lineOf hentry⟩) ?_
      refine rel_filter (fun x x' hx => ?_) hls
      change (!definesKey x key) = true ↔ (!definesKey x' key) = true
      rw [hx.definesKey]
    · exact .cons hl ih

end Aoox
