import Aoox.SetValues

/-! # Notes in a list of lines

The note of a variable stands above its line, so it moves with the lines around
it.  `above` is what the comment lines at the end of a list say; the note of a
name is what stands above the last line that defines it (`noteIn_concat`), and
lines below that one do not matter (`noteIn_append`).  A note that was read out of
a text can be written as `#` lines and read again unchanged (`reread_noteOf`).
-/
namespace Aoox

open JsString List

/-! ## The comment lines at the end -/

/-- A `#` line. -/
def isComment (line : JsString) : Bool := startsWith (trim line) [cu '#']

/-- What the comment lines at the end of `lines` say. -/
def above (lines : List JsString) : List JsString :=
  (lines.rtakeWhile isComment).map fun l => noteLine (trim l)

@[simp] theorem above_nil : above [] = [] := rfl

variable {l : JsString}

theorem above_concat_comment (h : isComment l = true) (lines : List JsString) :
    above (lines ++ [l]) = above lines ++ [noteLine (trim l)] := by
  rw [above, rtakeWhile_concat_pos _ _ _ h, map_append]
  rfl

theorem above_concat (h : isComment l = false) (lines : List JsString) :
    above (lines ++ [l]) = [] := by
  rw [above, rtakeWhile_concat_neg _ _ _ (by simp [h])]
  rfl

variable {b : List JsString}

theorem above_append_comments (h : ∀ l ∈ b, isComment l = true)
    (a : List JsString) : above (a ++ b) = above a ++ b.map fun l => noteLine (trim l) := by
  induction b using reverseRecOn with
  | nil => simp
  | append_singleton b l ih =>
    have hb : ∀ x ∈ b, isComment x = true := fun x hx => h x (mem_append_left _ hx)
    rw [← append_assoc, above_concat_comment (h l (by simp)), ih hb]
    simp

theorem isComment_of_parseLine {e : JsString × JsString}
    (h : parseLine l = some e) : isComment l = false := by
  rw [parseLine] at h
  split at h
  · cases h
  · rename_i hskip
    simp only [isSkipped, Bool.or_eq_true, not_or, Bool.not_eq_true] at hskip
    exact hskip.2

/-! ## The scan of `extractNotes` -/

/-- A note under its name; an empty one removes what was there. -/
def setNote (out : VariableNotes) (key note : JsString) : VariableNotes :=
  if note = [] then Assoc.erase out key else assign out key note

/-- What the scan has found at the end of some lines. -/
def notesIn (lines : List JsString) : VariableNotes := (lines.foldl noteStep ⟨[], []⟩).out

variable {raw : JsString}

theorem noteStep_comment (h : isComment raw = true) (s : NoteScan) :
    noteStep s raw = ⟨s.out, s.pending ++ [noteLine (trim raw)]⟩ := by
  have hne : trim raw ≠ [] := by
    intro he
    rw [isComment, he] at h
    cases h
  rw [noteStep, if_neg hne]
  exact if_pos h

variable {key : JsString}

variable {value : JsString}

theorem noteStep_variable (h : parseLine raw = some (key, value)) (hkey : isEnvName key = true)
    (s : NoteScan) : noteStep s raw = ⟨setNote s.out key (noteOf s.pending), []⟩ := by
  rw [parseLine] at h
  split at h
  · cases h
  · rename_i hskip
    simp only [isSkipped, Bool.or_eq_true, not_or, Bool.not_eq_true, decide_eq_true_eq] at hskip
    rw [noteStep, if_neg hskip.1, if_neg (by simp [hskip.2]), h, setNote]
    simp only [hkey, if_true]
    split <;> rfl

/-- Every other line only breaks the attachment. -/
theorem noteStep_other (hcomment : isComment raw = false)
    (h : ∀ key value, parseLine raw = some (key, value) → isEnvName key = false) (s : NoteScan) :
    noteStep s raw = ⟨s.out, []⟩ := by
  rw [noteStep]
  split
  · rfl
  rename_i hblank
  rw [if_neg (by simpa [isComment] using hcomment)]
  cases hassign : assignment (trim raw) with
  | none => rfl
  | some e =>
    obtain ⟨key, value⟩ := e
    have hskip : isSkipped (trim raw) = false := by
      simpa [isSkipped, hblank, isComment] using hcomment
    have hkey := h key value (by rw [parseLine, hskip]; exact hassign)
    simp [hkey]

theorem pending_eq (lines : List JsString) :
    (lines.foldl noteStep ⟨[], []⟩).pending = above lines := by
  induction lines using reverseRecOn with
  | nil => rfl
  | append_singleton lines l ih =>
    rw [foldl_concat]
    by_cases hcomment : isComment l = true
    · rw [noteStep_comment hcomment, above_concat_comment hcomment, ih]
    · rw [above_concat (by simpa using hcomment)]
      by_cases hdef : ∃ key value, parseLine l = some (key, value) ∧ isEnvName key = true
      · obtain ⟨key, value, hparse, hkey⟩ := hdef
        rw [noteStep_variable hparse hkey]
      · rw [noteStep_other (by simpa using hcomment)]
        intro key value hparse
        by_contra hkey
        exact hdef ⟨key, value, hparse, by simpa using hkey⟩

/-- What is kept under a name.  The setter of `__proto__` ignores a string. -/
def kept (key note : JsString) : Option JsString :=
  if note = [] ∨ key = js "__proto__" then none else some note

variable {note : JsString}

theorem kept_some (hnote : note ≠ []) (hkey : key ≠ js "__proto__") :
    kept key note = some note := if_neg (by simp [hnote, hkey])

theorem get_proto_notesIn (lines : List JsString) :
    Assoc.get (notesIn lines) (js "__proto__") = none := by
  induction lines using reverseRecOn with
  | nil => rfl
  | append_singleton lines l ih =>
    rw [notesIn] at ih ⊢
    rw [foldl_concat, noteStep]
    repeat' split
    all_goals try exact ih
    · rw [Assoc.get_erase, ih]
      split <;> rfl
    · rw [assign]
      split
      · exact ih
      · rename_i hproto
        rw [Assoc.get_set, if_neg hproto, ih]

/-- The notes of a name: those of the last line that defines it. -/
theorem get_setNote {out : VariableNotes} (hproto : Assoc.get out (js "__proto__") = none)
    (key note other : JsString) :
    Assoc.get (setNote out key note) other =
      if key = other then kept key note else Assoc.get out other := by
  rw [setNote]
  by_cases hnote : note = []
  · have hkept : kept key note = none := if_pos (.inl hnote)
    rw [if_pos hnote, Assoc.get_erase, hkept]
  · rw [if_neg hnote, assign]
    by_cases hkey : key = js "__proto__"
    · have hkept : kept key note = none := if_pos (.inr hkey)
      rw [if_pos hkey, hkept]
      split
      · rename_i heq
        rw [← heq, hkey, hproto]
      · rfl
    · rw [if_neg hkey, Assoc.get_set, kept_some hnote hkey]

def noteIn (lines : List JsString) (key : JsString) : Option JsString :=
  Assoc.get (notesIn lines) key

@[simp] theorem noteIn_nil (key : JsString) : noteIn [] key = none := rfl

theorem notesIn_concat (lines : List JsString) (l : JsString) : notesIn (lines ++ [l]) =
      (noteStep ⟨notesIn lines, above lines⟩ l).out := by
  rw [notesIn, foldl_concat, ← pending_eq]
  rfl

/-- **The line of a variable sets its note to what stands above it.** -/
theorem noteIn_concat (h : parseLine l = some (key, value)) (hkey : isEnvName key = true)
    (lines : List JsString) (other : JsString) :
    noteIn (lines ++ [l]) other =
      if key = other then kept key (noteOf (above lines)) else noteIn lines other := by
  rw [noteIn, notesIn_concat, noteStep_variable h hkey]
  exact get_setNote (get_proto_notesIn lines) _ _ _

/-- Any other line leaves all notes. -/
theorem notesIn_concat_same
    (h : ∀ key value, parseLine l = some (key, value) → isEnvName key = false)
    (lines : List JsString) : notesIn (lines ++ [l]) = notesIn lines := by
  rw [notesIn_concat]
  by_cases hcomment : isComment l = true
  · rw [noteStep_comment hcomment]
  · rw [noteStep_other (by simpa using hcomment) h]

/-- A line that does not define a name leaves its note. -/
theorem noteIn_concat_other (h : definesKey l key = false)
    (lines : List JsString) : noteIn (lines ++ [l]) key = noteIn lines key := by
  by_cases hdef : ∃ other value, parseLine l = some (other, value) ∧ isEnvName other = true
  · obtain ⟨other, value, hparse, hother⟩ := hdef
    rw [noteIn_concat hparse hother, if_neg]
    rintro rfl
    rw [definesKey_iff.mpr ⟨value, hparse⟩] at h
    cases h
  · rw [noteIn, notesIn_concat_same, noteIn]
    intro other value hparse
    by_contra hother
    exact hdef ⟨other, value, hparse, by simpa using hother⟩

/-- **Lines below the last definition of a name do not touch its note.** -/
theorem noteIn_append (h : ∀ l ∈ b, definesKey l key = false)
    (a : List JsString) : noteIn (a ++ b) key = noteIn a key := by
  induction b using reverseRecOn with
  | nil => simp
  | append_singleton b l ih =>
    rw [← append_assoc, noteIn_concat_other (h l (by simp)),
      ih fun x hx => h x (mem_append_left _ hx)]

theorem noteIn_last {a : List JsString} (h : parseLine l = some (key, value))
    (hkey : isEnvName key = true) (hb : ∀ x ∈ b, definesKey x key = false) :
    noteIn (a ++ l :: b) key = kept key (noteOf (above a)) := by
  have happ : a ++ l :: b = (a ++ [l]) ++ b := by simp
  rw [happ, noteIn_append hb, noteIn_concat h hkey, if_pos rfl]

variable {lines : List JsString}

/-- A name without a definition has no note. -/
theorem noteIn_eq_none (h : ∀ l ∈ lines, definesKey l key = false) : noteIn lines key = none := by
  have hnil := noteIn_append h []
  rwa [nil_append, noteIn_nil] at hnil

theorem noteIn_of_not_envName (hkey : isEnvName key = false)
    (lines : List JsString) : noteIn lines key = none := by
  induction lines using reverseRecOn with
  | nil => rfl
  | append_singleton lines l ih =>
    by_cases hdef : ∃ other value, parseLine l = some (other, value) ∧ isEnvName other = true
    · obtain ⟨other, value, hparse, hother⟩ := hdef
      rw [noteIn_concat hparse hother, if_neg, ih]
      rintro rfl
      rw [hkey] at hother
      cases hother
    · rw [noteIn, notesIn_concat_same]
      · exact ih
      intro other value hparse
      by_contra hother
      exact hdef ⟨other, value, hparse, by simpa using hother⟩

/-! ## Lines put together again -/

theorem notesIn_map_trim (lines : List JsString) : notesIn (lines.map trim) = notesIn lines := by
  have hstep : ∀ s raw, noteStep s (trim raw) = noteStep s raw := by
    intro s raw
    rw [noteStep, noteStep, trim_trim]
  rw [notesIn, notesIn, foldl_map]
  simp only [hstep]

theorem join_newline_cons {ls : List JsString} (h : ls ≠ []) :
    join (l :: ls) (js "\n") = l ++ cu '\n' :: join ls (js "\n") := by
  rw [join_cons h, append_assoc]
  rfl

theorem map_trim_splitLines_join (hne : lines ≠ []) (h : ∀ l ∈ lines, cu '\n' ∉ l) :
    (splitLines (join lines (js "\n"))).map trim = lines.map trim := by
  induction lines with
  | nil => exact absurd rfl hne
  | cons l ls ih =>
    have hl := h l mem_cons_self
    by_cases hls : ls = []
    · subst hls
      simp [join, splitLines_of_not_mem hl]
    · rw [join_newline_cons hls, splitLines_append hl, map_cons, trim_dropCr,
        ih hls fun x hx => h x (mem_cons_of_mem _ hx), map_cons]

/-- A byte order mark is white space, so the first line is the same without it. -/
theorem map_trim_splitLines_dropBom (text : JsString) :
    (splitLines (dropBom text)).map trim = (splitLines text).map trim := by
  cases text with
  | nil => rfl
  | cons c cs =>
    by_cases hc : c = 0xFEFF
    · subst hc
      have hsplit : splitLines (0xFEFF :: cs) = consFirst 0xFEFF (splitLines cs) := by
        cases cs with
        | nil => rfl
        | cons d ds =>
          rw [splitLines, if_neg (by decide), if_neg (fun h => absurd h.1 (by decide))]
      obtain ⟨p, ps, hps⟩ := exists_cons_of_ne_nil (splitLines_ne_nil cs)
      have htrim : trim (0xFEFF :: p) = trim p := by
        rw [trim, trimStart, dropWhile_cons_of_pos (by decide)]
        rfl
      rw [dropBom, if_pos rfl, hsplit, hps, consFirst, map_cons, map_cons, htrim]
    · rw [dropBom, if_neg hc]

theorem get_extractNotes (text key : JsString) :
    Assoc.get (extractNotes text) key = noteIn (splitLines text) key := by
  have h : extractNotes text = notesIn (splitLines text) := by
    rw [← notesIn_map_trim, ← map_trim_splitLines_dropBom, notesIn_map_trim]
    rfl
  rw [h, noteIn]

/-- The notes of a text are those of its lines, also of lines put together again. -/
theorem get_extractNotes_join (h : ∀ l ∈ lines, cu '\n' ∉ l)
    (key : JsString) : Assoc.get (extractNotes (join lines (js "\n"))) key = noteIn lines key := by
  by_cases hne : lines = []
  · subst hne
    rfl
  · rw [get_extractNotes, noteIn, ← notesIn_map_trim, map_trim_splitLines_join hne h,
      notesIn_map_trim, noteIn]

/-! ## Notes written and read -/

theorem trimEnd_cons (c : CodeUnit) (text : JsString) : trimEnd (c :: text) =
      if trimEnd text = [] then (if isSpace c then [] else [c]) else c :: trimEnd text := by
  have hnil : (text.reverse.dropWhile isSpace).isEmpty = true ↔ trimEnd text = [] := by
    rw [trimEnd, List.rdropWhile, List.isEmpty_iff, reverse_eq_nil_iff]
  rw [trimEnd, List.rdropWhile, reverse_cons, dropWhile_append]
  by_cases h : trimEnd text = []
  · rw [if_pos (hnil.mpr h), if_pos h]
    by_cases hc : isSpace c = true <;> simp [hc]
  · rw [if_neg (fun he => h (hnil.mp he)), if_neg h, reverse_append]
    rfl

theorem trimEnd_trimEnd (text : JsString) : trimEnd (trimEnd text) = trimEnd text :=
  rdropWhile_idempotent _ _

variable {text : JsString}

theorem trimEnd_eq_self_iff :
    trimEnd text = text ↔ ∀ c, text.getLast? = some c → isSpace c = false := by
  rw [trimEnd, rdropWhile_eq_self_iff]
  constructor
  · intro h c hc
    have hne : text ≠ [] := by
      rintro rfl
      cases hc
    rw [getLast?_eq_some_getLast hne] at hc
    obtain rfl := Option.some.inj hc
    simpa using h hne
  · intro h hne
    simpa using h _ (getLast?_eq_some_getLast hne)

/-- No white space stands in front of a newline, other newlines apart. -/
def Tidy (text : JsString) : Prop :=
  ∀ a c b, text = a ++ c :: cu '\n' :: b → c = cu '\n' ∨ isSpace c = false

theorem Tidy.of_infix {part : JsString} (h : Tidy text) (hpart : part <:+: text) : Tidy part := by
  obtain ⟨x, y, rfl⟩ := hpart
  rintro a c b rfl
  exact h (x ++ a) c (b ++ y) (by simp)

theorem tidy_of_not_mem (h : cu '\n' ∉ text) : Tidy text := by
  rintro a c b rfl
  exact absurd (by simp) h

theorem tidy_append {p rest : JsString} (hp : cu '\n' ∉ p) (htrim : trimEnd p = p)
    (hrest : Tidy rest) : Tidy (p ++ cu '\n' :: rest) := by
  intro a c b h
  rcases append_eq_append_iff.mp h with ⟨x, rfl, hx⟩ | ⟨x, rfl, hx⟩
  · -- the newline is behind the line, or the one that ends it
    cases x with
    | nil => exact .inl (List.cons.inj hx).1.symm
    | cons y ys =>
      obtain ⟨rfl, hys⟩ := List.cons.inj hx
      exact hrest ys c b hys
  · cases x with
    | nil => exact .inl (List.cons.inj hx).1
    | cons y ys =>
      obtain ⟨rfl, hys⟩ := List.cons.inj hx
      cases ys with
      | nil => exact .inr (trimEnd_eq_self_iff.mp htrim c (by simp))
      | cons z zs =>
        obtain ⟨rfl, -⟩ := List.cons.inj hys
        exact absurd (by simp) hp

/-- Lines of notes: one line each, without white space at the end. -/
def NoteLine (l : JsString) : Prop := cu '\n' ∉ l ∧ trimEnd l = l

theorem tidy_join (h : ∀ l ∈ lines, NoteLine l) : Tidy (join lines (js "\n")) := by
  induction lines with
  | nil => exact tidy_of_not_mem (by simp [join])
  | cons l ls ih =>
    obtain ⟨hnl, htrim⟩ := h l mem_cons_self
    by_cases hls : ls = []
    · subst hls
      simpa [join] using tidy_of_not_mem hnl
    · rw [join_newline_cons hls]
      exact tidy_append hnl htrim (ih fun x hx => h x (mem_cons_of_mem _ hx))

theorem map_trimEnd_split (h : Tidy note) (hend : trimEnd note = note) :
    (split note (js "\n")).map trimEnd = split note (js "\n") := by
  have hjs : js "\n" = [cu '\n'] := rfl
  rw [hjs]
  induction note using lines_induction with
  | last p hp => rw [split_of_not_mem hp, map_singleton, hend]
  | line p rest hp ih =>
    have hlast := trimEnd_eq_self_iff.mp hend
    have hrest : trimEnd rest = rest := by
      refine trimEnd_eq_self_iff.mpr fun c hc => hlast c ?_
      rw [getLast?_append, getLast?_cons, hc]
      rfl
    have hp' : trimEnd p = p := by
      refine trimEnd_eq_self_iff.mpr fun c hc => ?_
      obtain ⟨a, rfl⟩ := getLast?_eq_some_iff.mp hc
      rcases h a c rest (by simp) with rfl | hspace
      · exact absurd (by simp) hp
      · exact hspace
    rw [split_append_unit, split_of_not_mem hp, map_append, map_singleton, hp',
      ih (h.of_infix ⟨p ++ [cu '\n'], [], by simp⟩) hrest]

/-- What a note written as `#` lines is read as. -/
def reread (note : JsString) : JsString := noteOf ((split note (js "\n")).map trimEnd)

theorem noteText_split (hhead : note.head? ≠ some (cu '\n'))
    (hend : trimEnd note = note) : noteText (split note (js "\n")) = note := by
  have hjoin : join (split note (js "\n")) (js "\n") = note := join_split_unit (cu '\n') note
  have hdrop : note.dropWhile (· == cu '\n') = note := by
    cases note with
    | nil => rfl
    | cons c cs => exact dropWhile_cons_of_neg (by simpa using hhead)
  rw [noteText, hjoin, hdrop, hend]

/-- **A note that was read from comment lines is read again as it is.** -/
theorem reread_noteOf {pending : List JsString} (h : ∀ l ∈ pending, NoteLine l) :
    reread (noteOf pending) = noteOf pending := by
  have hend : trimEnd (noteOf pending) = noteOf pending := trimEnd_trimEnd _
  have hpre : noteOf pending <+: (join pending (js "\n")).dropWhile (· == cu '\n') :=
    (List.rdropWhile_prefix _ _).trans ((List.take_prefix _ _).trans (List.rdropWhile_prefix _ _))
  have htidy : Tidy (noteOf pending) :=
    Tidy.of_infix (tidy_join h) (hpre.isInfix.trans (dropWhile_suffix _).isInfix)
  have hhead : (noteOf pending).head? ≠ some (cu '\n') := by
    intro hc
    obtain ⟨rest, hrest⟩ := hpre
    have hnot := List.head?_dropWhile_not (· == cu '\n') (join pending (js "\n"))
    rw [← hrest, List.head?_append, hc] at hnot
    simp at hnot
  have hlen : (noteOf pending).length ≤ NOTE_MAX := by
    have hle : (noteOf pending).length ≤ (sliceTo (noteText pending) NOTE_MAX).length :=
      (List.rdropWhile_prefix _ _).length_le
    rw [sliceTo, length_take] at hle
    omega
  have htext := noteText_split hhead hend
  rw [reread, map_trimEnd_split htidy hend]
  have hcut : sliceTo (noteOf pending) NOTE_MAX = noteOf pending := take_of_length_le hlen
  calc noteOf (split (noteOf pending) (js "\n"))
      = trimEnd (sliceTo (noteText (split (noteOf pending) (js "\n"))) NOTE_MAX) := rfl
    _ = noteOf pending := by rw [htext, hcut, hend]

theorem noteLine_subset {line : JsString} : noteLine line ⊆ line := by
  have hend : ∀ text : JsString, trimEnd text ⊆ text := fun text =>
    (List.rdropWhile_prefix isSpace text).subset
  have hslice : sliceFrom line 1 ⊆ line := (drop_suffix 1 line).subset
  rw [noteLine]
  split
  · rename_i c cs hcs
    rw [hcs] at hslice
    split
    · exact List.Subset.trans (hend _) (List.Subset.trans (subset_cons_self _ _) hslice)
    · exact List.Subset.trans (hend _) hslice
  · exact nil_subset _

theorem trimEnd_noteLine (line : JsString) : trimEnd (noteLine line) = noteLine line := by
  rw [noteLine]
  repeat' split
  · exact trimEnd_trimEnd _
  · exact trimEnd_trimEnd _
  · rfl

theorem noteLine_of_mem_above (h : ∀ l ∈ lines, cu '\n' ∉ l)
    (hl : l ∈ above lines) : NoteLine l := by
  obtain ⟨raw, hraw, rfl⟩ := mem_map.mp hl
  have hmem : raw ∈ lines := (rtakeWhile_suffix _ _).subset hraw
  exact ⟨fun hm => h raw hmem ((isInfix_trim raw).subset (noteLine_subset hm)), trimEnd_noteLine _⟩

/-- A note that was found in some lines is read again as it is. -/
theorem reread_noteIn (h : ∀ l ∈ lines, cu '\n' ∉ l)
    (hnote : noteIn lines key = some note) : reread note = note ∧ note ≠ [] := by
  induction lines using reverseRecOn with
  | nil => cases hnote
  | append_singleton lines l ih =>
    have hlines : ∀ x ∈ lines, cu '\n' ∉ x := fun x hx => h x (mem_append_left _ hx)
    by_cases hdef : ∃ other value, parseLine l = some (other, value) ∧ isEnvName other = true
    · obtain ⟨other, value, hparse, hother⟩ := hdef
      rw [noteIn_concat hparse hother] at hnote
      split at hnote
      · rw [kept] at hnote
        split at hnote
        · cases hnote
        · rename_i hne
          obtain rfl := Option.some.inj hnote
          exact ⟨reread_noteOf fun x hx => noteLine_of_mem_above hlines hx, fun he => hne (.inl he)⟩
      · exact ih hlines hnote
    · rw [noteIn, notesIn_concat_same] at hnote
      · exact ih hlines hnote
      · intro other value hparse
        by_contra hother
        exact hdef ⟨other, value, hparse, by simpa using hother⟩

/-! The `#` lines of a note -/

theorem trim_hash (text : JsString) : trim (cu '#' :: text) = cu '#' :: trimEnd text := by
  have hstart : trimStart (cu '#' :: text) = cu '#' :: text := dropWhile_cons_of_neg (by decide)
  rw [trim, hstart, trimEnd_cons]
  split
  · rename_i h
    rw [h]
    rfl
  · rfl

theorem isComment_hash (text : JsString) : isComment (cu '#' :: text) = true := by
  rw [isComment, trim_hash, startsWith_unit]
  simp

theorem noteLine_hash_space (text : JsString) :
    noteLine (trim (js "# " ++ text)) = trimEnd text := by
  have hjs : js "# " ++ text = cu '#' :: cu ' ' :: text := rfl
  rw [hjs, trim_hash, trimEnd_cons]
  by_cases h : trimEnd text = []
  · rw [if_pos h, h]
    rfl
  · rw [if_neg h]
    exact trimEnd_trimEnd text

theorem isComment_of_mem_noteLines (h : l ∈ noteLines note) : isComment l = true := by
  obtain ⟨piece, -, rfl⟩ := mem_map.mp h
  split
  · exact isComment_hash []
  · exact isComment_hash _

theorem above_append_noteLines (lines : List JsString) (note : JsString) :
    above (lines ++ noteLines note) = above lines ++ (split note (js "\n")).map trimEnd := by
  rw [above_append_comments fun l hl => isComment_of_mem_noteLines hl, noteLines, map_map]
  congr 1
  refine map_congr_left fun l _ => ?_
  rw [Function.comp]
  by_cases hl : l = []
  · subst hl
    rfl
  · rw [if_neg hl, noteLine_hash_space]

/-! What stands in the table decides which lines are written -/

variable {notes : VariableNotes}

theorem noteLinesFor_some (h : Assoc.get notes key = some note) (hne : note ≠ []) :
    noteLinesFor notes key = some (noteLines note) := by
  rw [noteLinesFor, h]
  exact congrArg some (if_neg hne)

theorem noteLinesFor_none (h : Assoc.get notes key = none) (hkey : key ∉ objectPrototype) :
    noteLinesFor notes key = some [] := by
  rw [noteLinesFor, h]
  exact if_neg hkey

theorem noteLinesFor_eq_none :
    noteLinesFor notes key = none ↔ Assoc.get notes key = none ∧ key ∈ objectPrototype := by
  rw [noteLinesFor]
  cases Assoc.get notes key with
  | none => simp
  | some note => simp

theorem isComment_of_mem_noteLinesFor {ns : List JsString} (h : noteLinesFor notes key = some ns)
    (hl : l ∈ ns) : isComment l = true := by
  cases hget : Assoc.get notes key with
  | none =>
    have hkey : key ∉ objectPrototype := fun hm => by
      rw [noteLinesFor_eq_none.mpr ⟨hget, hm⟩] at h
      cases h
    rw [noteLinesFor_none hget hkey] at h
    obtain rfl := Option.some.inj h
    cases hl
  | some note =>
    by_cases hne : note = []
    · rw [noteLinesFor, hget, hne] at h
      obtain rfl := Option.some.inj h
      cases hl
    · rw [noteLinesFor_some hget hne] at h
      obtain rfl := Option.some.inj h
      exact isComment_of_mem_noteLines hl

end Aoox
