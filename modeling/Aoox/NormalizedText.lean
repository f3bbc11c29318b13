import Aoox.NoteTexts
import Aoox.Grouping

/-! # Normalized texts

`normalizeEnvText` writes the variables of a text one by one, each with its note
above it.  Its lines define those variables again (`parse_normalized`) and carry
the same notes (`noteIn_normalized`), so nothing is left to do a second time.

The one thing that can go wrong is the table of the notes, a plain object that is
asked for names a user chose.  For a name that every object inherits it answers
with the inherited member unless the variable has a note of its own, and `split`
of that member is a `TypeError`.  `__proto__` cannot be stored there at all.
-/
namespace Aoox

open JsString List

/-! ## Blocks of lines -/

/-- The comment lines of a variable and the line that defines it. -/
def blockLines (notes : VariableNotes) (entry : JsString × JsString) : List JsString :=
  ((noteLinesFor notes entry.1).getD []) ++ [lineOf entry.1 entry.2]

/-- A variable as it can be written down. -/
structure Writable (entry : JsString × JsString) : Prop where
  line : Entry entry.1 entry.2
  name : isEnvName entry.1 = true

variable {l : JsString}

theorem isSkipped_of_isComment (h : isComment l = true) : isSkipped (trim l) = true := by
  rw [isSkipped, Bool.or_eq_true]
  exact .inr h

variable {notes : VariableNotes} {key : JsString}

theorem mem_commentLines (h : l ∈ (noteLinesFor notes key).getD []) :
    isComment l = true ∧ parseLine l = none ∧ cu '\n' ∉ l := by
  cases hns : noteLinesFor notes key with
  | none =>
    rw [hns] at h
    cases h
  | some ns =>
    rw [hns, Option.getD_some] at h
    exact ⟨isComment_of_mem_noteLinesFor hns h, mem_noteLinesFor hns h⟩

variable {entry : JsString × JsString}

theorem mem_blockLines (hentry : Writable entry) (hl : l ∈ blockLines notes entry) :
    cu '\n' ∉ l ∧ (isSkipped (trim l) = true ∨ parseLine l = some entry) := by
  rw [blockLines] at hl
  rcases mem_append.mp hl with hl | hl
  · obtain ⟨hcomment, -, hnl⟩ := mem_commentLines hl
    exact ⟨hnl, .inl (isSkipped_of_isComment hcomment)⟩
  · obtain rfl := mem_singleton.mp hl
    exact ⟨hentry.line.newline_notMem, .inr (parseLine_lineOf hentry.line)⟩

theorem filterMap_blockLines (notes : VariableNotes)
    (hentry : Writable entry) : (blockLines notes entry).filterMap parseLine = [entry] := by
  rw [blockLines, filterMap_append, filterMap_eq_nil_iff.mpr]
  · simp [parseLine_lineOf hentry.line]
  · exact fun l hl => (mem_commentLines hl).2.1

def textLines (notes : VariableNotes) (entries : List (JsString × JsString)) : List JsString :=
  entries.flatMap (blockLines notes)

theorem textLines_concat (notes : VariableNotes) (entries : List (JsString × JsString))
    (entry : JsString × JsString) :
    textLines notes (entries ++ [entry]) = textLines notes entries ++ blockLines notes entry := by
  simp [textLines]

variable {entries : List (JsString × JsString)}

theorem mem_textLines (hentries : ∀ e ∈ entries, Writable e) (hl : l ∈ textLines notes entries) :
    cu '\n' ∉ l ∧ (isSkipped (trim l) = true ∨ ∃ e ∈ entries, parseLine l = some e) := by
  obtain ⟨e, he, hl⟩ := mem_flatMap.mp hl
  obtain ⟨hnl, hskip | hparse⟩ := mem_blockLines (hentries e he) hl
  · exact ⟨hnl, .inl hskip⟩
  · exact ⟨hnl, .inr ⟨e, he, hparse⟩⟩

theorem filterMap_textLines (notes : VariableNotes) (hentries : ∀ e ∈ entries, Writable e) :
    (textLines notes entries).filterMap parseLine = entries := by
  induction entries with
  | nil => rfl
  | cons e entries ih =>
    have hcons : textLines notes (e :: entries) = blockLines notes e ++ textLines notes entries :=
        rfl
    rw [hcons, filterMap_append, filterMap_blockLines notes (hentries e mem_cons_self),
      ih fun x hx => hentries x (mem_cons_of_mem _ hx)]
    rfl

/-! ## The notes of the written lines -/

/-- Notes that read back as they are. -/
def Readable (notes : VariableNotes) : Prop :=
  ∀ key note, Assoc.get notes key = some note → note ≠ [] ∧ reread note = note ∧
    key ≠ js "__proto__"

/-- The lines end with a variable, so nothing above a next one is a comment. -/
theorem above_textLines (notes : VariableNotes)
    (hentries : ∀ e ∈ entries, Writable e) : above (textLines notes entries) = [] := by
  induction entries using reverseRecOn with
  | nil => rfl
  | append_singleton entries e _ =>
    have he : Writable e := hentries e (by simp)
    rw [textLines_concat, blockLines, ← append_assoc,
      above_concat (isComment_of_parseLine (parseLine_lineOf he.line))]

/-- **The written lines carry the notes of their variables.** -/
theorem noteIn_textLines (hnotes : Readable notes) (hentries : ∀ e ∈ entries, Writable e)
    (hnodup : (entries.map Prod.fst).Nodup) (hlines : ∀ e ∈ entries, noteLinesFor notes e.1 ≠ none)
    (key : JsString) :
    noteIn (textLines notes entries) key =
      if key ∈ entries.map Prod.fst then Assoc.get notes key else none := by
  induction entries using reverseRecOn with
  | nil => rfl
  | append_singleton entries e ih =>
    have hbefore : ∀ x ∈ entries, Writable x := fun x hx => hentries x (mem_append_left _ hx)
    have he : Writable e := hentries e (by simp)
    rw [map_append, nodup_append] at hnodup
    have ih := ih hbefore hnodup.1 fun x hx => hlines x (mem_append_left _ hx)
    have hparse := parseLine_lineOf he.line
    obtain ⟨ns, hns⟩ := Option.ne_none_iff_exists'.mp (hlines e (by simp))
    rw [textLines_concat, blockLines, hns, Option.getD_some, ← append_assoc,
      noteIn_concat hparse he.name]
    by_cases hkey : e.1 = key
    · rw [if_pos hkey, if_pos (by simp [hkey]), ← hkey]
      cases hget : Assoc.get notes e.1 with
      | none =>
        have hproto : e.1 ∉ objectPrototype := fun hm =>
          absurd (noteLinesFor_eq_none.mpr ⟨hget, hm⟩) (by rw [hns]; simp)
        rw [noteLinesFor_none hget hproto] at hns
        obtain rfl := Option.some.inj hns
        rw [append_nil, above_textLines notes hbefore]
        exact if_pos (.inl rfl)
      | some note =>
        obtain ⟨hne, hread, hproto⟩ := hnotes _ _ hget
        rw [noteLinesFor_some hget hne] at hns
        obtain rfl := Option.some.inj hns
        have hsay : noteOf (above (textLines notes entries ++ noteLines note)) = note := by
          rw [above_append_noteLines, above_textLines notes hbefore, nil_append]
          exact hread
        rw [hsay, kept_some hne hproto]
    · rw [if_neg hkey, noteIn_append, ih]
      · have hmem : key ∈ (entries ++ [e]).map Prod.fst ↔ key ∈ entries.map Prod.fst := by
          rw [map_append, mem_append, map_singleton, mem_singleton]
          exact or_iff_left (Ne.symm hkey)
        rw [if_congr hmem rfl rfl]
      · intro l hl
        rw [definesKey, (mem_noteLinesFor hns hl).1]

/-! ## The strict check -/

variable {i : Nat} {raw : JsString} {s : LineScan}

theorem checkLine_variable {value : JsString} (h : parseLine raw = some (key, value))
    (hkey : isEnvName key = true) (hseen : key ∉ s.seen) :
    checkLine i raw s = .ok ⟨s.seen ++ [key], s.values ++ [value]⟩ := by
  rw [parseLine] at h
  split at h
  · cases h
  · rename_i hskip
    rw [checkLine, if_neg hskip, h]
    simp [hkey, hseen]

/-- Lines that are skipped or define different, validly named variables pass. -/
theorem checkLines_ok {raws : List JsString} (h : ∀ raw ∈ raws, isSkipped (trim raw) = true ∨
      ∃ e, parseLine raw = some e ∧ isEnvName e.1 = true)
    (hnodup : (s.seen ++ (raws.filterMap parseLine).map Prod.fst).Nodup) :
    ∃ s', checkLines i raws s = .ok s' := by
  induction raws generalizing i s with
  | nil => exact ⟨s, rfl⟩
  | cons raw raws ih =>
    have hrest := fun x hx => h x (mem_cons_of_mem raw hx)
    rcases h raw mem_cons_self with hskip | ⟨⟨key, value⟩, hparse, hkey⟩
    · have hnone : parseLine raw = none := by rw [parseLine, if_pos hskip]
      rw [filterMap_cons, hnone] at hnodup
      rw [checkLines, checkLine, if_pos hskip]
      exact ih hrest hnodup
    · rw [filterMap_cons, hparse, map_cons] at hnodup
      have hseen : key ∉ s.seen := fun hm =>
        (nodup_append.mp hnodup).2.2 key hm key mem_cons_self rfl
      rw [checkLines, checkLine_variable hparse hkey hseen]
      exact ih hrest (by simpa using hnodup)

/-! ## Normalizing -/

/-- The variables that are written: the validly named ones. -/
def variablesOf (text : JsString) : List (JsString × JsString) :=
  Assoc.ofList ((parseEnvLines text).filter fun e => isEnvName e.1)

theorem nodup_variablesOf (text : JsString) : ((variablesOf text).map Prod.fst).Nodup :=
  Assoc.nodup_ofList _

theorem mapM_normalizedLines (h : ∀ e ∈ entries, noteLinesFor notes e.1 ≠ none) :
    entries.mapM (normalizedLines notes) = some (entries.map (blockLines notes)) := by
  induction entries with
  | nil => rfl
  | cons e entries ih =>
    obtain ⟨ns, hns⟩ := Option.ne_none_iff_exists'.mp (h e mem_cons_self)
    have hblock : normalizedLines notes e = some (blockLines notes e) := by
      rw [normalizedLines, blockLines, hns]
      rfl
    rw [mapM_cons, hblock, ih fun x hx => h x (mem_cons_of_mem _ hx)]
    rfl

variable {text : JsString}

variable {e : JsString × JsString}

/-- It throws where a name is asked for that the table of notes inherits. -/
theorem normalizeEnvText_eq_none (he : e ∈ variablesOf text)
    (h : noteLinesFor (extractNotes text) e.1 = none) : normalizeEnvText text = none := by
  have hblock : normalizedLines (extractNotes text) e = none := by
    rw [normalizedLines, h]
    rfl
  have hnone : (variablesOf text).mapM (normalizedLines (extractNotes text)) = none := by
    generalize variablesOf text = entries at he ⊢
    induction entries with
    | nil => cases he
    | cons x entries ih =>
      rw [mapM_cons]
      rcases mem_cons.mp he with rfl | he
      · rw [hblock]
        rfl
      · rw [ih he]
        cases normalizedLines (extractNotes text) x <;> rfl
  rw [normalizeEnvText]
  exact congrArg (Option.map _) hnone

theorem normalizeEnvText_eq
    (h : ∀ e ∈ variablesOf text, noteLinesFor (extractNotes text) e.1 ≠ none) :
    normalizeEnvText text =
      some (join (textLines (extractNotes text) (variablesOf text)) (js "\n")) := by
  have hall := mapM_normalizedLines h
  rw [normalizeEnvText]
  exact (congrArg (Option.map _) hall).trans rfl

/-! The variables of a text -/

theorem writable_of_mem (he : e ∈ variablesOf text) : Writable e := by
  obtain ⟨hmem, hname⟩ := mem_filter.mp (Assoc.mem_of_mem_ofList he)
  exact ⟨entry_of_mem hmem, hname⟩

/-- Names in the order in which they first appear. -/
theorem keys_variablesOf (text : JsString) :
    (variablesOf text).map Prod.fst = (keysOf text).filter isEnvName := by
  have hmap : ((parseEnvLines text).filter fun e => isEnvName e.1).map Prod.fst =
      ((parseEnvLines text).map Prod.fst).filter isEnvName := by
    rw [filter_map]
    rfl
  rw [variablesOf, Grouping.keys_ofList, hmap, keysOf, Grouping.filter_eraseDups]

theorem get_variablesOf (hkey : isEnvName key = true) :
    Assoc.get (variablesOf text) key = Assoc.get (envMap text) key := by
  rw [variablesOf, envMap, Assoc.get_ofList, Assoc.get_ofList, ← filter_reverse]
  exact Assoc.get_filter_key hkey _

/-! ## What normalizing promises -/

/-- A text with the variables and notes of `text` and nothing else. -/
structure Normalizes (text text' : JsString) : Prop where
  names : (parseEnvLines text').map Prod.fst = (keysOf text).filter isEnvName
  once : ((parseEnvLines text').map Prod.fst).Nodup
  values : ∀ e ∈ parseEnvLines text', Assoc.get (envMap text) e.1 = some e.2
  notes : ∀ key, Assoc.get (extractNotes text') key = Assoc.get (extractNotes text) key
  checked : ∃ s, checkLines 0 (splitLines text') ⟨[], []⟩ = .ok s
  again : normalizeEnvText text' = some text'

/-- Comment lines that say something stand directly above the last definition of a name. -/
def Commented (text key : JsString) : Prop :=
  ∃ a l b, splitLines text = a ++ l :: b ∧ definesKey l key = true ∧
    (∀ x ∈ b, definesKey x key = false) ∧ noteOf (above a) ≠ []

theorem last_definition {lines : List JsString} (h : ∃ l ∈ lines, definesKey l key = true) :
    ∃ a l b, lines = a ++ l :: b ∧ definesKey l key = true ∧ ∀ x ∈ b, definesKey x key = false := by
  induction lines using reverseRecOn with
  | nil => obtain ⟨l, hl, -⟩ := h; cases hl
  | append_singleton lines l ih =>
    by_cases hl : definesKey l key = true
    · exact ⟨lines, l, [], rfl, hl, by simp⟩
    · obtain ⟨x, hx, hdef⟩ := h
      rcases mem_append.mp hx with hx | hx
      · obtain ⟨a, y, b, rfl, hy, hb⟩ := ih ⟨x, hx, hdef⟩
        refine ⟨a, y, b ++ [l], by simp, hy, fun z hz => ?_⟩
        rcases mem_append.mp hz with hz | hz
        · exact hb z hz
        · rw [mem_singleton.mp hz]
          simpa using hl
      · rw [mem_singleton.mp hx] at hdef
        exact absurd hdef hl

/-- The variables with a note of their own. -/
theorem get_extractNotes_isSome (hkey : isEnvName key = true) :
    (Assoc.get (extractNotes text) key).isSome = true ↔
      key ≠ js "__proto__" ∧ Commented text key := by
  rw [get_extractNotes]
  constructor
  · intro h
    have hdef : ∃ l ∈ splitLines text, definesKey l key = true := by
      by_contra hno
      rw [noteIn_eq_none fun l hl => by
        by_contra hl'
        exact hno ⟨l, hl, by simpa using hl'⟩] at h
      cases h
    obtain ⟨a, l, b, hsplit, hl, hb⟩ := last_definition hdef
    obtain ⟨value, hparse⟩ := definesKey_iff.mp hl
    rw [hsplit, noteIn_last hparse hkey hb, kept] at h
    split at h
    · cases h
    · rename_i hne
      rw [not_or] at hne
      exact ⟨hne.2, a, l, b, hsplit, hl, hb, hne.1⟩
  · rintro ⟨hproto, a, l, b, hsplit, hl, hb, hne⟩
    obtain ⟨value, hparse⟩ := definesKey_iff.mp hl
    rw [hsplit, noteIn_last hparse hkey hb, kept_some hne hproto]
    rfl

theorem readable_extractNotes (text : JsString) : Readable (extractNotes text) := by
  intro key note hget
  have hkey : isEnvName key = true := by
    by_contra hkey
    rw [get_extractNotes, noteIn_of_not_envName (by simpa using hkey)] at hget
    cases hget
  have hproto := ((get_extractNotes_isSome hkey).mp (by rw [hget]; rfl)).1
  rw [get_extractNotes] at hget
  have hread := reread_noteIn (fun l hl => not_mem_of_mem_splitLines hl) hget
  exact ⟨hread.2, hread.1, hproto⟩

/-- Every inherited name is a valid name of a variable. -/
theorem isEnvName_objectPrototype (h : key ∈ objectPrototype) : isEnvName key = true := by
  have hall : objectPrototype.all isEnvName = true := by decide
  exact all_eq_true.mp hall key h

section Written

variable {notes : VariableNotes} {entries : List (JsString × JsString)}

theorem parseEnvLines_textLines (hentries : ∀ e ∈ entries, Writable e) :
    parseEnvLines (join (textLines notes entries) (js "\n")) = entries := by
  by_cases hne : textLines notes entries = []
  · have hparse := filterMap_textLines notes hentries
    rw [hne] at hparse ⊢
    rw [← hparse]
    rfl
  · rw [parseEnvLines_join hne fun l hl => (mem_textLines hentries hl).1,
      filterMap_textLines notes hentries]

theorem variablesOf_textLines (hentries : ∀ e ∈ entries, Writable e)
    (hnodup : (entries.map Prod.fst).Nodup) :
    variablesOf (join (textLines notes entries) (js "\n")) = entries := by
  have hvalid : (entries.filter fun e => isEnvName e.1) = entries :=
    filter_eq_self.mpr fun e he => (hentries e he).name
  rw [variablesOf, parseEnvLines_textLines hentries, hvalid, Assoc.ofList_eq_self hnodup]

/-- A line of the text is a line that was written, white space around it apart. -/
theorem mem_splitLines_textLines (hentries : ∀ e ∈ entries, Writable e)
    (hraw : raw ∈ splitLines (join (textLines notes entries) (js "\n"))) :
    isSkipped (trim raw) = true ∨ ∃ e, parseLine raw = some e ∧ isEnvName e.1 = true := by
  by_cases hne : textLines notes entries = []
  · rw [hne] at hraw
    obtain rfl : raw = [] := by simpa [join, splitLines] using hraw
    exact .inl rfl
  · have htrim : trim raw ∈ (textLines notes entries).map trim := by
      rw [← map_trim_splitLines_join hne fun l hl => (mem_textLines hentries hl).1]
      exact mem_map_of_mem hraw
    obtain ⟨l, hl, hlraw⟩ := mem_map.mp htrim
    rcases (mem_textLines hentries hl).2 with hskip | ⟨e, he, hparse⟩
    · exact .inl (hlraw ▸ hskip)
    · refine .inr ⟨e, ?_, (hentries e he).name⟩
      rw [parseLine, ← hlraw]
      exact hparse

theorem checkLines_textLines (hentries : ∀ e ∈ entries, Writable e)
    (hnodup : (entries.map Prod.fst).Nodup) :
    ∃ s, checkLines 0 (splitLines (join (textLines notes entries) (js "\n"))) ⟨[], []⟩ = .ok s := by
  refine checkLines_ok (fun raw hraw => mem_splitLines_textLines hentries hraw) ?_
  have hparse : (splitLines (join (textLines notes entries) (js "\n"))).filterMap parseLine =
      entries := parseEnvLines_textLines hentries
  rw [hparse]
  exact hnodup

end Written

/-- A text whose names can all be looked up is normalized. -/
theorem normalizes_of_noteLines
    (h : ∀ e ∈ variablesOf text, noteLinesFor (extractNotes text) e.1 ≠ none) :
    ∃ text', normalizeEnvText text = some text' ∧ Normalizes text text' := by
  have hwrite : ∀ e ∈ variablesOf text, Writable e := fun e he => writable_of_mem he
  have hnodup := nodup_variablesOf text
  have hnotes : ∀ key, Assoc.get
      (extractNotes (join (textLines (extractNotes text) (variablesOf text)) (js "\n"))) key =
        Assoc.get (extractNotes text) key := by
    intro key
    rw [get_extractNotes_join fun l hl => (mem_textLines hwrite hl).1,
      noteIn_textLines (readable_extractNotes text) hwrite hnodup h]
    split
    · rfl
    · -- a name that is not defined has no note
      rename_i hkey
      cases hget : Assoc.get (extractNotes text) key with
      | none => rfl
      | some note =>
        have hname : isEnvName key = true := by
          by_contra hname
          rw [get_extractNotes, noteIn_of_not_envName (by simpa using hname)] at hget
          cases hget
        obtain ⟨-, a, l, b, hsplit, hl, -⟩ := (get_extractNotes_isSome hname).mp (by rw [hget]; rfl)
        obtain ⟨value, hparse⟩ := definesKey_iff.mp hl
        refine absurd ?_ hkey
        rw [keys_variablesOf, mem_filter]
        refine ⟨?_, hname⟩
        rw [keysOf, mem_eraseDups]
        have hmem : (key, value) ∈ parseEnvLines text :=
          mem_filterMap.mpr ⟨l, by rw [hsplit]; simp, hparse⟩
        exact mem_map_of_mem (f := Prod.fst) hmem
  refine ⟨_, normalizeEnvText_eq h, ?_, ?_, ?_, hnotes, ?_, ?_⟩
  · rw [parseEnvLines_textLines hwrite, keys_variablesOf]
  · rwa [parseEnvLines_textLines hwrite]
  · intro e he
    rw [parseEnvLines_textLines hwrite] at he
    rw [← get_variablesOf (hwrite e he).name]
    exact Assoc.get_of_mem hnodup he
  · exact checkLines_textLines hwrite hnodup
  · have hvars := @variablesOf_textLines (extractNotes text) _ hwrite hnodup
    have hlines : ∀ key, noteLinesFor (extractNotes
        (join (textLines (extractNotes text) (variablesOf text)) (js "\n"))) key =
          noteLinesFor (extractNotes text) key := by
      intro key
      rw [noteLinesFor, noteLinesFor, hnotes]
    rw [normalizeEnvText_eq]
    · rw [hvars]
      congr 2
      refine flatMap_congr fun e _ => ?_
      rw [blockLines, blockLines, hlines]
    · rw [hvars]
      exact fun e he => by
        rw [hlines]
        exact h e he

/-- **Normalizing works on a text exactly when every name in it that all objects inherit has a
note of its own**, which `__proto__` never has. -/
theorem normalizes_iff (text : JsString) :
    (∃ text', normalizeEnvText text = some text' ∧ Normalizes text text') ↔
      ∀ key ∈ keysOf text, key ∈ objectPrototype → key ≠ js "__proto__" ∧ Commented text key := by
  constructor
  · rintro ⟨text', hnormal, -⟩ key hkey hproto
    have hname := isEnvName_objectPrototype hproto
    have hmem : key ∈ (variablesOf text).map Prod.fst := by
      rw [keys_variablesOf]
      exact List.mem_filter.mpr ⟨hkey, hname⟩
    obtain ⟨e, he, rfl⟩ := List.mem_map.mp hmem
    rw [← get_extractNotes_isSome hname]
    by_contra hnone
    have hget : Assoc.get (extractNotes text) e.1 = none := by simpa using hnone
    rw [normalizeEnvText_eq_none he (noteLinesFor_eq_none.mpr ⟨hget, hproto⟩)] at hnormal
    cases hnormal
  · intro h
    refine normalizes_of_noteLines fun e he hnone => ?_
    obtain ⟨hget, hproto⟩ := noteLinesFor_eq_none.mp hnone
    have hkey : e.1 ∈ keysOf text := by
      have hmem : e.1 ∈ (variablesOf text).map Prod.fst := List.mem_map_of_mem he
      rw [keys_variablesOf] at hmem
      exact (List.mem_filter.mp hmem).1
    have hsome := (get_extractNotes_isSome (writable_of_mem he).name).mpr (h e.1 hkey hproto)
    rw [hget] at hsome
    cases hsome

/-- The text `constructor=1` is not normalized: the table of notes holds a function under
that name. -/
theorem normalize_constructor : normalizeEnvText (js "constructor=1") = none := by
  decide

end Aoox
