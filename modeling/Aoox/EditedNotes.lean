import Aoox.TextEdits

/-! # The notes of an edited text

A variable that was there reads its note from the lines without repeated
definitions, the first new one from what the comment lines left at the end say
followed by the note it was given, and a later one from its given note alone
(`notes_run`).  So the notes are the right ones exactly when dropping the repeated
definitions changes none, nothing is left above the first new variable, and the
given notes read back as they are.
-/
open List
namespace Aoox.TextEdits

open JsString

/-! ## The notes of new variables -/

/-- The note given for a new name; an empty one is none. -/
def givenNote (notes : VariableNotes) (key : JsString) : Option JsString :=
  (Assoc.get notes key).filter fun note => note ≠ []

/-- The note of a new name whose lines stand below comment lines that say `comments`. -/
def noteBelow (notes : VariableNotes) (comments : List JsString) (key : JsString) :
    Option JsString :=
  kept key (noteOf (comments ++
    ((givenNote notes key).map fun note => (split note (js "\n")).map trimEnd).getD []))

variable {notes : VariableNotes} {key : JsString}

theorem above_commentLines (h : noteLinesFor notes key ≠ none) (lines : List JsString) :
    above (lines ++ (noteLinesFor notes key).getD []) = above lines ++
      ((givenNote notes key).map fun note => (split note (js "\n")).map trimEnd).getD [] := by
  cases hget : Assoc.get notes key with
  | none =>
    have hkey : key ∉ objectPrototype := fun hm => h (noteLinesFor_eq_none.mpr ⟨hget, hm⟩)
    rw [noteLinesFor_none hget hkey, givenNote, hget]
    simp
  | some note =>
    by_cases hnote : note = []
    · rw [noteLinesFor, givenNote, hget, hnote]
      simp [Option.filter]
    · have hgiven : givenNote notes key = some note := by
        rw [givenNote, hget]
        simp [Option.filter, hnote]
      rw [noteLinesFor_some hget hnote, hgiven]
      exact above_append_noteLines lines note

section Blocks

variable {notes : VariableNotes} {e : JsString × JsString}

/-- A block sets the note of its variable and leaves the others. -/
theorem noteIn_block (he : Writable e) (h : noteLinesFor notes e.1 ≠ none) (lines : List JsString) :
    noteIn (lines ++ blockLines notes e) e.1 = noteBelow notes (above lines) e.1 := by
  rw [blockLines, ← append_assoc, noteIn_concat (parseLine_lineOf he.line) he.name,
    if_pos rfl, above_commentLines h, noteBelow]

theorem above_block (he : Writable e) (lines : List JsString) :
    above (lines ++ blockLines notes e) = [] := by
  rw [blockLines, ← append_assoc, above_concat (isComment_of_parseLine (parseLine_lineOf he.line))]

variable {entries : List (JsString × JsString)}

theorem noteIn_textLines_other (hentries : ∀ e ∈ entries, Writable e)
    (hkey : key ∉ entries.map Prod.fst)
    (lines : List JsString) : noteIn (lines ++ textLines notes entries) key = noteIn lines key :=
  noteIn_append (defines_eq_false.mp (defines_textLines hentries hkey)) lines

theorem noteIn_first (hentries : ∀ x ∈ e :: entries, Writable x)
    (hnodup : ((e :: entries).map Prod.fst).Nodup) (h : noteLinesFor notes e.1 ≠ none)
    (lines : List JsString) :
    noteIn (lines ++ textLines notes (e :: entries)) e.1 = noteBelow notes (above lines) e.1 := by
  rw [map_cons, nodup_cons] at hnodup
  have hcons : textLines notes (e :: entries) = blockLines notes e ++ textLines notes entries := rfl
  rw [hcons, ← append_assoc, noteIn_textLines_other
    (fun x hx => hentries x (mem_cons_of_mem _ hx)) hnodup.1,
    noteIn_block (hentries e mem_cons_self) h]

theorem noteIn_later (hentries : ∀ x ∈ entries, Writable x) (hnodup : (entries.map Prod.fst).Nodup)
    (h : ∀ x ∈ entries, noteLinesFor notes x.1 ≠ none) {lines : List JsString}
    (habove : above lines = []) (he : e ∈ entries) :
    noteIn (lines ++ textLines notes entries) e.1 = noteBelow notes [] e.1 := by
  induction entries generalizing lines with
  | nil => cases he
  | cons x entries ih =>
    rcases mem_cons.mp he with rfl | he
    · rw [noteIn_first hentries hnodup (h e mem_cons_self), habove]
    · have hcons : textLines notes (x :: entries) = blockLines notes x ++ textLines notes entries :=
        rfl
      rw [map_cons, nodup_cons] at hnodup
      rw [hcons, ← append_assoc]
      exact ih (fun y hy => hentries y (mem_cons_of_mem _ hy)) hnodup.2
        (fun y hy => h y (mem_cons_of_mem _ hy))
        (above_block (hentries x mem_cons_self) lines) he

end Blocks

/-! ## The notes of the lines around them -/

theorem noteIn_thinned_roomAtEnd (keys : List JsString) (lines : List JsString) (key : JsString) :
    noteIn (thinned keys (roomAtEnd lines)) key = noteIn (thinned keys lines) key := by
  obtain ⟨kept, gone, room, hlines, hgone, hroom, hblank⟩ := roomAtEnd_blank lines
  have hroomBlank : ∀ l ∈ room, trim l = [] := by
    intro l hl
    rcases hblank with rfl | rfl
    · cases hl
    · rw [mem_singleton.mp hl]
      rfl
  have hnone : ∀ ls : List JsString, (∀ l ∈ ls, trim l = []) → ∀ k, defines ls k = false :=
    fun ls hls => defines_of_parseLine fun l hl => parseLine_blank (hls l hl)
  have hcut : ∀ ls : List JsString, (∀ l ∈ ls, trim l = []) →
      noteIn (thinned keys (kept ++ ls)) key = noteIn (thinned keys kept) key := fun ls hls => by
    rw [thinned_append fun k _ => hnone ls hls k,
      noteIn_append (defines_eq_false.mp (hnone ls hls key))]
  rw [hroom, hcut room hroomBlank]
  conv_rhs => rw [hlines, hcut gone hgone]

/-- **Around the new variables, notes are those of the text without repeated definitions.** -/
theorem noteIn_around (text : JsString) (s : Setting) (key : JsString) :
    noteIn (around text s) key = noteIn (thinned s.keys (rowsOf text)) key := by
  have hkeys : s.keys = (s.entries.takeWhile fun e => known text e.1).map Prod.fst ++
      (s.entries.dropWhile fun e => known text e.1).map Prod.fst := by
    rw [← map_append, takeWhile_append_dropWhile]
    rfl
  rw [around, hkeys]
  generalize (s.entries.takeWhile fun e => known text e.1).map Prod.fst = early
  generalize (s.entries.dropWhile fun e => known text e.1).map Prod.fst = late
  have hboth : thinned (early ++ late) (rowsOf text) =
      thinned late (thinned early (rowsOf text)) := foldl_append
  rw [hboth]
  split
  · rename_i h
    rw [h]
    rfl
  · exact noteIn_thinned_roomAtEnd late _ key

/-! ## What setting values promises -/

structure Sets (text : JsString) (s : Setting) (notes : VariableNotes) (text' : JsString) :
    Prop where
  values : envMap text' = Assoc.setAll (envMap text) s.entries
  lines : ∃ rows, text' = join (rows ++ textLines notes (s.added text)) (js "\n") ∧
    (∀ l ∈ rows ++ textLines notes (s.added text), cu '\n' ∉ l) ∧ Kept s (rowsOf text) rows
  others : ∀ key, key ∉ s.keys →
    Assoc.get (extractNotes text') key = Assoc.get (extractNotes text) key
  existing : ∀ key ∈ s.keys, key ∈ keysOf text →
    Assoc.get (extractNotes text') key = Assoc.get (extractNotes text) key
  new : ∀ key ∈ s.keys, key ∉ keysOf text →
    Assoc.get (extractNotes text') key = givenNote notes key

def withoutRepeats (text : JsString) (s : Setting) : JsString :=
  join (thinned s.keys (rowsOf text)) (js "\n")

/-- When the notes come out right. -/
structure NotesFit (text : JsString) (s : Setting) (notes : VariableNotes) : Prop where
  listed : ∀ e ∈ s.added text, e.1 ∈ objectPrototype → Assoc.get notes e.1 ≠ none
  repeats : ∀ key ∈ keysOf text, Assoc.get (extractNotes (withoutRepeats text s)) key =
    Assoc.get (extractNotes text) key
  first : ∀ e, (s.added text).head? = some e →
    noteBelow notes (above (around text s)) e.1 = givenNote notes e.1
  later : ∀ e ∈ (s.added text).tail, noteBelow notes [] e.1 = givenNote notes e.1

variable {text : JsString}

theorem mem_keysOf_iff : key ∈ keysOf text ↔ known text key = true := by
  rw [keysOf, mem_eraseDups, ← filterMap_rowsOf, known, defines, any_eq_true]
  constructor
  · intro h
    obtain ⟨⟨k, v⟩, he, rfl⟩ := mem_map.mp h
    obtain ⟨l, hl, hparse⟩ := mem_filterMap.mp he
    exact ⟨l, hl, definesKey_iff.mpr ⟨v, hparse⟩⟩
  · rintro ⟨l, hl, hdef⟩
    obtain ⟨v, hparse⟩ := definesKey_iff.mp hdef
    exact mem_map.mpr ⟨(key, v), mem_filterMap.mpr ⟨l, hl, hparse⟩, rfl⟩

theorem get_extractNotes_rows (text key : JsString) :
    Assoc.get (extractNotes text) key = noteIn (rowsOf text) key := by
  rw [rowsOf]
  split
  · rename_i h
    rw [h]
    rfl
  · exact get_extractNotes text key

theorem get_extractNotes_withoutRepeats (text : JsString) (s : Setting) (key : JsString) :
    Assoc.get (extractNotes (withoutRepeats text s)) key =
      noteIn (thinned s.keys (rowsOf text)) key :=
  get_extractNotes_join (fun _ hl => newline_notMem_rowsOf ((thinned_sublist _ _).subset hl)) key

theorem noteLinesFor_ne_none :
    noteLinesFor notes key ≠ none ↔ (key ∈ objectPrototype → Assoc.get notes key ≠ none) := by
  rw [Ne, noteLinesFor_eq_none]
  tauto

/-- **An edited text**, its notes apart, and what its notes are. -/
theorem notes_run {s : Setting} (hnotes : ∀ e ∈ s.added text, noteLinesFor notes e.1 ≠ none) :
    ∃ text', setValues text s.entries notes = some text' ∧
      envMap text' = Assoc.setAll (envMap text) s.entries ∧
      (∃ rows, text' = join (rows ++ textLines notes (s.added text)) (js "\n") ∧
        (∀ l ∈ rows ++ textLines notes (s.added text), cu '\n' ∉ l) ∧
        Kept s (rowsOf text) rows) ∧
      (∀ key, key ∉ (s.added text).map Prod.fst → Assoc.get (extractNotes text') key =
        Assoc.get (extractNotes (withoutRepeats text s)) key) ∧
      (∀ e, (s.added text).head? = some e → Assoc.get (extractNotes text') e.1 =
        noteBelow notes (above (around text s)) e.1) ∧
      ∀ e ∈ (s.added text).tail, Assoc.get (extractNotes text') e.1 = noteBelow notes [] e.1 := by
  obtain ⟨rows, hrun, halike⟩ := run_eq hnotes
  have hwrite : ∀ e ∈ s.added text, Writable e := fun e he =>
    s.writable (mem_filter.mp he).1
  have hnodup : ((s.added text).map Prod.fst).Nodup := s.nodup.sublist (filter_sublist.map _)
  obtain ⟨-, hlines, -, -⟩ := foldlM_setValue (fun e he => (s.writable he).line) s.nodup
    (fun l hl => newline_notMem_rowsOf hl) hrun
  have hset : setValues text s.entries notes =
      some (join (rows ++ textLines notes (s.added text)) (js "\n")) := by
    have hfold : s.entries.foldlM (setValue notes) (if text = [] then [] else splitLines text) =
        some (rows ++ textLines notes (s.added text)) := hrun
    rw [setValues, hfold]
    rfl
  have hread : ∀ key, Assoc.get (extractNotes
      (join (rows ++ textLines notes (s.added text)) (js "\n"))) key =
        noteIn (around text s ++ textLines notes (s.added text)) key := fun key => by
    rw [get_extractNotes_join hlines, (halike.append (AlikeLines.refl _)).noteIn]
  refine ⟨_, hset, envMap_run hrun hlines, ⟨rows, rfl, hlines, ?_⟩, fun key hkey => ?_,
    fun e he => ?_, fun e he => ?_⟩
  · obtain ⟨kept, gone, room, hbefore, hgone, hafter, hblank⟩ := kept_around text s
    refine ⟨kept, gone, room, hbefore, hgone, ?_, hblank⟩
    rw [halike.filter fun key hkey l hl => s.other_eq_false hkey hl, hafter]
  · rw [hread, noteIn_textLines_other hwrite hkey, noteIn_around, get_extractNotes_withoutRepeats]
  · obtain ⟨rest, hrest⟩ := List.head?_eq_some_iff.mp he
    rw [hread, hrest]
    rw [hrest] at hwrite hnodup hnotes
    exact noteIn_first hwrite hnodup (hnotes e mem_cons_self) _
  · cases hadded : s.added text with
    | nil =>
      rw [hadded] at he
      cases he
    | cons x rest =>
      rw [hadded] at he hwrite hnodup hnotes
      have hcons : textLines notes (x :: rest) = blockLines notes x ++ textLines notes rest := rfl
      rw [← hadded, hread, hadded, hcons, ← append_assoc]
      rw [map_cons, nodup_cons] at hnodup
      exact noteIn_later (fun y hy => hwrite y (mem_cons_of_mem _ hy)) hnodup.2
        (fun y hy => hnotes y (mem_cons_of_mem _ hy))
        (above_block (hwrite x mem_cons_self) _) he

theorem mem_added_iff {s : Setting} :
    key ∈ (s.added text).map Prod.fst ↔ key ∈ s.keys ∧ key ∉ keysOf text := by
  rw [mem_keysOf_iff, Setting.keys]
  simp only [mem_map, Setting.added, mem_filter]
  constructor
  · rintro ⟨e, ⟨he, hnew⟩, rfl⟩
    exact ⟨⟨e, he, rfl⟩, by simpa using hnew⟩
  · rintro ⟨⟨e, he, rfl⟩, hnew⟩
    exact ⟨e, ⟨he, by simpa using hnew⟩, rfl⟩

/-- A name without a definition has no note, whatever is dropped. -/
theorem get_extractNotes_unknown (s : Setting) (h : key ∉ keysOf text) :
    Assoc.get (extractNotes (withoutRepeats text s)) key = Assoc.get (extractNotes text) key := by
  have hknown : defines (rowsOf text) key = false := by
    rw [mem_keysOf_iff] at h
    simpa [known] using h
  rw [get_extractNotes_withoutRepeats, get_extractNotes_rows,
    noteIn_eq_none (defines_eq_false.mp hknown), noteIn_eq_none]
  exact defines_eq_false.mp (by rw [defines_thinned, hknown])

/-- **Setting values keeps its promise exactly when the notes fit**: every new inherited name has
an entry in the given notes, dropping the repeated definitions changes no note, what is left above
the first new variable adds nothing to its note, and the given notes read back. -/
theorem setsValues_iff (text : JsString) (s : Setting) (notes : VariableNotes) :
    (∃ text', setValues text s.entries notes = some text' ∧ Sets text s notes text') ↔
      NotesFit text s notes := by
  constructor
  · rintro ⟨text', hset, hsets⟩
    obtain ⟨lines, hrun, -⟩ := Option.map_eq_some_iff.mp hset
    have hnotes : ∀ e ∈ s.added text, noteLinesFor notes e.1 ≠ none := fun e he =>
      noteLinesFor_of_run (fun x hx => s.writable hx) s.nodup hrun (List.mem_filter.mp he).1
        (by simpa [known, rowsOf] using (List.mem_filter.mp he).2)
    obtain ⟨text'', hset', -, -, hold, hfirst, hlater⟩ := notes_run hnotes
    rw [hset] at hset'
    obtain rfl := Option.some.inj hset'
    have hnew : ∀ e ∈ s.added text, Assoc.get (extractNotes text') e.1 = givenNote notes e.1 := by
      intro e he
      obtain ⟨hkey, hnot⟩ := mem_added_iff.mp (List.mem_map_of_mem (f := Prod.fst) he)
      exact hsets.new e.1 hkey hnot
    refine ⟨fun e he => noteLinesFor_ne_none.mp (hnotes e he), fun key hkey => ?_, fun e he => ?_,
      fun e he => ?_⟩
    · rw [← hold key fun hm => (mem_added_iff.mp hm).2 hkey]
      by_cases hset : key ∈ s.keys
      · exact hsets.existing key hset hkey
      · exact hsets.others key hset
    · rw [← hfirst e he, hnew e (List.mem_of_mem_head? he)]
    · rw [← hlater e he, hnew e (List.mem_of_mem_tail he)]
  · intro hfit
    have hnotes : ∀ e ∈ s.added text, noteLinesFor notes e.1 ≠ none := fun e he =>
      noteLinesFor_ne_none.mpr (hfit.listed e he)
    obtain ⟨text', hset, hvalues, hlines, hold, hfirst, hlater⟩ := notes_run hnotes
    have hsame : ∀ key, key ∉ (s.added text).map Prod.fst → Assoc.get (extractNotes text') key =
        Assoc.get (extractNotes text) key := by
      intro key hkey
      rw [hold key hkey]
      by_cases hknown : key ∈ keysOf text
      · exact hfit.repeats key hknown
      · exact get_extractNotes_unknown s hknown
    refine ⟨text', hset, hvalues, hlines, fun key hkey => ?_, fun key _ hknown => ?_,
      fun key hkey hknown => ?_⟩
    · exact hsame key fun hm => hkey (mem_added_iff.mp hm).1
    · exact hsame key fun hm => (mem_added_iff.mp hm).2 hknown
    · obtain ⟨e, he, rfl⟩ := List.mem_map.mp (mem_added_iff.mpr ⟨hkey, hknown⟩)
      cases hadded : s.added text with
      | nil =>
        rw [hadded] at he
        cases he
      | cons x rest =>
        rw [hadded] at he
        rcases List.mem_cons.mp he with rfl | he
        · have hhead : (s.added text).head? = some e := by rw [hadded]; rfl
          rw [hfirst e hhead, hfit.first e hhead]
        · have htail : e ∈ (s.added text).tail := by rw [hadded]; exact he
          rw [hlater e htail, hfit.later e htail]

/-- The text `A=1`, `# two`, `A=2`, `B=3` with a new value for `A`. -/
def repeatedSetting : Setting where
  entries := [(js "A", js "4")]
  names := by decide
  values := by
    intro e he
    obtain rfl := List.mem_singleton.mp he
    exact ⟨js "A=4", js "A", by decide⟩
  nodup := by decide

/-- The second definition of `A` is dropped and its comment becomes the note of `B`. -/
theorem setValues_repeated : ¬ ∃ text',
    setValues (js "A=1\n# two\nA=2\nB=3") repeatedSetting.entries [] = some text' ∧
      Sets (js "A=1\n# two\nA=2\nB=3") repeatedSetting [] text' := by
  rintro ⟨text', hset, hsets⟩
  have htext : setValues (js "A=1\n# two\nA=2\nB=3") repeatedSetting.entries [] =
      some (js "A=4\n# two\nB=3") := by decide
  obtain rfl := Option.some.inj (htext.symm.trans hset)
  have hnote := hsets.others (js "B") (by decide)
  have hgain : Assoc.get (extractNotes (js "A=4\n# two\nB=3")) (js "B") = some (js "two") := by
    decide
  have hnone : Assoc.get (extractNotes (js "A=1\n# two\nA=2\nB=3")) (js "B") = none := by decide
  rw [hgain, hnone] at hnote
  cases hnote

end Aoox.TextEdits
