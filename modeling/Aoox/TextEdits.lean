import Aoox.LayerMerge
import Aoox.RepeatedDefinitions

/-! # Editing a text key by key

`setValues` writes a list of entries into a text.  Variables that are there are
written in place, and from the first new one on everything new stands at the end
(`run_eq`), so the edited text is the lines `around` the new variables, values
apart, and then their blocks.  The values are those of the text overridden by the
entries (`envMap_run`), and the other lines stay (`kept_around`).

Notes are where it goes wrong.  They are those of the text without its repeated
definitions (`noteIn_around`), so a dropped definition hands the comment lines
above it to what follows; and the table of given notes is a plain object that has
an answer for every inherited name.  `setsValues_iff` says exactly when every note
is the right one.
-/
open List Option Bool
namespace Aoox.TextEdits

open JsString

/-! ## Entries to set -/

theorem isSpace_of_nameUnit {c : CodeUnit} (h : (isLetter c || c == cu '_' || isDigit c) = true) :
    isSpace c = false ∧ c ≠ cu '#' ∧ c ≠ cu '\n' := by
  have hrange : 48 ≤ c.toNat ∧ c.toNat ≤ 122 := by
    simp only [isLetter, isDigit, cu, or_eq_true, and_eq_true, decide_eq_true_eq,
      beq_iff_eq, UInt16.le_iff_toNat_le, ← UInt16.toNat_inj] at h
    simp at h
    omega
  simp only [isSpace, cu, or_eq_false_iff, and_eq_false_iff, decide_eq_false_iff_not,
    beq_eq_false_iff_ne, ne_eq, UInt16.le_iff_toNat_le, ← UInt16.toNat_inj]
  simp
  omega

variable {e : JsString × JsString}

/-- A valid name and the value of some line are an entry. -/
theorem writable_of_isEnvName {source name : JsString} (hname : isEnvName e.1 = true)
    (hvalue : (name, e.2) ∈ parseEnvLines source) : Writable e := by
  have hline := entry_of_mem hvalue
  have hunit : ∀ c ∈ e.1, isSpace c = false ∧ c ≠ cu '#' ∧ c ≠ cu '\n' := by
    rw [isEnvName_eq, and_eq_true_iff] at hname
    exact fun c hc => isSpace_of_nameUnit (all_eq_true.mp hname.2 c hc)
  refine ⟨⟨?_, equals_notMem_of_isEnvName hname, ?_, ?_, hline.value_end, ?_, hline.value_line⟩,
    hname⟩
  · intro hnil
    rw [hnil] at hname
    cases hname
  · exact trim_eq_self (fun c hc => (hunit c (List.mem_of_mem_head? hc)).1)
      fun c hc => (hunit c (List.mem_of_mem_getLast? hc)).1
  · exact fun hc => (hunit _ (List.mem_of_mem_head? hc)).2.1 rfl
  · exact fun hm => (hunit _ hm).2.2 rfl

/-- Entries with distinct valid names and values of parsed texts. -/
structure Setting where
  entries : List (JsString × JsString)
  names : ∀ e ∈ entries, isEnvName e.1 = true
  values : ∀ e ∈ entries, ∃ source name, (name, e.2) ∈ parseEnvLines source
  nodup : (entries.map Prod.fst).Nodup

variable {key : JsString}

namespace Setting

/-- The names that are set. -/
def keys (s : Setting) : List JsString := s.entries.map Prod.fst

theorem writable (s : Setting) (he : e ∈ s.entries) : Writable e := by
  obtain ⟨source, name, hvalue⟩ := s.values e he
  exact writable_of_isEnvName (s.names e he) hvalue

def other (s : Setting) (line : JsString) : Bool := s.keys.all fun key => !definesKey line key

theorem other_eq_false (s : Setting) {line : JsString} (hkey : key ∈ s.keys)
    (h : definesKey line key = true) : s.other line = false := by
  rw [other, List.all_eq_false]
  exact ⟨key, hkey, by simp [h]⟩

end Setting

/-- The lines `setValues` starts from. -/
def rowsOf (text : JsString) : List JsString := if text = [] then [] else splitLines text

/-- Whether the text defines `key`. -/
def known (text key : JsString) : Bool := defines (rowsOf text) key

/-- The entries that are new. -/
def Setting.added (s : Setting) (text : JsString) : List (JsString × JsString) :=
  s.entries.filter fun e => !known text e.1

/-- The lines around the new variables: repeated definitions are dropped as their
names are set, and the first new name makes room at the end. -/
def around (text : JsString) (s : Setting) : List JsString :=
  let early := (s.entries.takeWhile fun e => known text e.1).map Prod.fst
  let late := (s.entries.dropWhile fun e => known text e.1).map Prod.fst
  if late = [] then thinned early (rowsOf text)
  else thinned late (roomAtEnd (thinned early (rowsOf text)))

/-! ## A run over the entries -/

variable {notes : VariableNotes}

theorem defines_blockLines (he : Writable e)
    (hkey : key ≠ e.1) : defines (blockLines notes e) key = false := by
  refine defines_eq_false.mpr fun l hl => ?_
  rw [blockLines] at hl
  rcases mem_append.mp hl with hl | hl
  · rw [definesKey, (mem_commentLines hl).2.1]
  · rw [mem_singleton.mp hl]
    exact definesKey_other (definesKey_iff.mpr ⟨e.2, parseLine_lineOf he.line⟩) hkey

variable {entries : List (JsString × JsString)}

theorem defines_textLines (hentries : ∀ e ∈ entries, Writable e)
    (hkey : key ∉ entries.map Prod.fst) :
    defines (textLines notes entries) key = false := by
  refine defines_eq_false.mpr fun l hl => ?_
  obtain ⟨e, he, hl⟩ := mem_flatMap.mp hl
  have hne : key ≠ e.1 := fun heq => hkey (heq ▸ mem_map_of_mem he)
  exact defines_eq_false.mp (defines_blockLines (hentries e he) hne) l hl

def Ends (lines : List JsString) : Prop := ∃ a l e, lines = a ++ [l] ∧ parseLine l = some e

theorem ends_blockLines (notes : VariableNotes) (he : Writable e)
    (lines : List JsString) : Ends (lines ++ blockLines notes e) :=
  ⟨_, lineOf e.1 e.2, e, (append_assoc _ _ _).symm, parseLine_lineOf he.line⟩

variable {lines : List JsString}

/-- There is room below a variable. -/
theorem roomAtEnd_of_ends (h : Ends lines) : roomAtEnd lines = lines := by
  obtain ⟨a, l, e, rfl, hl⟩ := h
  have hdrop : (a ++ [l]).rdropWhile (fun l => trim l = []) = a ++ [l] :=
    rdropWhile_concat_neg _ _ _ (by simpa using trim_ne_nil_of_parseLine hl)
  have hcomment : startsWith (trim l) [cu '#'] = false := isComment_of_parseLine hl
  rw [roomAtEnd, hdrop]
  simp [hcomment]

theorem setValue_new_eq (h : defines lines e.1 = false) (hnotes : noteLinesFor notes e.1 ≠ none) :
    setValue notes lines e = some (roomAtEnd lines ++ blockLines notes e) := by
  obtain ⟨ns, hns⟩ := ne_none_iff_exists'.mp hnotes
  have hset := @setValue_new notes e.1 e.2 lines h
  rw [hns] at hset
  rw [hset, blockLines, hns]
  exact congrArg some (append_assoc _ _ _)

theorem ends_append {tail : List JsString} (h : Ends tail) (front : List JsString) :
    Ends (front ++ tail) := by
  obtain ⟨a, l, e, rfl, hl⟩ := h
  exact ⟨front ++ a, l, e, (append_assoc _ _ _).symm, hl⟩

/-- **From the first new variable on**, names that are there are set above and new ones below. -/
theorem run_below (notes : VariableNotes) (old : JsString → Bool) (tail : List JsString)
    {all : List JsString} (hentries : ∀ e ∈ entries, Writable e ∧ e.1 ∈ all)
    (hnodup : (entries.map Prod.fst).Nodup) {base front : List JsString}
    (h : AlikeLines all base front) (hold : ∀ e ∈ entries, defines base e.1 = old e.1)
    (htail : ∀ e ∈ entries, defines tail e.1 = false)
    (hends : ∀ e ∈ entries, old e.1 = false → Ends tail ∧ noteLinesFor notes e.1 ≠ none) :
    ∃ front', entries.foldlM (setValue notes) (front ++ tail) =
        some (front' ++ (tail ++ textLines notes (entries.filter fun e => !old e.1))) ∧
      AlikeLines all (thinned (entries.map Prod.fst) base) front' := by
  induction entries generalizing base front tail with
  | nil => exact ⟨front, by simp [textLines], h⟩
  | cons e entries ih =>
    obtain ⟨hwrite, hall⟩ := hentries e mem_cons_self
    have hrest := fun x hx => hentries x (mem_cons_of_mem e hx)
    have hbase := hold e mem_cons_self
    rw [map_cons, nodup_cons] at hnodup
    have hthin : thinned ((e :: entries).map Prod.fst) base =
        thinned (entries.map Prod.fst) (once e.1 base) := rfl
    have hold' : ∀ x ∈ entries, defines (once e.1 base) x.1 = old x.1 := fun x hx => by
      rw [defines_once, hold x (mem_cons_of_mem _ hx)]
    rw [foldlM_cons, hthin]
    cases he : old e.1 with
    | true =>
      rw [he] at hbase
      have hfront : defines front e.1 = true := by rw [h.defines, hbase]
      have hset : setValue notes (front ++ tail) e = some (putLine e.1 e.2 front ++ tail) := by
        rw [← putLine_append hfront (htail e mem_cons_self)]
        exact setValue_known (by rw [defines_append, hfront, Bool.true_or])
      obtain ⟨front', hrun, halike⟩ := ih tail hrest hnodup.2 (alike_putLine hall hwrite.line h) hold'
        (fun x hx => htail x (mem_cons_of_mem _ hx))
        fun x hx => hends x (mem_cons_of_mem _ hx)
      refine ⟨front', ?_, halike⟩
      rw [hset, filter_cons_of_neg (by simp [he])]
      exact hrun
    | false =>
      rw [he] at hbase
      obtain ⟨htailEnds, hnotes⟩ := hends e mem_cons_self he
      have hset : setValue notes (front ++ tail) e =
          some (front ++ (tail ++ blockLines notes e)) := by
        rw [setValue_new_eq _ hnotes, roomAtEnd_of_ends (ends_append htailEnds front), append_assoc]
        rw [defines_append, h.defines, hbase, htail e mem_cons_self, Bool.or_false]
      have hne : ∀ x ∈ entries, x.1 ≠ e.1 := fun x hx heq =>
        hnodup.1 (heq ▸ mem_map_of_mem hx)
      obtain ⟨front', hrun, halike⟩ := ih (tail ++ blockLines notes e) hrest
        hnodup.2 ((once_eq_self hbase).symm ▸ h) hold'
        (fun x hx => by
          rw [defines_append, htail x (mem_cons_of_mem _ hx),
            defines_blockLines hwrite (hne x hx), Bool.or_false])
        fun x hx hx' => ⟨ends_blockLines notes hwrite tail, (hends x (mem_cons_of_mem _ hx) hx').2⟩
      refine ⟨front', ?_, halike⟩
      rw [hset, filter_cons_of_pos (by simp [he])]
      have hcons : textLines notes (e :: entries.filter fun e => !old e.1) =
          blockLines notes e ++ textLines notes (entries.filter fun e => !old e.1) := rfl
      rw [hcons, ← append_assoc tail]
      exact hrun

theorem defines_of_parseLine (h : ∀ l ∈ lines, parseLine l = none)
    (key : JsString) : defines lines key = false :=
  defines_eq_false.mpr fun l hl => by rw [definesKey, h l hl]

theorem defines_roomAtEnd (lines : List JsString) (key : JsString) :
    defines (roomAtEnd lines) key = defines lines key := by
  obtain ⟨kept, gone, added, hlines, hroom, hgone, hadded⟩ := roomAtEnd_eq lines
  have hblank : ∀ l ∈ added, parseLine l = none := fun l hl => by
    rw [hadded l hl]
    rfl
  rw [hroom, defines_append, defines_of_parseLine hblank, Bool.or_false, hlines, defines_append,
    defines_of_parseLine hgone, Bool.or_false]

/-- **The edited lines**: those around the new variables, values apart, and the new blocks. -/
theorem run_eq {text : JsString} {s : Setting}
    (hnotes : ∀ e ∈ s.added text, noteLinesFor notes e.1 ≠ none) :
    ∃ front, s.entries.foldlM (setValue notes) (rowsOf text) =
        some (front ++ textLines notes (s.added text)) ∧
      AlikeLines s.keys (around text s) front := by
  have hsplit := takeWhile_append_dropWhile
    (p := fun e : JsString × JsString => known text e.1) (l := s.entries)
  have hall : ∀ e ∈ s.entries, Writable e ∧ e.1 ∈ s.keys := fun e he =>
    ⟨s.writable he, mem_map_of_mem he⟩
  have hnodup := s.nodup
  rw [around]
  generalize hearly : s.entries.takeWhile (fun e => known text e.1) = early at hsplit ⊢
  generalize hlate : s.entries.dropWhile (fun e => known text e.1) = late at hsplit ⊢
  have hknown : ∀ e ∈ early, known text e.1 = true := fun e he =>
    mem_takeWhile_imp (p := fun e : JsString × JsString => known text e.1) (hearly ▸ he)
  rw [← hsplit, map_append, nodup_append] at hnodup
  -- the names that are there and come first
  obtain ⟨front, hrun, halike⟩ := run_below notes (known text) []
    (fun e he => hall e (hsplit ▸ mem_append_left _ he)) hnodup.1
    (AlikeLines.refl (rowsOf text)) (fun e _ => rfl) (fun e _ => rfl)
    fun e he hold => by rw [hknown e he] at hold; cases hold
  have hnone : (early.filter fun e => !known text e.1) = [] :=
    filter_eq_nil_iff.mpr fun e he => by simp [hknown e he]
  have hearlyRun : early.foldlM (setValue notes) (rowsOf text) = some front := by
    simpa [hnone, textLines] using hrun
  have hadded : s.added text = late.filter fun e => !known text e.1 := by
    rw [Setting.added, ← hsplit, filter_append, hnone, nil_append]
  rw [hadded] at hnotes ⊢
  rw [← hsplit, foldlM_append, hearlyRun]
  cases late with
  | nil => exact ⟨front, by simp [textLines], halike⟩
  | cons e late =>
    -- the first new name makes room at the end
    have hnew : known text e.1 = false := by
      have hhead := List.head?_dropWhile_not
        (fun x : JsString × JsString => known text x.1) s.entries
      rw [hlate] at hhead
      simpa using hhead
    have hlateAll : ∀ x ∈ e :: late, Writable x ∧ x.1 ∈ s.keys := fun x hx =>
      hall x (hsplit ▸ mem_append_right _ hx)
    obtain ⟨hkeys, hnodup⟩ := nodup_cons.mp hnodup.2.1
    have hbase : ∀ key, defines (roomAtEnd (thinned (early.map Prod.fst) (rowsOf text))) key =
        known text key := fun key => by rw [defines_roomAtEnd, defines_thinned, known]
    have hset : setValue notes front e = some (roomAtEnd front ++ blockLines notes e) :=
      setValue_new_eq (by rw [← defines_roomAtEnd, halike.roomAtEnd.defines, hbase, hnew])
        (hnotes e (by simp [hnew]))
    have hne : ∀ x ∈ late, x.1 ≠ e.1 := fun x hx heq => hkeys (heq ▸ mem_map_of_mem hx)
    obtain ⟨front', hrun', halike'⟩ := run_below notes (known text) (blockLines notes e)
      (fun x hx => hlateAll x (mem_cons_of_mem e hx)) hnodup halike.roomAtEnd
      (fun x _ => hbase x.1)
      (fun x hx => defines_blockLines (hlateAll e mem_cons_self).1 (hne x hx))
      fun x hx hx' => ⟨ends_blockLines notes (hlateAll e mem_cons_self).1 [],
        hnotes x (mem_filter.mpr ⟨mem_cons_of_mem e hx, by simp [hx']⟩)⟩
    have hthin : thinned ((e :: late).map Prod.fst)
        (roomAtEnd (thinned (early.map Prod.fst) (rowsOf text))) =
          thinned (late.map Prod.fst) (roomAtEnd (thinned (early.map Prod.fst) (rowsOf text))) := by
      rw [map_cons, thinned, foldl_cons, once_eq_self (by rw [hbase, hnew])]
      rfl
    refine ⟨front', ?_, by rw [if_neg (by simp), hthin]; exact halike'⟩
    rw [filter_cons_of_pos (by simp [hnew])]
    change (e :: late).foldlM (setValue notes) front = _
    rw [foldlM_cons, hset]
    exact hrun'

/-! ## Names that have to be listed -/

variable {lines' : List JsString}

theorem defines_setValue (he : Writable e) (h : setValue notes lines e = some lines')
    (hkey : key ≠ e.1) : defines lines' key = defines lines key := by
  cases hdef : defines lines e.1 with
  | true =>
    rw [setValue_known hdef] at h
    obtain rfl := some.inj h
    have halike := alike_putLine (mem_singleton.mpr rfl) he.line (AlikeLines.refl lines)
    rw [halike.defines, defines_once]
  | false =>
    have hnotes : noteLinesFor notes e.1 ≠ none := fun hnone => by
      rw [setValue_new hdef, hnone] at h
      cases h
    rw [setValue_new_eq hdef hnotes] at h
    obtain rfl := some.inj h
    rw [defines_append, defines_roomAtEnd, defines_blockLines he hkey, Bool.or_false]

/-- A run that ends found lines for every new name. -/
theorem noteLinesFor_of_run (hentries : ∀ e ∈ entries, Writable e)
    (hnodup : (entries.map Prod.fst).Nodup)
    (h : entries.foldlM (setValue notes) lines = some lines') (he : e ∈ entries)
    (hnew : defines lines e.1 = false) : noteLinesFor notes e.1 ≠ none := by
  induction entries generalizing lines with
  | nil => cases he
  | cons x entries ih =>
    rw [map_cons, nodup_cons] at hnodup
    rw [foldlM_cons] at h
    obtain ⟨mid, hmid, hrest⟩ := bind_eq_some_iff.mp h
    rcases mem_cons.mp he with rfl | he
    · intro hnone
      rw [setValue_new hnew, hnone] at hmid
      cases hmid
    · have hne : e.1 ≠ x.1 := fun heq => hnodup.1 (heq ▸ mem_map_of_mem he)
      refine ih (fun y hy => hentries y (mem_cons_of_mem _ hy)) hnodup.2 hrest he ?_
      rw [defines_setValue (hentries x mem_cons_self) hmid hne, hnew]

/-! ## The values -/

theorem filterMap_filter_definesKey (key : JsString) (lines : List JsString) :
    (lines.filter fun l => !definesKey l key).filterMap parseLine =
      (lines.filterMap parseLine).filter fun e => e.1 ≠ key := by
  induction lines with
  | nil => rfl
  | cons l ls ih =>
    cases hl : parseLine l with
    | none =>
      have hdef : definesKey l key = false := by rw [definesKey, hl]
      rw [filter_cons_of_pos (by simp [hdef]), filterMap_cons, hl, filterMap_cons,
        hl,
        ih]
    | some e =>
      have hdef : definesKey l key = decide (e.1 = key) := by rw [definesKey, hl]
      by_cases he : e.1 = key
      · rw [filter_cons_of_neg (by simp [hdef, he]), filterMap_cons, hl,
          filter_cons_of_neg (by simpa using he), ih]
      · rw [filter_cons_of_pos (by simp [hdef, he]), filterMap_cons, hl,
          filterMap_cons, hl, filter_cons_of_pos (by simpa using he), ih]

/-- The variables before the first definition, the definition, and those below. -/
theorem filterMap_putLine (he : Writable e) (h : defines lines e.1 = true) :
    ∃ a v b, lines.filterMap parseLine = a ++ (e.1, v) :: b ∧
      (putLine e.1 e.2 lines).filterMap parseLine = a ++ e :: b.filter fun x => x.1 ≠ e.1 := by
  induction lines with
  | nil => cases h
  | cons l ls ih =>
    rw [putLine]
    by_cases hl : definesKey l e.1 = true
    · obtain ⟨v, hv⟩ := definesKey_iff.mp hl
      refine ⟨[], v, ls.filterMap parseLine, ?_, ?_⟩
      · rw [filterMap_cons, hv]
        rfl
      · rw [if_pos hl, filterMap_cons, parseLine_lineOf he.line, filterMap_filter_definesKey]
        rfl
    · rw [defines, any_cons, or_eq_true] at h
      obtain ⟨a, v, b, hab, hput⟩ := ih (h.resolve_left hl)
      refine ⟨(parseLine l).toList ++ a, v, b, ?_, ?_⟩
      · rw [filterMap_cons, hab]
        cases parseLine l <;> rfl
      · rw [if_neg hl, filterMap_cons, hput]
        cases parseLine l <;> rfl

/-- **One entry is written into the map.** -/
theorem ofList_setValue (he : Writable e) (h : setValue notes lines e = some lines') :
    Assoc.ofList (lines'.filterMap parseLine) =
      Assoc.set (Assoc.ofList (lines.filterMap parseLine)) e.1 e.2 := by
  have hconcat : ∀ m : List (JsString × JsString), Assoc.ofList (m ++ [e]) =
      Assoc.set (Assoc.ofList m) e.1 e.2 := fun m => by rw [Assoc.ofList, foldl_concat]; rfl
  cases hdef : defines lines e.1 with
  | true =>
    rw [setValue_known hdef] at h
    obtain rfl := some.inj h
    obtain ⟨a, v, b, hlines, hput⟩ := filterMap_putLine he hdef
    have hfrom : ∀ x : JsString × JsString, ∀ c, Assoc.ofList (a ++ x :: c) =
        Assoc.setAll (Assoc.set (Assoc.ofList a) x.1 x.2) c := fun x c => by
      rw [Assoc.ofList, foldl_append]
      rfl
    have hmem : e.1 ∈ (Assoc.set (Assoc.ofList a) e.1 v).map Prod.fst := by
      rw [Assoc.keys_set]
      split
      · assumption
      · simp
    rw [hlines, hput, hfrom, hfrom, Assoc.set_setAll hmem, Assoc.set_set]
  | false =>
    have hnotes : noteLinesFor notes e.1 ≠ none := fun hnone => by
      rw [setValue_new hdef, hnone] at h
      cases h
    rw [setValue_new_eq hdef hnotes] at h
    obtain rfl := some.inj h
    obtain ⟨kept, gone, added, hlines, hroom, hgone, hadded⟩ := roomAtEnd_eq lines
    have hnone : ∀ ls : List JsString, (∀ l ∈ ls, parseLine l = none) →
        ls.filterMap parseLine = [] := fun ls hls => filterMap_eq_nil_iff.mpr hls
    rw [hroom, filterMap_append, filterMap_blockLines notes he, hconcat,
      filterMap_append, hnone added fun l hl => by rw [hadded l hl]; rfl]
    conv_rhs => rw [hlines, filterMap_append, hnone gone hgone]

theorem ofList_run (hentries : ∀ e ∈ entries, Writable e)
    (h : entries.foldlM (setValue notes) lines = some lines') :
    Assoc.ofList (lines'.filterMap parseLine) =
      Assoc.setAll (Assoc.ofList (lines.filterMap parseLine)) entries := by
  induction entries generalizing lines with
  | nil =>
    obtain rfl : lines = lines' := by simpa using h
    rfl
  | cons e entries ih =>
    rw [foldlM_cons] at h
    obtain ⟨mid, hmid, hrest⟩ := bind_eq_some_iff.mp h
    rw [ih (fun x hx => hentries x (mem_cons_of_mem _ hx)) hrest,
      ofList_setValue (hentries e mem_cons_self) hmid]
    rfl

theorem newline_notMem_rowsOf {text l : JsString} (h : l ∈ rowsOf text) : cu '\n' ∉ l := by
  rw [rowsOf] at h
  split at h
  · cases h
  · exact not_mem_of_mem_splitLines h

theorem filterMap_rowsOf (text : JsString) :
    (rowsOf text).filterMap parseLine = parseEnvLines text := by
  rw [rowsOf]
  split
  · rename_i h
    rw [h]
    rfl
  · rfl

/-- The variables of lines that were put together again. -/
theorem parseEnvLines_joined (h : ∀ l ∈ lines, cu '\n' ∉ l) :
    parseEnvLines (join lines (js "\n")) = lines.filterMap parseLine := by
  by_cases hne : lines = []
  · rw [hne]
    rfl
  · exact parseEnvLines_join hne h

/-- **The values of the edited text** are those of the text overridden by the entries. -/
theorem envMap_run {text : JsString} {s : Setting}
    (h : s.entries.foldlM (setValue notes) (rowsOf text) = some lines)
    (hlines : ∀ l ∈ lines, cu '\n' ∉ l) :
    envMap (join lines (js "\n")) = Assoc.setAll (envMap text) s.entries := by
  rw [envMap, parseEnvLines_joined hlines, ofList_run (fun e he => s.writable he) h,
    filterMap_rowsOf, envMap]

/-! ## The other lines -/

/-- The lines of `before` that define none of the names are still there in order: blank
ones at the end may be gone, one empty line may have been put behind them. -/
def Kept (s : Setting) (before after : List JsString) : Prop :=
  ∃ kept gone room, before.filter s.other = kept ++ gone ∧ (∀ l ∈ gone, trim l = []) ∧
    after.filter s.other = kept ++ room ∧ (room = [] ∨ room = [[]])

theorem roomAtEnd_blank (lines : List JsString) :
    ∃ kept gone room, lines = kept ++ gone ∧ (∀ l ∈ gone, trim l = []) ∧
      roomAtEnd lines = kept ++ room ∧ (room = [] ∨ room = [[]]) := by
  refine ⟨lines.rdropWhile fun l => trim l = [], lines.rtakeWhile fun l => trim l = [],
    (roomAtEnd lines).drop (lines.rdropWhile fun l => trim l = []).length,
    rdropWhile_append_rtakeWhile.symm, fun l hl => ?_, ?_, ?_⟩
  · simpa using mem_rtakeWhile_imp hl
  · rw [roomAtEnd]
    split
    · split <;> simp
    · simp
  · rw [roomAtEnd]
    split
    · split <;> simp
    · simp

theorem Setting.other_blank (s : Setting) {l : JsString} (h : trim l = []) : s.other l = true := by
  rw [Setting.other, List.all_eq_true]
  intro key _
  rw [definesKey, parseLine_blank h]
  rfl

theorem kept_around (text : JsString) (s : Setting) : Kept s (rowsOf text) (around text s) := by
  have hdrop : ∀ entries : List (JsString × JsString), (∀ e ∈ entries, e ∈ s.entries) →
      ∀ lines, (thinned (entries.map Prod.fst) lines).filter s.other = lines.filter s.other := by
    intro entries hsub lines
    refine filter_thinned (fun key hkey l hl => s.other_eq_false ?_ hl) lines
    obtain ⟨e, he, rfl⟩ := mem_map.mp hkey
    exact mem_map_of_mem (hsub e he)
  have hearly := hdrop (s.entries.takeWhile fun e => known text e.1)
    (fun e he => (takeWhile_sublist _).subset he) (rowsOf text)
  have hlate := hdrop (s.entries.dropWhile fun e => known text e.1)
    fun e he => (dropWhile_sublist _).subset he
  rw [around]
  split
  · exact ⟨_, [], [], (append_nil _).symm, by simp, by rw [hearly, append_nil], .inl rfl⟩
  · obtain ⟨kept, gone, room, hlines, hgone, hroom, hblank⟩ :=
      roomAtEnd_blank (thinned ((s.entries.takeWhile fun e => known text e.1).map Prod.fst)
        (rowsOf text))
    refine ⟨kept.filter s.other, gone.filter s.other, room, ?_, ?_, ?_, hblank⟩
    · rw [← hearly, hlines, filter_append]
    · exact fun l hl => hgone l (mem_filter.mp hl).1
    · rw [hlate, hroom, filter_append]
      rcases hblank with rfl | rfl
      · rfl
      · rw [filter_cons_of_pos (s.other_blank rfl)]
        rfl

end Aoox.TextEdits
