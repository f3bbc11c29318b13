import Aoox.StoredText

/-! # Setting values key by key

`setValues` edits the lines of a text.  A line counts through the variable it
defines, and of two lines that define the same name the later one counts, so the
value of a name in a list of lines is `valueOf`.  One entry changes the value of
its own name and of no other (`setValue_spec`).
-/
namespace Aoox

open JsString List

/-! ## Entries -/

/-- A name and a value as they stand in a line of a text. -/
structure Entry (key value : JsString) : Prop where
  key_ne : key ≠ []
  no_eq : cu '=' ∉ key
  trimmed : trim key = key
  no_hash : key.head? ≠ some (cu '#')
  value_end : ∀ c, value.getLast? = some c → isSpace c = false
  key_line : cu '\n' ∉ key
  value_line : cu '\n' ∉ value

variable {line : JsString}

variable {text : JsString}

theorem not_mem_of_mem_splitLines (h : line ∈ splitLines text) : cu '\n' ∉ line := by
  induction text using lines_induction with
  | last p hp =>
    rw [splitLines_of_not_mem hp, mem_singleton] at h
    exact h ▸ hp
  | line p rest hp ih =>
    rw [splitLines_append hp, mem_cons] at h
    rcases h with rfl | h
    · exact fun hm => hp (dropCr_subset p hm)
    · exact ih h

theorem head?_trim_cons {x : CodeUnit} {xs : JsString} (hx : isSpace x = false) :
    (trim (x :: xs)).head? = some x := by
  have hstart : trimStart (x :: xs) = x :: xs := dropWhile_cons_of_neg (by simp [hx])
  have hne : trim (x :: xs) ≠ [] := by
    intro he
    have hspace := trim_eq_nil.mp he x mem_cons_self
    rw [hx] at hspace
    cases hspace
  have hpre : trim (x :: xs) <+: x :: xs := by
    rw [trim, hstart]
    exact rdropWhile_prefix _ _
  obtain ⟨y, ys, hy⟩ := exists_cons_of_ne_nil hne
  rw [hy, cons_prefix_cons] at hpre
  rw [hy, hpre.1]
  rfl

variable {key value : JsString}

theorem entry_of_parseLine {raw : JsString} (hline : cu '\n' ∉ raw)
    (h : parseLine raw = some (key, value)) : Entry key value := by
  have htrim : trim (trim raw) = trim raw := trim_trim raw
  have hnl : cu '\n' ∉ trim raw := fun hm => hline ((isInfix_trim raw).subset hm)
  have hhead := head?_trim raw
  have hlast := getLast?_trim raw
  rw [parseLine] at h
  split at h
  · cases h
  rename_i hskip
  simp only [isSkipped, Bool.or_eq_true, decide_eq_true_eq, not_or, startsWith_unit] at hskip
  by_cases heq : cu '=' ∈ trim raw
  · obtain ⟨a, b, hab, ha⟩ := eq_append_cons_of_mem heq
    rw [hab] at h hhead hlast hnl hskip
    rw [assignment_append ha] at h
    by_cases hnil : a = []
    · simp [hnil] at h
    rw [if_neg hnil] at h
    obtain ⟨rfl, rfl⟩ := Prod.mk.inj (Option.some.inj h)
    obtain ⟨x, xs, rfl⟩ := exists_cons_of_ne_nil hnil
    -- the name starts with the first unit of the line
    have hkey : (trim (x :: xs)).head? = some x := head?_trim_cons (hhead x rfl)
    constructor
    · intro he
      rw [he] at hkey
      cases hkey
    · exact fun hm => ha ((isInfix_trim _).subset hm)
    · exact trim_trim _
    · rw [hkey]
      intro he
      obtain rfl := Option.some.inj he
      exact hskip.2 (by simp)
    · intro c hc
      exact hlast c (by rw [getLast?_append, getLast?_cons, hc]; rfl)
    · exact fun hm => hnl (mem_append_left _ ((isInfix_trim _).subset hm))
    · exact fun hm => hnl (mem_append_right _ (mem_cons_of_mem _ hm))
  · rw [assignment_eq_none heq] at h
    cases h

theorem entry_of_mem (h : (key, value) ∈ parseEnvLines text) : Entry key value := by
  obtain ⟨raw, hraw, hparse⟩ := mem_filterMap.mp h
  exact entry_of_parseLine (not_mem_of_mem_splitLines hraw) hparse

theorem parseLine_lineOf (h : Entry key value) :
    parseLine (lineOf key value) = some (key, value) := by
  obtain ⟨x, xs, rfl⟩ := exists_cons_of_ne_nil h.key_ne
  have hx : isSpace x = false := head?_trim (x :: xs) x (by rw [h.trimmed]; rfl)
  have htrim : trim (lineOf (x :: xs) value) = lineOf (x :: xs) value := by
    refine trim_eq_self (fun c hc => ?_) (fun c hc => ?_)
    · obtain rfl : x = c := by simpa [lineOf] using hc
      exact hx
    · rw [lineOf, getLast?_append, getLast?_cons] at hc
      cases hv : value.getLast? with
      | some d =>
        rw [hv] at hc
        obtain rfl : d = c := by simpa using hc
        exact h.value_end d hv
      | none =>
        rw [hv] at hc
        obtain rfl : cu '=' = c := by simpa using hc
        decide
  have hskip : isSkipped (lineOf (x :: xs) value) = false := by
    have hhash : x ≠ cu '#' := fun he => h.no_hash (by rw [he]; rfl)
    simp [isSkipped, startsWith_unit, lineOf, hhash]
  rw [parseLine, htrim, hskip, lineOf, assignment_append h.no_eq, if_neg h.key_ne, h.trimmed]
  rfl

/-! ## The value of a name in a list of lines -/

/-- The value of the last line that defines `key`. -/
def valueOf (lines : List JsString) (key : JsString) : Option JsString :=
  Assoc.get (lines.filterMap parseLine).reverse key

theorem valueOf_append (a b : List JsString) (key : JsString) :
    valueOf (a ++ b) key = (valueOf b key).or (valueOf a key) := by
  rw [valueOf, filterMap_append, reverse_append, Assoc.get_append]
  rfl

theorem valueOf_singleton (line key : JsString) :
    valueOf [line] key = (parseLine line).bind fun e => if e.1 = key then some e.2 else none := by
  rw [valueOf]
  cases h : parseLine line with
  | none => simp [h]
  | some e => simp [h, Assoc.get]

theorem valueOf_cons (line : JsString) (lines : List JsString) (key : JsString) :
    valueOf (line :: lines) key = (valueOf lines key).or (valueOf [line] key) :=
  valueOf_append [line] lines key

variable {lines : List JsString}

/-- Lines that do not define a name give it no value. -/
theorem valueOf_eq_none (h : ∀ l ∈ lines, definesKey l key = false) : valueOf lines key = none := by
  induction lines with
  | nil => rfl
  | cons l ls ih =>
    rw [valueOf_cons, ih fun x hx => h x (mem_cons_of_mem _ hx), valueOf_singleton]
    have hl := h l mem_cons_self
    rw [definesKey] at hl
    cases hp : parseLine l with
    | none => rfl
    | some e =>
      rw [hp] at hl
      simpa using hl

/-- Lines without a variable do not count. -/
theorem valueOf_append_comments (a : List JsString) {b : List JsString}
    (h : ∀ l ∈ b, parseLine l = none) (key : JsString) : valueOf (a ++ b) key = valueOf a key := by
  rw [valueOf_append, valueOf_eq_none fun l hl => by rw [definesKey, h l hl], Option.none_or]

theorem valueOf_lineOf (h : Entry key value) (other : JsString) :
    valueOf [lineOf key value] other = if key = other then some value else none := by
  rw [valueOf_singleton, parseLine_lineOf h]
  rfl

/-- **The variables of a text are those of its lines**, also of lines that were
put together again. -/
theorem parseEnvLines_join (hne : lines ≠ []) (h : ∀ l ∈ lines, cu '\n' ∉ l) :
    parseEnvLines (join lines (js "\n")) = lines.filterMap parseLine := by
  induction lines with
  | nil => exact absurd rfl hne
  | cons l ls ih =>
    have hl := h l mem_cons_self
    by_cases hls : ls = []
    · subst hls
      simp [parseEnvLines, join, splitLines_of_not_mem hl]
    · have hparse : parseLine (dropCr l) = parseLine l := by
        rw [parseLine, parseLine, trim_dropCr]
      have hjoin : join (l :: ls) (js "\n") = l ++ cu '\n' :: join ls (js "\n") := by
        rw [join_cons hls, append_assoc]
        rfl
      rw [parseEnvLines, hjoin, splitLines_append hl, filterMap_cons, hparse,
        filterMap_cons, ← ih hls fun x hx => h x (mem_cons_of_mem _ hx), parseEnvLines]

/-! ## One entry -/

theorem parseLine_blank (h : trim line = []) : parseLine line = none := by
  simp [parseLine, isSkipped, h]

theorem parseLine_comment : parseLine (cu '#' :: line) = none := by
  have hhash : isSkipped (trim (cu '#' :: line)) = true := by
    have hstart : trimStart (cu '#' :: line) = cu '#' :: line := dropWhile_cons_of_neg (by decide)
    by_cases hnil : trim (cu '#' :: line) = []
    · simp [isSkipped, hnil]
    · obtain ⟨y, ys, hy⟩ := exists_cons_of_ne_nil hnil
      have hpre : trim (cu '#' :: line) <+: cu '#' :: line := by
        rw [trim, hstart]
        exact rdropWhile_prefix _ _
      rw [hy, cons_prefix_cons] at hpre
      simp [isSkipped, startsWith_unit, hy, hpre.1]
  rw [parseLine, hhash]
  rfl

variable {notes : VariableNotes}

variable {ns : List JsString}

theorem mem_noteLinesFor (h : noteLinesFor notes key = some ns) {l : JsString}
    (hl : l ∈ ns) : parseLine l = none ∧ cu '\n' ∉ l := by
  rw [noteLinesFor] at h
  split at h
  · rename_i note _
    obtain rfl := Option.some.inj h
    split at hl
    · cases hl
    · obtain ⟨piece, hpiece, rfl⟩ := mem_map.mp hl
      have hnl : cu '\n' ∉ piece := not_mem_of_mem_splitGo hpiece
      split
      · exact ⟨parseLine_comment, by decide⟩
      · refine ⟨parseLine_comment, fun hm => ?_⟩
        rcases mem_append.mp hm with hm | hm
        · exact absurd hm (by decide)
        · exact hnl hm
  · split at h
    · cases h
    · obtain rfl := Option.some.inj h
      cases hl

theorem roomAtEnd_eq (lines : List JsString) :
    ∃ kept gone added, lines = kept ++ gone ∧ roomAtEnd lines = kept ++ added ∧
      (∀ l ∈ gone, parseLine l = none) ∧ ∀ l ∈ added, l = [] := by
  refine ⟨lines.rdropWhile fun l => trim l = [], lines.rtakeWhile fun l => trim l = [],
    (roomAtEnd lines).drop (lines.rdropWhile fun l => trim l = []).length,
    rdropWhile_append_rtakeWhile.symm, ?_, fun l hl => ?_, fun l hl => ?_⟩
  · rw [roomAtEnd]
    split
    · split <;> simp
    · simp
  · exact parseLine_blank (by simpa using mem_rtakeWhile_imp hl)
  · rw [roomAtEnd] at hl
    split at hl
    · split at hl <;> simp_all
    · simp at hl

theorem definesKey_iff :
    definesKey line key = true ↔ ∃ value, parseLine line = some (key, value) := by
  rw [definesKey]
  cases h : parseLine line with
  | none => simp
  | some e => obtain ⟨k, v⟩ := e; simp

/-- Dropping the definitions of one name leaves every other name alone. -/
theorem valueOf_filter {other : JsString} (hne : other ≠ key) (lines : List JsString) :
    valueOf (lines.filter fun l => !definesKey l key) other = valueOf lines other := by
  induction lines with
  | nil => rfl
  | cons l ls ih =>
    by_cases hl : definesKey l key = true
    · obtain ⟨v, hv⟩ := definesKey_iff.mp hl
      rw [filter_cons_of_neg (by simp [hl]), ih, valueOf_cons, valueOf_singleton, hv]
      simp [Ne.symm hne]
    · rw [filter_cons_of_pos (by simpa using hl), valueOf_cons, ih, ← valueOf_cons]

theorem Entry.newline_notMem (h : Entry key value) : cu '\n' ∉ lineOf key value := by
  intro hm
  rcases mem_append.mp hm with hm | hm
  · exact h.key_line hm
  · rcases mem_cons.mp hm with hm | hm
    · exact absurd hm (by decide)
    · exact h.value_line hm

/-- The second lines give the key its value and every other key what the first gave it. -/
def SetIn (lines lines' : List JsString) (key value : JsString) : Prop :=
  lines' ≠ [] ∧ (∀ l ∈ lines', cu '\n' ∉ l) ∧
    ∀ other, valueOf lines' other = if key = other then some value else valueOf lines other

/-- A new key goes to the end, below its notes. -/
theorem setIn_append (hentry : Entry key value) (hlines : ∀ l ∈ lines, cu '\n' ∉ l)
    (hns : noteLinesFor notes key = some ns) :
    SetIn lines (roomAtEnd lines ++ ns ++ [lineOf key value]) key value := by
  obtain ⟨kept, gone, added, hlines', hroom, hgone, hadded⟩ := roomAtEnd_eq lines
  have hadded' : ∀ l ∈ added ++ ns, parseLine l = none := by
    intro l hl
    rcases mem_append.mp hl with hl | hl
    · rw [hadded l hl]
      rfl
    · exact (mem_noteLinesFor hns hl).1
  refine ⟨by simp, fun l hl => ?_, fun other => ?_⟩
  · rw [hroom] at hl
    simp only [append_assoc, mem_append, mem_singleton] at hl
    rcases hl with hl | hl | hl | hl
    · exact hlines l (by rw [hlines']; exact mem_append_left _ hl)
    · rw [hadded l hl]
      simp
    · exact (mem_noteLinesFor hns hl).2
    · exact hl ▸ hentry.newline_notMem
  · rw [hroom, valueOf_append, valueOf_lineOf hentry, append_assoc,
      valueOf_append_comments kept hadded', hlines', valueOf_append_comments kept hgone]
    split <;> rfl

/-- A key that is there keeps its place; further definitions below it are dropped. -/
theorem setIn_replace {i : Nat} (hentry : Entry key value) (hlines : ∀ l ∈ lines, cu '\n' ∉ l)
    (hfind : lines.findIdx? (definesKey · key) = some i) :
    SetIn lines (lines.take i ++ lineOf key value ::
      (lines.drop (i + 1)).filter fun l => !definesKey l key) key value := by
  obtain ⟨hi, hdef, hbefore⟩ := findIdx?_eq_some_iff_getElem.mp hfind
  have hsplit : lines = lines.take i ++ lines[i] :: lines.drop (i + 1) := by
    rw [cons_getElem_drop_succ, take_append_drop]
  refine ⟨by simp, fun l hl => ?_, fun other => ?_⟩
  · rcases mem_append.mp hl with hl | hl
    · exact hlines l (mem_of_mem_take hl)
    · rcases mem_cons.mp hl with rfl | hl
      · exact hentry.newline_notMem
      · exact hlines l (mem_of_mem_drop (mem_filter.mp hl).1)
  · rw [valueOf_append, valueOf_cons, valueOf_lineOf hentry]
    by_cases hk : key = other
    · -- the definitions below the line were dropped
      subst hk
      rw [valueOf_eq_none fun l hl => by simpa using (mem_filter.mp hl).2]
      simp
    · obtain ⟨v, hv⟩ := definesKey_iff.mp hdef
      rw [valueOf_filter (Ne.symm hk), if_neg hk]
      conv_rhs => rw [hsplit, valueOf_append, valueOf_cons, valueOf_singleton, hv]
      simp [hk]

variable {lines' : List JsString}

/-- **One entry sets the value of its name and of no other.** -/
theorem setValue_spec (hentry : Entry key value) (hlines : ∀ l ∈ lines, cu '\n' ∉ l)
    (h : setValue notes lines (key, value) = some lines') : SetIn lines lines' key value := by
  rw [setValue] at h
  split at h
  · obtain ⟨ns, hns, rfl⟩ := Option.map_eq_some_iff.mp h
    exact setIn_append hentry hlines hns
  · rename_i i hfind
    obtain rfl := Option.some.inj h
    exact setIn_replace hentry hlines hfind

/-! ## All entries -/

variable {entries : List (JsString × JsString)}

theorem foldlM_setValue (hentries : ∀ e ∈ entries, Entry e.1 e.2)
    (hnodup : (entries.map Prod.fst).Nodup) (hlines : ∀ l ∈ lines, cu '\n' ∉ l)
    (h : entries.foldlM (setValue notes) lines = some lines') :
    (entries ≠ [] → lines' ≠ []) ∧ (∀ l ∈ lines', cu '\n' ∉ l) ∧
      (∀ e ∈ entries, valueOf lines' e.1 = some e.2) ∧
      ∀ other, other ∉ entries.map Prod.fst → valueOf lines' other = valueOf lines other := by
  induction entries generalizing lines with
  | nil =>
    obtain rfl : lines = lines' := by simpa using h
    exact ⟨fun he => absurd rfl he, hlines, by simp, fun _ _ => rfl⟩
  | cons e entries ih =>
    obtain ⟨key, value⟩ := e
    rw [foldlM_cons] at h
    obtain ⟨mid, hmid, h⟩ := Option.bind_eq_some_iff.mp h
    obtain ⟨hne, hmidLines, hvalue⟩ :=
      setValue_spec (hentries (key, value) mem_cons_self) hlines hmid
    rw [map_cons, nodup_cons] at hnodup
    obtain ⟨hne', hlines', hset, hother⟩ :=
      ih (fun e he => hentries e (mem_cons_of_mem _ he)) hnodup.2 hmidLines h
    refine ⟨fun _ => ?_, hlines', fun e he => ?_, fun other hout => ?_⟩
    · by_cases hnil : entries = []
      · subst hnil
        obtain rfl : mid = lines' := by simpa using h
        exact hne
      · exact hne' hnil
    · rcases mem_cons.mp he with rfl | he
      · rw [hother key hnodup.1, hvalue, if_pos rfl]
      · exact hset e he
    · rw [map_cons, mem_cons, not_or] at hout
      rw [hother other hout.2, hvalue, if_neg (Ne.symm hout.1)]

/-- **`setValues` gives every entry its value.** -/
theorem get_envMap_setValues {text' : JsString} (hentries : ∀ e ∈ entries, Entry e.1 e.2)
    (hnodup : (entries.map Prod.fst).Nodup) (h : setValues text entries notes = some text')
    {e : JsString × JsString} (he : e ∈ entries) : Assoc.get (envMap text') e.1 = some e.2 := by
  obtain ⟨lines', hfold, rfl⟩ := Option.map_eq_some_iff.mp h
  have hlines : ∀ l ∈ (if text = [] then [] else splitLines text), cu '\n' ∉ l := by
    intro l hl
    split at hl
    · cases hl
    · exact not_mem_of_mem_splitLines hl
  obtain ⟨hne, hlines', hset, -⟩ := foldlM_setValue hentries hnodup hlines hfold
  rw [envMap, Assoc.get_ofList, parseEnvLines_join (hne (ne_nil_of_mem he)) hlines']
  exact hset e he

end Aoox
