import Aoox.StoredText

/-! # Result sets as text

A table leaves the API as CSV (`toCsv`), and the answers of the engines come in as
text: CSV from psql, tab-separated lines from mysql.  A field that is quoted starts
and ends with a quote and holds quotes in pairs only, so the scanner of
`parsePsqlCsv` is back outside quotes exactly at its end (`scan_csvEscape`).

The lines of mysql hold no tab, newline, backslash or NUL of their own, and
`parseMysqlBatch` undoes the escapes after cutting at tabs and newlines.  It first
takes the last line ending away, and there it takes too much: a carriage return in
front of it belongs to the last value.
-/
open List
namespace Aoox.ResultSets

open JsString

/-- Columns and rows; `none` is NULL. -/
structure ResultSet where
  columns : List JsString
  rows : List (List (Option JsString))
deriving DecidableEq, Repr

/-! ## Writing CSV -/

/-- `CSV_NEEDS_QUOTING`. -/
def needsQuoting (value : JsString) : Bool :=
  value.any fun c => c == cu '"' || c == cu '\r' || c == cu '\n' || c == cu ','

def quote : JsString := [cu '"']

def csvEscape : Option JsString → JsString
  | none => []
  | some value =>
    if !needsQuoting value then value
    else quote ++ join (split value quote) (js "\"\"") ++ quote

def CRLF : JsString := js "\r\n"

/-- The lines of a result set, its header first. -/
def csvLines (columns : List JsString) (rows : List (List (Option JsString))) : List JsString :=
  join (columns.map fun c => csvEscape (some c)) (js ",") ::
    rows.map fun row => join (row.map csvEscape) (js ",")

/-- Renders a result set as CSV text. -/
def toCsv (columns : List JsString) (rows : List (List (Option JsString))) : JsString :=
  join (csvLines columns rows) CRLF ++ CRLF

/-! ## Reading CSV -/

def PSQL_NULL : JsString := js "\\N"

structure CsvScan where
  rows : List (List (Option JsString))
  row : List (Option JsString)
  field : JsString
  (quoted inQuotes : Bool)

namespace CsvScan

def push (s : CsvScan) : CsvScan :=
  { s with
    row := s.row ++ [if !s.quoted && s.field = PSQL_NULL then none else some s.field]
    field := []
    quoted := false }

def endRow (s : CsvScan) : CsvScan :=
  { s.push with rows := s.push.rows ++ [s.push.row], row := [] }

def step (s : CsvScan) (c : CodeUnit) : CsvScan :=
  if s.inQuotes then
    if c = cu '"' then { s with inQuotes := false } else { s with field := s.field ++ [c] }
  else if c = cu '"' then { s with inQuotes := true, quoted := true }
  else if c = cu ',' then s.push
  else if c = cu '\n' ∨ c = cu '\r' then s.endRow
  else { s with field := s.field ++ [c] }

/-- Two quotes inside quotes are one, and `\r\n` outside is one line ending. -/
def scan (s : CsvScan) : JsString → CsvScan
  | [] => s
  | [c] => s.step c
  | c :: d :: cs =>
    if s.inQuotes ∧ c = cu '"' ∧ d = cu '"' then
      scan { s with field := s.field ++ [cu '"'] } cs
    else if ¬ s.inQuotes ∧ c = cu '\r' ∧ d = cu '\n' then scan s.endRow cs
    else scan (s.step c) (d :: cs)

end CsvScan

/-- `psql --csv -P null='\N'`: an unquoted `\N` is NULL. -/
def parsePsqlCsv (text : JsString) : ResultSet :=
  let s := CsvScan.scan ⟨[], [], [], false, false⟩ text
  let rows := if s.field ≠ [] ∨ s.quoted ∨ s.row ≠ [] then s.endRow.rows else s.rows
  ⟨(rows.head?.getD []).map (·.getD []), rows.tail⟩

/-! ## A field -/

/-- A scan between two fields, with the fields of the row so far. -/
def between (rows : List (List (Option JsString))) (row : List (Option JsString)) : CsvScan :=
  ⟨rows, row, [], false, false⟩

/-- The text behind a field: a comma or a line ending. -/
def EndsField (rest : JsString) : Prop :=
  ∃ c cs, rest = c :: cs ∧ (c = cu ',' ∨ c = cu '\r')

variable {s : CsvScan}

theorem scan_plain {value : JsString} (h : needsQuoting value = false) (hs : s.inQuotes = false)
    (rest : JsString) :
    s.scan (value ++ rest) = { s with field := s.field ++ value }.scan rest := by
  induction value generalizing s with
  | nil => simp
  | cons c cs ih =>
    simp only [needsQuoting, List.any_cons, Bool.or_eq_false_iff, beq_eq_false_iff_ne] at h
    obtain ⟨⟨⟨⟨hquote, hcr⟩, hnl⟩, hcomma⟩, hcs⟩ := h
    have hstep : s.step c = { s with field := s.field ++ [c] } := by
      rw [CsvScan.step, hs]
      simp [hquote, hcr, hnl, hcomma]
    have hscan : s.scan (c :: (cs ++ rest)) = (s.step c).scan (cs ++ rest) := by
      cases hcs' : cs ++ rest with
      | nil => rfl
      | cons d ds =>
        rw [CsvScan.scan, if_neg (fun hq => hquote hq.2.1), if_neg (fun hr => hcr hr.2.1)]
    rw [List.cons_append, hscan, hstep, ih hcs (s := { s with field := s.field ++ [c] }) hs]
    simp

theorem scan_doubled (value : JsString) (hs : s.inQuotes = true) {rest : JsString}
    (hrest : rest.head? ≠ some (cu '"')) :
    s.scan (join (split value quote) (js "\"\"") ++ cu '"' :: rest) =
      { s with field := s.field ++ value, inQuotes := false }.scan rest := by
  have hclose : ∀ t : CsvScan, t.inQuotes = true →
      t.scan (cu '"' :: rest) = { t with inQuotes := false }.scan rest := by
    intro t ht
    have hstep : t.step (cu '"') = { t with inQuotes := false } := by simp [CsvScan.step, ht]
    cases rest with
    | nil => exact hstep
    | cons d ds =>
      have hd : d ≠ cu '"' := by simpa using hrest
      rw [CsvScan.scan, if_neg (fun h => hd h.2.2), if_neg (fun h => h.1 ht), hstep]
  have hjs : js "\"\"" = [cu '"', cu '"'] := rfl
  rw [join_split]
  induction value generalizing s with
  | nil =>
    have hnil : Replacing.replaceSublist quote (js "\"\"") [] = [] := rfl
    rw [hnil, nil_append, hclose s hs, append_nil]
  | cons c cs ih =>
    by_cases hc : c = cu '"'
    · subst hc
      have hhit : Replacing.replaceSublist quote (js "\"\"") (cu '"' :: cs) =
          cu '"' :: cu '"' :: Replacing.replaceSublist quote (js "\"\"") cs :=
        Replacing.replaceSublist_hit (by decide) _ cs
      rw [hhit, cons_append, cons_append, CsvScan.scan, if_pos ⟨hs, rfl, rfl⟩,
        ih (s := { s with field := s.field ++ [cu '"'] }) hs]
      simp
    · have hmiss : Replacing.replaceSublist quote (js "\"\"") (c :: cs) =
          c :: Replacing.replaceSublist quote (js "\"\"") cs := by
        refine Replacing.replaceSublist_miss _ ?_
        rintro ⟨t, ht⟩
        exact hc (List.cons.inj ht).1.symm
      have hstep : s.step c = { s with field := s.field ++ [c] } := by
        simp [CsvScan.step, hs, hc]
      have hscan : ∀ tail : JsString, tail ≠ [] → s.scan (c :: tail) = (s.step c).scan tail := by
        intro tail htail
        obtain ⟨d, ds, rfl⟩ := exists_cons_of_ne_nil htail
        rw [CsvScan.scan, if_neg (fun h => hc h.2.1), if_neg (fun h => h.1 hs)]
      rw [hmiss, cons_append, hscan _ (by simp), hstep,
        ih (s := { s with field := s.field ++ [c] }) hs]
      simp

variable {value : Option JsString}

/-- **A field is read back as it was written**, NULL as the empty string. -/
theorem scan_csvEscape (hnull : value ≠ some PSQL_NULL) {rest : JsString} (hrest : EndsField rest)
    (rows : List (List (Option JsString))) (row : List (Option JsString)) :
    ∃ s : CsvScan, (between rows row).scan (csvEscape value ++ rest) = s.scan rest ∧
      s.push = between rows (row ++ [some (value.getD [])]) ∧ s.inQuotes = false := by
  obtain ⟨c, cs, rfl, hc⟩ := hrest
  cases value with
  | none =>
    refine ⟨between rows row, rfl, ?_, rfl⟩
    simp [CsvScan.push, between, PSQL_NULL, js, utf16]
  | some value =>
    have hvalue : value ≠ PSQL_NULL := fun he => hnull (by rw [he])
    rw [csvEscape]
    cases hq : needsQuoting value with
    | false =>
      refine ⟨_, scan_plain hq rfl _, ?_, rfl⟩
      simp [CsvScan.push, between, hvalue]
    | true =>
      have hquote : (c :: cs).head? ≠ some (cu '"') := by
        rw [List.head?_cons]
        rcases hc with rfl | rfl <;> decide
      have hopen : (between rows row).scan (quote ++ join (split value quote) (js "\"\"") ++
          quote ++ c :: cs) = { between rows row with inQuotes := true, quoted := true }.scan
            (join (split value quote) (js "\"\"") ++ cu '"' :: c :: cs) := by
        have hstep : (between rows row).step (cu '"') =
            { between rows row with inQuotes := true, quoted := true } := rfl
        rw [quote, append_assoc, append_assoc, singleton_append,
          singleton_append]
        cases htail : join (split value [cu '"']) (js "\"\"") ++ cu '"' :: c :: cs with
        | nil => exact hstep
        | cons d ds =>
          rw [CsvScan.scan, if_neg (fun h => by cases h.1),
            if_neg (fun h => absurd h.2.1 (by decide)),
            hstep]
      refine ⟨_, hopen.trans (scan_doubled value rfl hquote), ?_, rfl⟩
      simp [CsvScan.push, between]

/-! ## Rows -/

/-- A comma ends a field, a line ending a field and its row. -/
theorem scan_comma (hs : s.inQuotes = false) (rest : JsString) :
    s.scan (cu ',' :: rest) = s.push.scan rest := by
  have hstep : s.step (cu ',') = s.push := by
    rw [CsvScan.step, hs]
    rfl
  cases rest with
  | nil => exact hstep
  | cons d ds =>
    rw [CsvScan.scan, if_neg (fun h => absurd h.2.1 (by decide)),
      if_neg (fun h => absurd h.2.1 (by decide)), hstep]

theorem scan_crlf (hs : s.inQuotes = false) (rest : JsString) :
    s.scan (CRLF ++ rest) = s.endRow.scan rest := by
  have hcrlf : CRLF ++ rest = cu '\r' :: cu '\n' :: rest := rfl
  rw [hcrlf, CsvScan.scan, if_neg (fun h => absurd h.2.1 (by decide)),
    if_pos ⟨by simp [hs], rfl, rfl⟩]

/-- NULLs become empty strings. -/
def withoutNull (row : List (Option JsString)) : List (Option JsString) :=
  row.map fun value => some (value.getD [])

variable {row : List (Option JsString)}

theorem scan_row (hne : row ≠ []) (hnull : ∀ value ∈ row, value ≠ some PSQL_NULL)
    (rows : List (List (Option JsString))) (before : List (Option JsString)) (rest : JsString) :
    (between rows before).scan (join (row.map csvEscape) (js ",") ++ (CRLF ++ rest)) =
      (between (rows ++ [before ++ withoutNull row]) []).scan rest := by
  have hend : ∀ rest : JsString, EndsField (CRLF ++ rest) := fun rest =>
    ⟨cu '\r', cu '\n' :: rest, rfl, .inr rfl⟩
  induction row generalizing before with
  | nil => exact absurd rfl hne
  | cons value row ih =>
    have hvalue := hnull value List.mem_cons_self
    by_cases hrow : row = []
    · subst hrow
      obtain ⟨s, hscan, hpush, hs⟩ := scan_csvEscape hvalue (hend rest) rows before
      have hjoin : join ([value].map csvEscape) (js ",") = csvEscape value := by simp [join]
      rw [hjoin, hscan, scan_crlf hs, CsvScan.endRow, hpush]
      rfl
    · obtain ⟨s, hscan, hpush, hs⟩ := @scan_csvEscape _ hvalue
        (cu ',' :: (join (row.map csvEscape) (js ",") ++ (CRLF ++ rest)))
        ⟨_, _, rfl, .inl rfl⟩ rows before
      have hjoin : join ((value :: row).map csvEscape) (js ",") ++ (CRLF ++ rest) =
          csvEscape value ++ cu ',' :: (join (row.map csvEscape) (js ",") ++ (CRLF ++ rest)) := by
        rw [List.map_cons, join_cons (by simpa using hrow), List.append_assoc, List.append_assoc]
        rfl
      rw [hjoin, hscan, scan_comma hs, hpush,
        ih hrow (fun x hx => hnull x (List.mem_cons_of_mem _ hx)), List.append_assoc]
      rfl

theorem scan_rows {written : List (List (Option JsString))} (hne : ∀ row ∈ written, row ≠ [])
    (hnull : ∀ row ∈ written, ∀ value ∈ row, value ≠ some PSQL_NULL)
    (rows : List (List (Option JsString))) :
    (between rows []).scan
        ((written.map fun row => join (row.map csvEscape) (js ",") ++ CRLF).flatten) =
      between (rows ++ written.map withoutNull) [] := by
  induction written generalizing rows with
  | nil => simp [CsvScan.scan]
  | cons row written ih =>
    rw [List.map_cons, List.flatten_cons, List.append_assoc,
      scan_row (hne row List.mem_cons_self) (hnull row List.mem_cons_self),
      ih (fun x hx => hne x (List.mem_cons_of_mem _ hx))
        fun x hx => hnull x (List.mem_cons_of_mem _ hx)]
    simp

/-- Every line of the text is followed by a line ending. -/
theorem toCsv_eq (columns : List JsString) (rows : List (List (Option JsString))) :
    toCsv columns rows =
      ((columns.map some :: rows).map fun row => join (row.map csvEscape) (js ",") ++ CRLF).flatten := by
  have hlines : ∀ (l : JsString) (ls : List JsString),
      join (l :: ls) CRLF ++ CRLF = ((l :: ls).map fun x => x ++ CRLF).flatten := by
    intro l ls
    induction ls generalizing l with
    | nil => simp [join]
    | cons x xs ih =>
      rw [join_cons (by simp), List.append_assoc, ih x]
      simp
  rw [toCsv, csvLines, hlines, List.map_cons, List.map_cons, List.map_map, List.map_map]
  rfl

/-- **What `toCsv` writes, `parsePsqlCsv` reads.** -/
theorem parsePsqlCsv_toCsv {columns : List JsString} {rows : List (List (Option JsString))}
    (hcolumns : columns ≠ []) (hrows : ∀ row ∈ rows, row.length = columns.length)
    (hnames : PSQL_NULL ∉ columns) (hvalues : ∀ row ∈ rows, some PSQL_NULL ∉ row) :
    parsePsqlCsv (toCsv columns rows) = ⟨columns, rows.map withoutNull⟩ := by
  have hne : ∀ row ∈ columns.map some :: rows, row ≠ [] := by
    intro row hrow
    rcases List.mem_cons.mp hrow with rfl | hrow
    · simpa using hcolumns
    · rintro rfl
      exact hcolumns (List.length_eq_zero_iff.mp (hrows [] hrow).symm)
  have hnull : ∀ row ∈ columns.map some :: rows, ∀ value ∈ row, value ≠ some PSQL_NULL := by
    intro row hrow value hvalue
    rintro rfl
    rcases List.mem_cons.mp hrow with rfl | hrow
    · exact hnames (by simpa using hvalue)
    · exact hvalues row hrow hvalue
  have hscan : CsvScan.scan ⟨[], [], [], false, false⟩ (toCsv columns rows) =
      between ((columns.map some :: rows).map withoutNull) [] := by
    rw [toCsv_eq]
    exact scan_rows hne hnull []
  have hheader : (withoutNull (columns.map some)).map (·.getD []) = columns := by
    simp [withoutNull, Function.comp_def]
  rw [parsePsqlCsv, hscan]
  simp [between, hheader]

theorem parsePsqlCsv_toCsv_quotes :
    parsePsqlCsv (toCsv [js "a"] [[some (js "x\"\r")], [none]]) =
      ⟨[js "a"], [[some (js "x\"\r")], [some []]]⟩ :=
  parsePsqlCsv_toCsv (by decide) (by decide) (by decide) (by decide)

/-! ## The output of mysql -/

/-- `\n`, `\r`, U+2028 and U+2029: what `.` does not match. -/
def isLineTerminator (c : CodeUnit) : Bool := c == 10 || c == 13 || c == 0x2028 || c == 0x2029

def unescapeUnit (c : CodeUnit) : CodeUnit :=
  if c = cu 't' then cu '\t' else if c = cu 'n' then cu '\n' else if c = cu '0' then 0 else c

/-- The backslash escapes of a value undone. -/
def unescape : JsString → JsString
  | [] => []
  | [c] => [c]
  | c :: d :: cs =>
    if c = cu '\\' ∧ isLineTerminator d = false then unescapeUnit d :: unescape cs
    else c :: unescape (d :: cs)

/-- `text.replace(/\r?\n$/, '')`. -/
def dropNewline (text : JsString) : JsString :=
  if text.getLast? = some (cu '\n') then dropCr text.dropLast else text

/-- The fields of a line; the bare word `NULL` is NULL. -/
def splitFields (line : JsString) : List (Option JsString) :=
  (split line (js "\t")).map fun v => if v = js "NULL" then none else some (unescape v)

/-- `mysql --batch`: tab-separated, header first. -/
def parseMysqlBatch (text : JsString) : ResultSet :=
  match split (dropNewline text) (js "\n") with
  | header :: data =>
    if header = [] then ⟨[], []⟩
    else ⟨(splitFields header).map (·.getD []), data.map splitFields⟩
  | [] => ⟨[], []⟩

/-- How mysql prints a code unit of a value. -/
def escapeUnit (c : CodeUnit) : JsString :=
  if c = cu '\t' then js "\\t"
  else if c = cu '\n' then js "\\n"
  else if c = cu '\\' then js "\\\\"
  else if c = 0 then js "\\0"
  else [c]

def escape (value : JsString) : JsString := value.flatMap escapeUnit

def printField : Option JsString → JsString
  | none => js "NULL"
  | some value => escape value

def printLine (row : List (Option JsString)) : JsString := join (row.map printField) (js "\t")

/-- The output of `mysql --batch` for a result set. -/
def mysqlBatch (rs : ResultSet) : JsString :=
  ((rs.columns.map some :: rs.rows).map fun row => printLine row ++ [cu '\n']).flatten

/-! Escapes -/

theorem unescape_escapeUnit (c : CodeUnit) (rest : JsString) :
    unescape (escapeUnit c ++ rest) = c :: unescape rest := by
  have hpair : ∀ d : CodeUnit, isLineTerminator d = false →
      unescape (cu '\\' :: d :: rest) = unescapeUnit d :: unescape rest := by
    intro d hd
    rw [unescape, if_pos ⟨rfl, hd⟩]
  rw [escapeUnit]
  split_ifs with htab hnl hback hzero
  · rw [htab]
    exact hpair (cu 't') (by decide)
  · rw [hnl]
    exact hpair (cu 'n') (by decide)
  · rw [hback]
    exact hpair (cu '\\') (by decide)
  · rw [hzero]
    exact hpair (cu '0') (by decide)
  · cases rest with
    | nil => rfl
    | cons d ds =>
      rw [singleton_append, unescape, if_neg fun h => hback h.1]

/-- **Escaping is undone.** -/
theorem unescape_escape (value : JsString) : unescape (escape value) = value := by
  induction value with
  | nil => rfl
  | cons c cs ih =>
    rw [escape, flatMap_cons, unescape_escapeUnit]
    exact congrArg (c :: ·) ih

variable {c d : CodeUnit}

theorem mem_escapeUnit (h : d ∈ escapeUnit c) : d ≠ cu '\t' ∧ d ≠ cu '\n' := by
  have hpair : ∀ e : CodeUnit, d ∈ [cu '\\', e] → e ≠ cu '\t' → e ≠ cu '\n' →
      d ≠ cu '\t' ∧ d ≠ cu '\n' := by
    intro e hd ht hn
    rcases mem_cons.mp hd with rfl | hd
    · decide
    · rw [mem_singleton.mp hd]
      exact ⟨ht, hn⟩
  rw [escapeUnit] at h
  split_ifs at h with htab hnl hback hzero
  · exact hpair _ h (by decide) (by decide)
  · exact hpair _ h (by decide) (by decide)
  · exact hpair _ h (by decide) (by decide)
  · exact hpair _ h (by decide) (by decide)
  · rw [mem_singleton.mp h]
    exact ⟨htab, hnl⟩

theorem mem_printField (h : d ∈ printField value) : d ≠ cu '\t' ∧ d ≠ cu '\n' := by
  cases value with
  | none =>
    have hall : (js "NULL").all (fun c => c != cu '\t' && c != cu '\n') = true := by decide
    simpa using all_eq_true.mp hall d h
  | some value =>
    obtain ⟨c, -, hc⟩ := mem_flatMap.mp h
    exact mem_escapeUnit hc

/-- The last unit of a value is the last one printed, if it is a carriage return. -/
theorem getLast?_escape (value : JsString) :
    (escape value).getLast? = some (cu '\r') ↔ value.getLast? = some (cu '\r') := by
  induction value using reverseRecOn with
  | nil => simp [escape]
  | append_singleton cs c _ =>
    have hescape : escape (cs ++ [c]) = escape cs ++ escapeUnit c := by simp [escape]
    have hlast : (escapeUnit c).getLast? = some (cu '\r') ↔ c = cu '\r' := by
      rw [escapeUnit]
      split_ifs with htab hnl hback hzero
      · rw [htab]
        decide
      · rw [hnl]
        decide
      · rw [hback]
        decide
      · rw [hzero]
        decide
      · simp
    have hne : escapeUnit c ≠ [] := by
      rw [escapeUnit]
      split_ifs <;> simp [js, utf16]
    rw [hescape, getLast?_append_of_ne_nil _ hne, hlast]
    simp

/-! ## Lines of mysql -/

def readField (v : JsString) : Option JsString := if v = js "NULL" then none else some (unescape v)

theorem readField_printField (h : value ≠ some (js "NULL")) :
    readField (printField value) = value := by
  cases value with
  | none => exact if_pos rfl
  | some v =>
    have hne : escape v ≠ js "NULL" := by
      intro he
      have hv := unescape_escape v
      rw [he] at hv
      exact h (congrArg some hv.symm)
    rw [printField, readField, if_neg hne, unescape_escape]

theorem splitFields_join {fields : List JsString} (hne : fields ≠ [])
    (h : ∀ f ∈ fields, cu '\t' ∉ f) :
    splitFields (join fields (js "\t")) = fields.map readField := by
  have hsplit : split (join fields (js "\t")) (js "\t") = fields := split_join_unit hne h
  rw [splitFields, hsplit]
  rfl

theorem splitFields_printLine (hne : row ≠ [])
    (h : some (js "NULL") ∉ row) : splitFields (printLine row) = row := by
  rw [printLine, splitFields_join (by simpa using hne)]
  · rw [map_map]
    conv_rhs => rw [← map_id row]
    refine map_congr_left fun value hvalue => readField_printField ?_
    rintro rfl
    exact h hvalue
  · intro f hf
    obtain ⟨value, -, rfl⟩ := mem_map.mp hf
    exact fun hm => (mem_printField hm).1 rfl

/-- A carriage return at the end of joined pieces is one at the end of the last. -/
theorem dropCr_join (hc : c ≠ cu '\r') (ps : List JsString) (p : JsString) :
    dropCr (join (ps ++ [p]) [c]) = join (ps ++ [dropCr p]) [c] := by
  by_cases hps : ps = []
  · subst hps
    simp [join]
  · have hjoin : ∀ q : JsString, join (ps ++ [q]) [c] = join ps [c] ++ c :: q := by
      intro q
      induction ps with
      | nil => exact absurd rfl hps
      | cons x xs ih =>
        by_cases hxs : xs = []
        · subst hxs
          simp [join, intercalate_cons_cons]
        · rw [cons_append, join_cons (by simp), ih hxs, join_cons hxs]
          simp
    rw [hjoin, hjoin]
    rcases eq_nil_or_concat p with rfl | ⟨q, d, rfl⟩
    · have hlast : (join ps [c] ++ [c]).getLast? ≠ some (cu '\r') := by simpa using hc
      rw [dropCr, if_neg hlast]
      rfl
    · have hdrop : ∀ x : JsString, dropCr (x ++ [d]) = if d = cu '\r' then x else x ++ [d] := by
        intro x
        simp [dropCr]
      have happ : join ps [c] ++ c :: (q ++ [d]) = (join ps [c] ++ c :: q) ++ [d] := by simp
      rw [concat_eq_append, happ, hdrop, hdrop]
      split <;> simp

theorem newline_notMem_printLine (row : List (Option JsString)) : cu '\n' ∉ printLine row := by
  intro hm
  rcases mem_join hm with hm | ⟨f, hf, hm⟩
  · exact absurd hm (by decide)
  · obtain ⟨value, -, rfl⟩ := mem_map.mp hf
    exact (mem_printField hm).2 rfl

/-- The output without its last line ending is its lines, the last without a carriage return. -/
theorem dropNewline_mysqlBatch (columns : List JsString) (rows : List (List (Option JsString)))
    (row : List (Option JsString)) :
    dropNewline (mysqlBatch ⟨columns, rows ++ [row]⟩) =
      join ((printLine (columns.map some) :: rows.map printLine) ++ [dropCr (printLine row)])
        (js "\n") := by
  have hlines : ∀ (l : JsString) (ls : List JsString),
      ((l :: ls).map fun x => x ++ [cu '\n']).flatten = join (l :: ls) (js "\n") ++ [cu '\n'] := by
    intro l ls
    induction ls generalizing l with
    | nil => simp [join]
    | cons x xs ih =>
      rw [map_cons, flatten_cons, ih x, join_cons (cons_ne_nil x xs)]
      simp [js, utf16]
  have hbatch : mysqlBatch ⟨columns, rows ++ [row]⟩ =
      join ((printLine (columns.map some) :: rows.map printLine) ++ [printLine row]) (js "\n") ++
        [cu '\n'] := by
    rw [mysqlBatch, cons_append, ← hlines]
    simp [Function.comp_def]
  rw [hbatch, dropNewline, if_pos (by simp), dropLast_concat]
  exact dropCr_join (by decide) _ _

/-- The last field as it is read: without a carriage return at its end. -/
def lastField (value : Option JsString) : Option JsString := readField (dropCr (printField value))

theorem lastField_eq_self (h : value ≠ some (js "NULL")) :
    lastField value = value ↔ ∀ v, value = some v → v.getLast? ≠ some (cu '\r') := by
  cases value with
  | none =>
    have hnone : lastField none = none := by decide
    simp [hnone]
  | some v =>
    have hread := readField_printField h
    by_cases hlast : v.getLast? = some (cu '\r')
    · refine iff_of_false (fun heq => ?_) fun hall => hall v rfl hlast
      -- the value that is read is a carriage return shorter
      obtain ⟨w, rfl⟩ := getLast?_eq_some_iff.mp hlast
      have hprint : dropCr (escape (w ++ [cu '\r'])) = escape w := by
        have hcr : escapeUnit (cu '\r') = [cu '\r'] := by decide
        simp [escape, hcr, dropCr]
      rw [lastField, printField, hprint, readField] at heq
      split at heq
      · cases heq
      · rw [unescape_escape] at heq
        have hlen := congrArg List.length (Option.some.inj heq)
        rw [length_append, length_singleton] at hlen
        omega
    · refine iff_of_true ?_ fun w hw => ?_
      · rw [lastField, dropCr, if_neg]
        · exact hread
        · exact fun he => hlast ((getLast?_escape v).mp he)
      · rw [← Option.some.inj hw]
        exact hlast

theorem printLine_eq_nil {columns : List JsString} (hne : columns ≠ []) :
    printLine (columns.map some) = [] ↔ columns = [[]] := by
  constructor
  · intro h
    have hsplit : split (printLine (columns.map some)) (js "\t") =
        (columns.map some).map printField := by
      refine split_join_unit (by simpa using hne) fun f hf => ?_
      obtain ⟨value, -, rfl⟩ := mem_map.mp hf
      exact fun hm => (mem_printField hm).1 rfl
    rw [h, map_map] at hsplit
    have hlen := congrArg List.length hsplit
    rw [length_map] at hlen
    obtain ⟨c, rfl⟩ := length_eq_one_iff.mp hlen.symm
    have hc : escape c = [] := by
      have hcons : ([[]] : List JsString) = [escape c] := hsplit
      exact (List.cons.inj hcons).1.symm
    have hback := unescape_escape c
    rw [hc] at hback
    rw [← hback]
    rfl
  · rintro rfl
    rfl

/-- **The output of mysql is read back exactly when the header line is not empty and the last
value does not end in a carriage return.** -/
theorem parseMysqlBatch_mysqlBatch_iff (rs : ResultSet) (hcolumns : rs.columns ≠ [])
    (hrows : rs.rows ≠ []) (hwidth : ∀ row ∈ rs.rows, row.length = rs.columns.length)
    (hnames : js "NULL" ∉ rs.columns) (hvalues : ∀ row ∈ rs.rows, some (js "NULL") ∉ row) :
    parseMysqlBatch (mysqlBatch rs) = rs ↔
      rs.columns ≠ [[]] ∧ ∀ row v, rs.rows.getLast? = some row → row.getLast? = some (some v) →
        v.getLast? ≠ some (cu '\r') := by
  obtain ⟨columns, rows⟩ := rs
  obtain rfl | ⟨rows, row, rfl⟩ := List.eq_nil_or_concat rows
  · exact absurd rfl hrows
  simp only [List.concat_eq_append] at *
  have hne : ∀ r ∈ rows ++ [row], r ≠ [] := by
    rintro r hr rfl
    exact hcolumns (List.length_eq_zero_iff.mp (hwidth [] hr).symm)
  obtain hnil | ⟨before, value, rfl⟩ := List.eq_nil_or_concat row
  · exact absurd hnil (hne row (by simp))
  simp only [List.concat_eq_append] at *
  have hvalue : value ≠ some (js "NULL") := by
    rintro rfl
    exact hvalues _ (List.mem_append_right _ List.mem_cons_self) (by simp)
  have hbefore : some (js "NULL") ∉ before := fun hm =>
    hvalues _ (List.mem_append_right _ List.mem_cons_self) (List.mem_append_left _ hm)
  have hheader : splitFields (printLine (columns.map some)) = columns.map some :=
    splitFields_printLine (by simpa using hcolumns) (by simpa using hnames)
  have hdata : (rows.map printLine).map splitFields = rows := by
    rw [List.map_map]
    conv_rhs => rw [← List.map_id rows]
    exact List.map_congr_left fun r hr => splitFields_printLine
      (hne r (List.mem_append_left _ hr)) (hvalues r (List.mem_append_left _ hr))
  have hlast : splitFields (dropCr (printLine (before ++ [value]))) =
      before ++ [lastField value] := by
    have hline : dropCr (printLine (before ++ [value])) =
        join (before.map printField ++ [dropCr (printField value)]) (js "\t") := by
      rw [printLine, List.map_append, List.map_singleton]
      exact dropCr_join (by decide) _ _
    have htab : ∀ f ∈ before.map printField ++ [dropCr (printField value)], cu '\t' ∉ f := by
      intro f hf hm
      rcases List.mem_append.mp hf with hf | hf
      · obtain ⟨x, -, rfl⟩ := List.mem_map.mp hf
        exact (mem_printField hm).1 rfl
      · rw [List.mem_singleton.mp hf] at hm
        exact (mem_printField (dropCr_subset _ hm)).1 rfl
    have hread : before.map (readField ∘ printField) = before := by
      conv_rhs => rw [← List.map_id before]
      refine List.map_congr_left fun x hx => readField_printField ?_
      rintro rfl
      exact hbefore hx
    rw [hline, splitFields_join (by simp) htab, List.map_append, List.map_map, hread]
    rfl
  have hsplit : split (dropNewline (mysqlBatch ⟨columns, rows ++ [before ++ [value]]⟩))
      (js "\n") = printLine (columns.map some) ::
        (rows.map printLine ++ [dropCr (printLine (before ++ [value]))]) := by
    rw [dropNewline_mysqlBatch]
    refine split_join_unit (by simp) fun l hl => ?_
    rcases List.mem_append.mp hl with hl | hl
    · rcases List.mem_cons.mp hl with rfl | hl
      · exact newline_notMem_printLine _
      · obtain ⟨r, -, rfl⟩ := List.mem_map.mp hl
        exact newline_notMem_printLine r
    · rw [List.mem_singleton.mp hl]
      exact fun hm => newline_notMem_printLine _ (dropCr_subset _ hm)
  have hcond : (∀ r v, (rows ++ [before ++ [value]]).getLast? = some r →
      r.getLast? = some (some v) → v.getLast? ≠ some (cu '\r')) ↔ lastField value = value := by
    rw [lastField_eq_self hvalue]
    constructor
    · exact fun h v hv => h _ v (List.getLast?_concat ..) (by rw [List.getLast?_concat, hv])
    · intro h r v hr hv
      rw [List.getLast?_concat] at hr
      rw [← Option.some.inj hr, List.getLast?_concat] at hv
      exact h v (Option.some.inj hv)
  rw [parseMysqlBatch, hsplit, hcond]
  simp only [printLine_eq_nil hcolumns]
  by_cases hempty : columns = [[]]
  · simp [hempty]
  · rw [if_neg hempty, List.map_append, hdata, List.map_singleton, hlast, hheader]
    simp [hempty, Function.comp_def]

theorem parseMysqlBatch_plain :
    parseMysqlBatch (mysqlBatch ⟨[js "a", js "b"], [[some (js "x\r"), none]]⟩) =
      ⟨[js "a", js "b"], [[some (js "x\r"), none]]⟩ := by
  refine (parseMysqlBatch_mysqlBatch_iff ⟨[js "a", js "b"], [[some (js "x\r"), none]]⟩ (by decide)
    (by decide) (by decide) (by decide) (by decide)).mpr ⟨by decide, ?_⟩
  intro row v hrow hv
  obtain rfl := Option.some.inj hrow
  cases Option.some.inj hv

/-- The last value `x\r` comes back as `x`. -/
theorem parseMysqlBatch_cr :
    parseMysqlBatch (mysqlBatch ⟨[js "a"], [[some (js "x\r")]]⟩) =
      ⟨[js "a"], [[some (js "x")]]⟩ := by
  decide

end Aoox.ResultSets
