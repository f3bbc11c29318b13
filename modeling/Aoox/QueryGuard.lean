import Aoox.JsString

/-! # The query box and its guard (`data-browser/query-guard.ts`)

`runQuery` takes a text from the user, strips comments and trailing semicolons,
refuses it when it finds a second statement or, from somebody who may not write,
a statement that is not a reading one, and hands it on, capped to a number of
rows.  `sql` writes what it is given into the file the engine's client reads.

The guard looks for a semicolon outside quotes; its loop with its look-ahead for
doubled quotes is a quote state that every quote character toggles
(`hasMultipleStatements_iff`).  `withRowCap` strips once more, and what it keeps
is a prefix of what the guard has seen (`isPrefix_normalizeSql_twice`).
-/
namespace Aoox
open JsString Replacing Option

/-! ## Normalizing -/

/-- The regular expression `\/\*[\s\S]*?\*\/`: from `/*` to the first `*/` behind it. -/
def blockComment : Matcher CodeUnit
  | c :: d :: cs =>
    if c = cu '/' ∧ d = cu '*' then (indexOf (js "*/") cs 0).map (· + 3) else none
  | _ => none

/-- The regular expression `--[^\n]*`. -/
def lineComment : Matcher CodeUnit
  | c :: d :: cs =>
    if c = cu '-' ∧ d = cu '-' then some (1 + (cs.takeWhile (· != cu '\n')).length) else none
  | _ => none

/-- `text.replace(/;+\s*$/, '')`: the leftmost place from which on there are only
semicolons and then white space is where the text ends. -/
def stripSemicolons : JsString → JsString
  | [] => []
  | c :: cs =>
    if c = cu ';' ∧ (cs.dropWhile (· == cu ';')).all isSpace then []
    else c :: stripSemicolons cs

/-- Strips line and block comments, surrounding white space and trailing `;`. -/
def normalizeSql (sql : JsString) : JsString :=
  trim (stripSemicolons (trim (replaceAll lineComment (js " ")
    (replaceAll blockComment (js " ") sql))))

/-! After one normalization no comment is left to strip, and the next one only cuts
at the end. -/

variable {t : JsString}

theorem blockComment_isSome (h : js "*/" <:+: t) : (blockComment (js "/*" ++ t)).isSome := by
  have hi : (indexOf (js "*/") t 0).isSome := (includes_iff (by decide)).mpr h
  simpa [blockComment, js, utf16, cu] using hi

theorem lineComment_isSome (h : js "--" <+: t) : (lineComment t).isSome := by
  obtain ⟨t, rfl⟩ := h
  rfl

variable {cs : JsString} {c : CodeUnit}

theorem behind_of_blockComment
    (h : (blockComment (c :: cs)).isSome) : Behind (js "/*") (js "*/") (c :: cs) := by
  cases cs with
  | nil => cases h
  | cons d cs =>
    rw [blockComment] at h
    split at h
    · rename_i hcd
      obtain ⟨rfl, rfl⟩ := hcd
      rw [isSome_map] at h
      exact ⟨[], cs, rfl, (includes_iff (by decide)).mp h⟩
    · cases h

theorem prefix_of_lineComment (h : (lineComment (c :: cs)).isSome) : js "--" <+: c :: cs := by
  cases cs with
  | nil => cases h
  | cons d cs =>
    rw [lineComment] at h
    split at h
    · rename_i hcd
      obtain ⟨rfl, rfl⟩ := hcd
      exact ⟨cs, rfl⟩
    · cases h

theorem replaceAll_blockComment_eq_self (h : ¬ Behind (js "/*") (js "*/") t) :
    replaceAll blockComment (js " ") t = t := by
  refine replaceAll_eq_self _ _ (fun c cs hs => not_isSome_iff_eq_none.mp fun hm => ?_)
  exact h ((behind_of_blockComment hm).mono hs.isInfix)

theorem replaceAll_lineComment_eq_self (h : ¬ js "--" <:+: t) :
    replaceAll lineComment (js " ") t = t := by
  refine replaceAll_eq_self _ _ (fun c cs hs => not_isSome_iff_eq_none.mp fun hm => ?_)
  exact h ((prefix_of_lineComment hm).isInfix.trans hs.isInfix)

theorem isPrefix_stripSemicolons (t : JsString) : stripSemicolons t <+: t := by
  induction t with
  | nil => exact List.prefix_refl _
  | cons c cs ih =>
    rw [stripSemicolons]
    split
    · exact List.nil_prefix
    · exact List.cons_prefix_cons.mpr ⟨rfl, ih⟩

theorem isInfix_normalizeSql (sql : JsString) : normalizeSql sql <:+:
      replaceAll lineComment (js " ") (replaceAll blockComment (js " ") sql) :=
  (isInfix_trim _).trans ((isPrefix_stripSemicolons _).isInfix.trans (isInfix_trim _))

theorem avoids_space {u : JsString} (h : cu ' ' ∉ u) : Avoids (js " ") u := by
  intro x hx
  obtain rfl : x = cu ' ' := List.mem_singleton.mp hx
  exact h

theorem not_behind_normalizeSql (sql : JsString) :
    ¬ Behind (js "/*") (js "*/") (normalizeSql sql) := by
  intro h
  have hline := h.mono (isInfix_normalizeSql sql)
  have hopen : Avoids (js " ") (js "/*") := avoids_space (by decide)
  have hclose : Avoids (js " ") (js "*/") := avoids_space (by decide)
  have hblock := hline.of_replaceAll (by decide) (by decide) hopen hclose
  exact not_behind_replaceAll (by decide) (by decide) hopen hclose
    (fun t ht => blockComment_isSome ht) sql hblock

theorem not_dashes_normalizeSql (sql : JsString) : ¬ js "--" <:+: normalizeSql sql := by
  intro h
  exact not_infix_replaceAll (by decide) (by decide) (avoids_space (by decide))
    (fun t ht => lineComment_isSome ht) _ (h.trans (isInfix_normalizeSql sql))

theorem normalizeSql_twice (sql : JsString) :
    normalizeSql (normalizeSql sql) = trim (stripSemicolons (normalizeSql sql)) := by
  have htrim : trim (normalizeSql sql) = normalizeSql sql := trim_trim _
  rw [normalizeSql, replaceAll_blockComment_eq_self (not_behind_normalizeSql sql),
    replaceAll_lineComment_eq_self (not_dashes_normalizeSql sql), htrim]

/-- **What a second normalization keeps is a prefix of what it is given.** -/
theorem isPrefix_normalizeSql_twice (sql : JsString) :
    normalizeSql (normalizeSql sql) <+: normalizeSql sql := by
  have hstrip := isPrefix_stripSemicolons (normalizeSql sql)
  -- The text does not begin with white space, and neither does a prefix of it.
  have hstart : trimStart (stripSemicolons (normalizeSql sql)) =
      stripSemicolons (normalizeSql sql) := by
    cases hs : stripSemicolons (normalizeSql sql) with
    | nil => rfl
    | cons c cs =>
      obtain ⟨rest, hrest⟩ := hs ▸ hstrip
      have hhead : (normalizeSql sql).head? = some c := by rw [← hrest]; rfl
      exact List.dropWhile_cons_of_neg (by simp [head?_trim _ c hhead])
  rw [normalizeSql_twice, trim, hstart]
  exact (List.rdropWhile_prefix _ _).trans hstrip

/-! ## The guard -/

def isQuote (c : CodeUnit) : Bool := c == cu '\'' || c == cu '"' || c == cu '\x60'

/-- The loop of `hasMultipleStatements` from a position on, in the quote it is
in. -/
def hasMultipleGo : Option CodeUnit → JsString → Bool
  | _, [] => false
  | none, c :: cs =>
    if isQuote c then hasMultipleGo (some c) cs
    else if c = cu ';' then true
    else hasMultipleGo none cs
  | some _, [_] => false
  | some q, c :: d :: cs =>
    if c = q then
      -- A doubled quote is passed over, `i++`.
      if d = q then hasMultipleGo (some q) cs else hasMultipleGo none (d :: cs)
    else hasMultipleGo (some q) (d :: cs)

/-- True when a `;` appears outside quotes: more than one statement. -/
def hasMultipleStatements (sql : JsString) : Bool := hasMultipleGo none sql

/-- The quote state behind one more character: a quote character opens its quote
outside quotes and closes it inside. -/
def quoteStep : Option CodeUnit → CodeUnit → Option CodeUnit
  | none, c => if isQuote c then some c else none
  | some q, c => if c = q then none else some q

def quoteAfter (text : JsString) : Option CodeUnit := text.foldl quoteStep none

/-- A semicolon stands in the text where the quote state is outside quotes. -/
def OpenSemicolon (q : Option CodeUnit) (text : JsString) : Prop :=
  ∃ a b, text = a ++ cu ';' :: b ∧ a.foldl quoteStep q = none

theorem not_openSemicolon_nil (q : Option CodeUnit) : ¬ OpenSemicolon q [] := by
  rintro ⟨a, b, h, -⟩
  cases a <;> cases h

theorem openSemicolon_cons {q : Option CodeUnit} : OpenSemicolon q (c :: cs) ↔
      (c = cu ';' ∧ q = none) ∨ OpenSemicolon (quoteStep q c) cs := by
  constructor
  · rintro ⟨a, b, h, hq⟩
    cases a with
    | nil => exact Or.inl ⟨(List.cons.inj h).1, hq⟩
    | cons x a =>
      obtain ⟨rfl, h'⟩ := List.cons.inj h
      exact Or.inr ⟨a, b, h', hq⟩
  · rintro (⟨rfl, hq⟩ | ⟨a, b, rfl, hq⟩)
    · exact ⟨[], cs, rfl, hq⟩
    · exact ⟨c :: a, b, rfl, hq⟩

theorem isQuote_ne_semicolon {q : CodeUnit} (hq : isQuote q) : q ≠ cu ';' := by
  rintro rfl
  revert hq
  decide

theorem hasMultipleGo_iff (q : Option CodeUnit) (text : JsString) (hq : ∀ x ∈ q, isQuote x) :
    hasMultipleGo q text = true ↔ OpenSemicolon q text := by
  fun_induction hasMultipleGo q text with
  | case1 q => simp [not_openSemicolon_nil]
  | case2 c cs hc ih =>
    have hne : c ≠ cu ';' := isQuote_ne_semicolon hc
    simp only [ih (by simpa using hc), openSemicolon_cons, quoteStep, hc, hne, if_true,
      false_and, false_or]
  | case3 cs hc => simp [openSemicolon_cons]
  | case4 c cs hc hne ih =>
    simp only [ih (by simp), openSemicolon_cons, quoteStep, hc, hne, if_false, false_and,
      false_or, Bool.false_eq_true]
  | case5 q c => simp [openSemicolon_cons, not_openSemicolon_nil]
  | case6 q cs ih =>
    -- A doubled quote leaves the quote and enters it again.
    have hquote : isQuote q := hq q rfl
    have hne : q ≠ cu ';' := isQuote_ne_semicolon hquote
    rw [openSemicolon_cons, openSemicolon_cons]
    simpa [quoteStep, hne, hquote] using ih hq
  | case7 q d cs hd ih =>
    rw [openSemicolon_cons]
    simpa [quoteStep] using ih (by simp)
  | case8 q c d cs hc ih =>
    rw [openSemicolon_cons]
    simpa [quoteStep, hc] using ih hq

/-- **The guard's loop is a toggling quote state.** -/
theorem hasMultipleStatements_iff (sql : JsString) :
    hasMultipleStatements sql = true ↔ ∃ a b, sql = a ++ cu ';' :: b ∧ quoteAfter a = none :=
  hasMultipleGo_iff none sql (by simp)

/-- `text.split(/[\s(]+/)[0].toLowerCase()`. -/
def firstWord (text : JsString) : JsString :=
  toLowerCase (text.takeWhile fun c => !(isSpace c || c == cu '('))

/-- `READ_KEYWORDS`. -/
def readKeywords : List JsString :=
  [js "select", js "with", js "show", js "explain", js "describe", js "desc", js "values",
    js "table"]

def isReadStatement (sql : JsString) : Bool := readKeywords.contains (firstWord (normalizeSql sql))

theorem isLetter_of_toLowerCase {text : JsString} (h : (toLowerCase text).head?.any isLetter) :
    text.head?.any isLetter := by
  cases text with
  | nil => exact h
  | cons c cs =>
    simp only [toLowerCase, List.map_cons, List.head?_cons, Option.any_some] at h ⊢
    split at h
    · rename_i hup
      simp [isLetter, hup]
    · exact h

/-- A statement that begins with one of the keywords begins with a letter. -/
theorem head_of_read {s : JsString} (h : readKeywords.contains (firstWord s)) :
    ∃ c cs, s = c :: cs ∧ isLetter c := by
  have hkeys : ∀ w ∈ readKeywords, w.head?.any isLetter := by decide
  have hmem : firstWord s ∈ readKeywords := by simpa using h
  have hword := isLetter_of_toLowerCase (hkeys (firstWord s) hmem)
  cases s with
  | nil => cases hword
  | cons c cs =>
    refine ⟨c, cs, rfl, ?_⟩
    rw [List.takeWhile_cons] at hword
    split at hword
    · exact hword
    · cases hword

/-! ## The row cap -/

/-- `MAX_ROWS`. -/
def maxRows : Nat := 500

/-- The engines whose query box takes SQL. -/
inductive SqlEngine
  | postgres
  | mysql
  | mariadb
deriving DecidableEq

/-- `\w`. -/
def isWordUnit (c : CodeUnit) : Bool := isLetter c || isDigit c || c == cu '_'

/-- `/\blimit\b/i` at some place behind a character that is a word's, or is not. -/
def hasLimitGo (behindWord : Bool) : JsString → Bool
  | [] => false
  | c :: cs =>
    (!behindWord && toLowerCase ((c :: cs).take 5) == js "limit" &&
      !((c :: cs).drop 5).head?.any isWordUnit) || hasLimitGo (isWordUnit c) cs

/-- `/\blimit\b/i.test(s)`. -/
def hasLimit (s : JsString) : Bool := hasLimitGo false s

/-- A `SELECT` or `WITH` that has no limit of its own. -/
def needsCap (s : JsString) : Bool :=
  (firstWord s == js "select" || firstWord s == js "with") && !hasLimit s

/-- What stands before the statement when it is capped. -/
def capOpening : JsString := js "SELECT * FROM ("

/-- What stands behind it. -/
def capClosing (engine : SqlEngine) : JsString :=
  js ") AS " ++ (if engine = .postgres then js "\"_q\"" else js "`_q`") ++ js " LIMIT " ++
    js (toString (maxRows + 1))

/-- Caps a `SELECT`/`WITH` that has no `LIMIT` of its own by wrapping it. -/
def withRowCap (sql : JsString) (engine : SqlEngine) : JsString :=
  let s := normalizeSql sql
  if needsCap s then capOpening ++ s ++ capClosing engine else s

/-! ## `runQuery` and `sql` -/

/-- `WRITE_ROLES`. -/
def writeRoles : List JsString := [js "owner", js "admin"]

/-- The exceptions of `runQuery`, with their messages. -/
inductive QueryError
  | badRequest (message : JsString)
  | forbidden (message : JsString)
deriving DecidableEq

/-- What `runQuery` hands to `sql`. -/
structure SqlCall where
  statement : JsString
  readOnly : Bool
  database : Option JsString
deriving DecidableEq

/-- `runQuery` for an engine that takes SQL, up to the call of `sql`. -/
def runQuery (engine : SqlEngine) (input role : JsString) (database : Option JsString) :
    Except QueryError SqlCall :=
  let sql := normalizeSql input
  if sql = [] then .error (.badRequest (js "Empty statement"))
  else if hasMultipleStatements sql then
    .error (.badRequest (js "Run one statement at a time"))
  else if !isReadStatement sql && !writeRoles.contains role then
    .error (.forbidden (js "Only owners and admins can run statements that modify data"))
  else
    .ok ⟨withRowCap sql engine, !writeRoles.contains role, database⟩

/-- `STATEMENT_TIMEOUT_MS`. -/
def statementTimeoutMs : Nat := 15000

/-- The session settings `sql` writes before the statement for the two MySQL
engines. -/
def sessionSettings (engine : SqlEngine) (readOnly : Bool) : JsString :=
  (if engine = .mariadb then
    js "SET SESSION max_statement_time = " ++ js (toString (statementTimeoutMs / 1000)) ++ js ";"
  else js "SET SESSION max_execution_time = " ++ js (toString statementTimeoutMs) ++ js ";") ++
    if readOnly then js " SET SESSION TRANSACTION READ ONLY;" else []

/-- The file `/tmp/q.sql` that the client reads.  For PostgreSQL the settings go
through `PGOPTIONS` and the file is the statement alone. -/
def queryFile (engine : SqlEngine) (call : SqlCall) : JsString :=
  match engine with
  | .postgres => call.statement
  | .mysql | .mariadb => sessionSettings engine call.readOnly ++ js "\n" ++ call.statement

end Aoox
