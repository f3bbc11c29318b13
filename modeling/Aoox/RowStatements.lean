import Aoox.Assoc
import Aoox.SingleStatement
import Mathlib.Data.List.Perm.Subperm

/-! # Statements about one row (`updateRow`, `deleteRow`)

The row editor puts an `UPDATE` or a `DELETE` together from names and values it has
been sent.  `assertRowTarget` holds the names against the columns of the table;
`quoteIdent` and `sqlLiteral` double the characters that would end what they quote,
and for MySQL the backslash.

Read by the engine, a doubled character is one (`quotedLength_doubled`,
`unquote_doubled`), so each quoted text is one token that means what was given.
The tokens of the whole text are therefore those of the intended statement
(`itemsOf_update`, `itemsOf_delete`), whatever the names and values are.
-/
open List
namespace Aoox.RowStatements

open JsString Lexing

/-! ## What the tokens say -/

/-- A token without its quotes.  A string or name that is not closed, and whatever
else is no part of a plain statement, is `other`. -/
inductive SqlItem
  | word (text : JsString)
  | symbol (text : JsString)
  | name (name : JsString)
  | string (value : JsString)
  | other (kind : SqlKind)
deriving DecidableEq

/-- What a backslash and a character stand for in a string. -/
def escaped (c : CodeUnit) : JsString :=
  if c = cu '0' then [0]
  else if c = cu 'b' then [8]
  else if c = cu 'n' then [10]
  else if c = cu 'r' then [13]
  else if c = cu 't' then [9]
  else if c = cu 'Z' then [26]
  else if c = cu '%' || c = cu '_' then [cu '\\', c]
  else [c]

/-- The content of a quoted text behind its opening quote, the closing one last. -/
def unquote (q : CodeUnit) (escapes : Bool) : JsString → Option JsString
  | [] => none
  | [c] => if c = q then some [] else none
  | c :: d :: cs =>
    if escapes && c == cu '\\' then (unquote q escapes cs).map (escaped d ++ ·)
    else if c = q then if d = q then (unquote q escapes cs).map (q :: ·) else none
    else (unquote q escapes (d :: cs)).map (c :: ·)

def nameQuote (engine : SqlEngine) : CodeUnit :=
  if engine = .postgres then cu '"' else cu '\x60'

/-- Backslashes escape in plain strings. -/
def hasEscapes (engine : SqlEngine) : Bool := engine ≠ .postgres

def itemOf (engine : SqlEngine) (y : SqlToken) : Option SqlItem :=
  match y.kind with
  | .blank => none
  | .word => some (.word y.text)
  | .symbol => some (.symbol y.text)
  | .name =>
    some (((unquote (nameQuote engine) false (y.text.drop 1)).map SqlItem.name).getD (.other .name))
  | .string =>
    match y.text with
    | c :: cs =>
      if c = cu '\'' then
        some (((unquote c (hasEscapes engine) cs).map SqlItem.string).getD (.other .string))
      else some (.other .string)
    | [] => some (.other .string)
  | kind => some (.other kind)

def tokensOf (engine : SqlEngine) (text : JsString) : List SqlToken :=
  if engine = .postgres then Psql.tokens Psql.start text else MySql.tokens text

/-- The text as the engine reads it, blanks left out. -/
def itemsOf (engine : SqlEngine) (text : JsString) : List SqlItem :=
  (tokensOf engine text).filterMap (itemOf engine)

/-! ## The row editor -/

/-- A column of a table, as far as `assertRowTarget` looks at it. -/
structure ColumnInfo where
  name : JsString
  isPrimaryKey : Bool

/-- The columns of a table.  It has no two of one name. -/
structure TableColumns where
  columns : List ColumnInfo
  nodup : (columns.map ColumnInfo.name).Nodup

/-- The entries of an object in a request: values by column. -/
structure RowFields where
  entries : List (JsString × Option JsString)
  nodup : (entries.map Prod.fst).Nodup

/-- `Error` and `BadRequestException`, with their messages. -/
inductive RowError
  | error (message : JsString)
  | badRequest (message : JsString)

/-- `/^[A-Za-z_][A-Za-z0-9_$]{0,62}$/`. -/
def isPlainIdentifier (name : JsString) : Bool :=
  match name with
  | [] => false
  | c :: cs =>
    (isLetter c || c = cu '_') && cs.length ≤ 62 &&
      cs.all fun d => isLetter d || isDigit d || d = cu '_' || d = cu '$'

def assertIdentifier (name what : JsString) : Except RowError JsString :=
  if isPlainIdentifier name then .ok name
  else .error (.error (js "Invalid " ++ what ++ js ": " ++ name))

/-- `name.split(c).join(c + c)`. -/
def double (c : CodeUnit) (text : JsString) : JsString := join (split text [c]) [c, c]

def quoteIdent (name : JsString) (engine : SqlEngine) : JsString :=
  if engine = .postgres then
    cu '"' :: Replacing.replaceSublist [cu '"'] [cu '"', cu '"'] name ++ [cu '"']
  else cu '\x60' :: double (cu '\x60') name ++ [cu '\x60']

def sqlLiteral (value : Option JsString) (engine : SqlEngine) : JsString :=
  match value with
  | none => js "NULL"
  | some text =>
    let singleEscaped := double (cu '\'') text
    let escaped := if engine = .postgres then singleEscaped else double (cu '\\') singleEscaped
    cu '\'' :: escaped ++ [cu '\'']

def primaryKey (columns : List ColumnInfo) : List JsString :=
  (columns.filter (·.isPrimaryKey)).map (·.name)

/-- The first key of `set` that may not be set. -/
def assertKeys (known pk : List JsString) : List JsString → Except RowError Unit
  | [] => .ok ()
  | key :: keys =>
    if key ∉ known then .error (.badRequest (js "Unknown column: " ++ key))
    else if key ∈ pk then
      .error (.badRequest (js "Cannot change a primary key column from the row editor"))
    else assertKeys known pk keys

def assertRowTarget (columns : List ColumnInfo) (where_ set : List (JsString × Option JsString)) :
    Except RowError (List JsString) :=
  let pk := primaryKey columns
  let whereKeys := where_.map Prod.fst
  if pk = [] then
    .error (.badRequest (js "This table has no primary key; edit it with SQL instead"))
  else if ¬(whereKeys.length = pk.length ∧ pk.all fun k => k ∈ whereKeys) then
    .error (.badRequest (js "where must be exactly the primary key: " ++ join pk (js ", ")))
  else if pk.any fun k => Assoc.get where_ k = some none then
    .error (.badRequest (js "Primary key value cannot be null"))
  else (assertKeys (columns.map (·.name)) pk (set.map Prod.fst)).map fun _ => pk

/-- `"k" = 'v'`. -/
def equalityText (engine : SqlEngine) (e : JsString × Option JsString) : JsString :=
  quoteIdent e.1 engine ++ js " = " ++ sqlLiteral e.2 engine

def whereSql (where_ : List (JsString × Option JsString)) (engine : SqlEngine) : JsString :=
  join (where_.map (equalityText engine)) (js " AND ")

/-- `schema.table`, or just `table`. -/
def tableRef (table : JsString) (schema : Option JsString) (engine : SqlEngine) :
    Except RowError JsString :=
  match schema.filter (· ≠ []) with
  | some schema => do
    let s ← assertIdentifier schema (js "schema")
    let t ← assertIdentifier table (js "table")
    return quoteIdent s engine ++ js "." ++ quoteIdent t engine
  | none => (assertIdentifier table (js "table")).map (quoteIdent · engine)

/-- ` LIMIT 1` for the MySQL engines. -/
def limitOne (engine : SqlEngine) : JsString := if engine = .postgres then [] else js " LIMIT 1"

/-- The statement of `updateRow`; `columns` also asserts the table's name. -/
def updateStatement (engine : SqlEngine) (columns : List ColumnInfo) (table : JsString)
    (schema : Option JsString) (where_ set : List (JsString × Option JsString)) :
    Except RowError JsString := do
  if set = [] then throw (.badRequest (js "Nothing to update"))
  let table ← assertIdentifier table (js "table")
  let _ ← assertRowTarget columns where_ set
  let target ← tableRef table schema engine
  let setSql := join (set.map (equalityText engine)) (js ", ")
  return js "UPDATE " ++ target ++ js " SET " ++ setSql ++ js " WHERE " ++ whereSql where_ engine ++
    limitOne engine

/-- The statement of `deleteRow`. -/
def deleteStatement (engine : SqlEngine) (columns : List ColumnInfo) (table : JsString)
    (schema : Option JsString) (where_ : List (JsString × Option JsString)) :
    Except RowError JsString := do
  let table ← assertIdentifier table (js "table")
  let _ ← assertRowTarget columns where_ []
  let target ← tableRef table schema engine
  return js "DELETE FROM " ++ target ++ js " WHERE " ++ whereSql where_ engine ++ limitOne engine

/-! ## Doubled characters -/

/-- Every `c` twice. -/
def doubled (cs text : JsString) : JsString := text.flatMap fun x => if x ∈ cs then [x, x] else [x]

theorem doubled_cons (cs : JsString) (x : CodeUnit) (text : JsString) :
    doubled cs (x :: text) = (if x ∈ cs then [x, x] else [x]) ++ doubled cs text := rfl

theorem replaceSublist_unit (c : CodeUnit) (text : JsString) :
    Replacing.replaceSublist [c] [c, c] text = doubled [c] text := by
  induction text with
  | nil => rfl
  | cons x text ih =>
    rw [doubled_cons]
    by_cases hx : x = c
    · rw [hx, if_pos mem_cons_self, ← ih]
      exact Replacing.replaceSublist_hit (cons_ne_nil c []) [c, c] text
    · have hmiss : ¬[c] <+: x :: text := by simpa using Ne.symm hx
      rw [Replacing.replaceSublist_miss _ hmiss, ih, if_neg (by simpa using hx)]
      rfl

theorem double_eq (c : CodeUnit) (text : JsString) : double c text = doubled [c] text := by
  rw [double, join_split, replaceSublist_unit]

variable {c : CodeUnit}

/-- Doubling one character and then another one doubles both. -/
theorem doubled_doubled {b : CodeUnit} (h : b ≠ c) (text : JsString) :
    doubled [c] (doubled [b] text) = doubled [b, c] text := by
  induction text with
  | nil => rfl
  | cons x text ih =>
    rw [doubled_cons, doubled_cons, ← ih]
    by_cases hb : x = b
    · subst hb
      simp [doubled, h]
    · by_cases hc : x = c
      · subst hc
        simp [doubled, hb]
      · simp [doubled, hb, hc]

theorem quoteIdent_eq (name : JsString) (engine : SqlEngine) : quoteIdent name engine =
      nameQuote engine :: doubled [nameQuote engine] name ++ [nameQuote engine] := by
  rw [quoteIdent, nameQuote]
  split
  · rw [replaceSublist_unit]
  · rw [double_eq]

/-- The characters a literal doubles. -/
def literalSpecials (engine : SqlEngine) : JsString :=
  if engine = .postgres then [cu '\''] else [cu '\'', cu '\\']

theorem sqlLiteral_some (text : JsString) (engine : SqlEngine) : sqlLiteral (some text) engine =
      cu '\'' :: doubled (literalSpecials engine) text ++ [cu '\''] := by
  rw [sqlLiteral, literalSpecials]
  split
  · simp [double_eq]
  · simp [double_eq, doubled_doubled (show cu '\'' ≠ cu '\\' by decide)]

/-- What is doubled: the quote, and the backslash where it escapes. -/
structure Specials (q : CodeUnit) (escapes : Bool) (cs : JsString) : Prop where
  mem : ∀ x, x ∈ cs ↔ x = q ∨ escapes = true ∧ x = cu '\\'
  ne : q ≠ cu '\\'

theorem specials_name (engine : SqlEngine) :
    Specials (nameQuote engine) false [nameQuote engine] := by
  refine ⟨by simp, ?_⟩
  cases engine <;> decide

theorem specials_literal (engine : SqlEngine) :
    Specials (cu '\'') (hasEscapes engine) (literalSpecials engine) := by
  refine ⟨?_, by decide⟩
  cases engine <;> simp [literalSpecials, hasEscapes]

/-- **The quoted text ends at its closing quote.** -/
theorem quotedLength_doubled {q : CodeUnit} {escapes : Bool} {cs : JsString}
    (h : Specials q escapes cs) (text : JsString) {rest : JsString} (hrest : rest.head? ≠ some q) :
    quotedLength q escapes (doubled cs text ++ q :: rest) = (doubled cs text).length + 1 := by
  induction text with
  | nil =>
    cases rest with
    | nil => rfl
    | cons d rest =>
      have hd : d ≠ q := by simpa using hrest
      have hq : (q == cu '\\') = false := by simpa using h.ne
      show quotedLength q escapes (q :: d :: rest) = 1
      rw [quotedLength]
      simp [hq, hd]
  | cons x text ih =>
    rw [doubled_cons]
    by_cases hx : x ∈ cs
    · -- a doubled character is passed over as a pair
      rw [if_pos hx]
      have hpair : ((escapes && x == cu '\\') || (x == q && x == q)) = true := by
        rcases (h.mem x).mp hx with rfl | ⟨he, rfl⟩
        · simp
        · simp [he]
      show quotedLength q escapes (x :: x :: (doubled cs text ++ q :: rest)) = _
      rw [quotedLength, if_pos hpair, ih]
      simp
      omega
    · rw [if_neg hx]
      obtain ⟨hq, he⟩ := not_or.mp (mt (h.mem x).mpr hx)
      obtain ⟨d, ds, hds⟩ : ∃ d ds, doubled cs text ++ q :: rest = d :: ds :=
        exists_cons_of_ne_nil (by simp)
      have hpair : ∀ d : CodeUnit, ((escapes && x == cu '\\') || (x == q && d == q)) = false := by
        intro d
        have hesc : (escapes && x == cu '\\') = false := by
          cases escapes with
          | false => rfl
          | true => simpa using he
        simp [hesc, hq]
      show quotedLength q escapes (x :: (doubled cs text ++ q :: rest)) = _
      rw [hds, quotedLength, if_neg (by simp [hpair d]), if_neg (by simpa using hq), ← hds, ih]
      simp
      omega

/-- **And it means what was quoted.** -/
theorem unquote_doubled {q : CodeUnit} {escapes : Bool} {cs : JsString} (h : Specials q escapes cs)
    (text : JsString) : unquote q escapes (doubled cs text ++ [q]) = some text := by
  induction text with
  | nil =>
    show unquote q escapes [q] = some []
    rw [unquote, if_pos rfl]
  | cons x text ih =>
    rw [doubled_cons]
    by_cases hx : x ∈ cs
    · rw [if_pos hx]
      show unquote q escapes (x :: x :: (doubled cs text ++ [q])) = _
      rw [unquote, ih]
      rcases (h.mem x).mp hx with rfl | ⟨he, rfl⟩
      · have hesc : (escapes && x == cu '\\') = false := by simp [h.ne]
        simp [hesc]
      · have hback : escaped (cu '\\') = [cu '\\'] := by decide
        simp [he, hback]
    · rw [if_neg hx]
      obtain ⟨hq, he⟩ := not_or.mp (mt (h.mem x).mpr hx)
      obtain ⟨d, ds, hds⟩ : ∃ d ds, doubled cs text ++ [q] = d :: ds :=
        exists_cons_of_ne_nil (by simp)
      have hesc : (escapes && x == cu '\\') = false := by
        cases escapes with
        | false => rfl
        | true => simpa using he
      show unquote q escapes (x :: (doubled cs text ++ [q])) = _
      rw [hds, unquote, if_neg (by simp [hesc]), if_neg hq, ← hds, ih]
      rfl

/-! ## The tokens of the pieces -/

/-- What follows a word or a quoted text in the statements. -/
def Cuts (rest : JsString) : Prop := ∀ c, rest.head? = some c → c = cu ' ' ∨ c = cu ',' ∨ c = cu '.'

theorem cuts_nil : Cuts [] := fun _ h => by cases h

theorem cuts_cons (h : c = cu ' ' ∨ c = cu ',' ∨ c = cu '.') (rest : JsString) :
    Cuts (c :: rest) := fun _ hd => Option.some.inj hd ▸ h

theorem Cuts.head_ne {rest : JsString} (h : Cuts rest) {q : CodeUnit} (hq : q ≠ cu ' ')
    (hq' : q ≠ cu ',') (hq'' : q ≠ cu '.') : rest.head? ≠ some q := by
  intro hhead
  rcases h q hhead with rfl | rfl | rfl
  · exact hq rfl
  · exact hq' rfl
  · exact hq'' rfl

variable {w : JsString}

theorem Cuts.runLength {rest : JsString} (h : Cuts rest)
    (hw : w.all isIdentCont = true) : runLength isIdentCont (w ++ rest) = w.length := by
  have hstop : rest.takeWhile isIdentCont = [] := by
    cases rest with
    | nil => rfl
    | cons c cs =>
      refine takeWhile_cons_of_neg ?_
      rcases h c rfl with rfl | rfl | rfl <;> decide
  rw [Aoox.runLength, takeWhile_append_of_pos (all_eq_true.mp hw), hstop, append_nil]

/-- The first token of a text, in the state in which both engines begin and go on. -/
def StartsWith (engine : SqlEngine) (kind : SqlKind) (c : CodeUnit) (more : JsString)
    (rest : JsString) : Prop :=
  if engine = .postgres then Psql.next Psql.start c (more ++ rest) = ⟨kind, more.length, Psql.start⟩
  else MySql.next () c (more ++ rest) = ⟨kind, more.length, ()⟩

variable {engine : SqlEngine}

variable {kind : SqlKind}

/-- **Token by token**: the text behind a token is read as if it stood alone. -/
theorem itemsOf_token {more rest : JsString} (h : StartsWith engine kind c more rest) :
    itemsOf engine (c :: (more ++ rest)) =
      (itemOf engine ⟨kind, c :: more⟩).toList ++ itemsOf engine rest := by
  have htokens : tokensOf engine (c :: (more ++ rest)) =
      ⟨kind, c :: more⟩ :: tokensOf engine rest := by
    rw [StartsWith] at h
    rw [tokensOf, tokensOf]
    split
    · rename_i he
      rw [if_pos he] at h
      rw [Psql.tokens, read_cons, h, take_left, drop_left]
      rfl
    · rename_i he
      rw [if_neg he] at h
      rw [MySql.tokens, read_cons, h, take_left, drop_left]
      rfl
  rw [itemsOf, htokens, filterMap_cons]
  cases itemOf engine ⟨kind, c :: more⟩ <;> rfl

theorem itemsOf_blank (engine : SqlEngine) (rest : JsString) :
    itemsOf engine (cu ' ' :: rest) = itemsOf engine rest := by
  have hstart : StartsWith engine .blank (cu ' ') [] rest := by cases engine <;> rfl
  exact itemsOf_token hstart

theorem itemsOf_symbol (engine : SqlEngine) (hc : c = cu '=' ∨ c = cu ',' ∨ c = cu '.')
    (rest : JsString) : itemsOf engine (c :: rest) = .symbol [c] :: itemsOf engine rest := by
  have hstart : StartsWith engine .symbol c [] rest := by
    rcases hc with rfl | rfl | rfl <;> cases engine <;> rfl
  exact itemsOf_token hstart

theorem psql_next_word (hc : isLetter c = true) (he : (c == cu 'e') = false)
    (he' : (c == cu 'E') = false) (cs : JsString) :
    Psql.next Psql.start c cs = ⟨.word, wordLength c cs, Psql.start⟩ := by
  have hne := beq_eq_false_of_isLetter hc
  simp only [Psql.next, isBlank_eq_false_of_isLetter hc, hne (cu '\'') rfl, hne (cu '"') rfl,
    hne (cu '$') rfl, hne (cu '-') rfl, hne (cu '/') rfl, hne (cu ';') rfl, hne (cu '\\') rfl,
    hne (cu '(') rfl, hne (cu ')') rfl, he, he', isIdentStart, hc, Bool.false_and, Bool.true_or,
    Bool.or_false, Bool.false_eq_true, if_false, if_true]
  rfl

theorem itemsOf_word (engine : SqlEngine) (hc : isLetter c = true) (he : (c == cu 'e') = false)
    (he' : (c == cu 'E') = false) (hw : w.all isIdentCont = true) {rest : JsString}
    (hrest : Cuts rest) :
    itemsOf engine (c :: w ++ rest) = .word (c :: w) :: itemsOf engine rest := by
  have hdigit : isDigit c = false := by
    simp only [isLetter, isDigit, cu, Bool.or_eq_true, Bool.and_eq_true, decide_eq_true_eq,
      Bool.and_eq_false_iff, decide_eq_false_iff_not, UInt16.le_iff_toNat_le] at hc ⊢
    simp at hc ⊢
    omega
  have hlen : wordLength c (w ++ rest) = w.length := by
    rw [wordLength, hdigit]
    exact hrest.runLength hw
  have hstart : StartsWith engine .word c w rest := by
    rw [StartsWith, psql_next_word hc he he', MySql.next_of_isLetter hc, hlen]
    split <;> rfl
  exact itemsOf_token hstart

/-- A text in quotes, its characters doubled, is one token. -/
theorem itemsOf_quoted {q : CodeUnit} {escapes : Bool} {cs : JsString} {item : SqlItem}
    (h : Specials q escapes cs) (text : JsString) {rest : JsString} (hrest : rest.head? ≠ some q)
    (hnext : ∀ body, if engine = .postgres then
        Psql.next Psql.start q body = ⟨kind, quotedLength q escapes body, Psql.start⟩
      else MySql.next () q body = ⟨kind, quotedLength q escapes body, ()⟩)
    (hitem : itemOf engine ⟨kind, q :: (doubled cs text ++ [q])⟩ = some item) :
    itemsOf engine ((q :: doubled cs text ++ [q]) ++ rest) = item :: itemsOf engine rest := by
  have hstart : StartsWith engine kind q (doubled cs text ++ [q]) rest := by
    have hbody := hnext (doubled cs text ++ [q] ++ rest)
    have hlen : quotedLength q escapes (doubled cs text ++ [q] ++ rest) =
        (doubled cs text ++ [q]).length := by
      rw [List.append_assoc, List.singleton_append, quotedLength_doubled h text hrest,
        List.length_append, List.length_singleton]
    rwa [hlen] at hbody
  have htoken := itemsOf_token hstart
  rw [hitem] at htoken
  exact htoken

theorem itemsOf_quoteIdent (engine : SqlEngine) (name : JsString) {rest : JsString}
    (hrest : Cuts rest) :
    itemsOf engine (quoteIdent name engine ++ rest) = .name name :: itemsOf engine rest := by
  have hspecials := specials_name engine
  rw [quoteIdent_eq]
  refine @itemsOf_quoted _ .name _ _ _ _ hspecials name _ ?_ (fun body => ?_) ?_
  · cases engine <;> exact hrest.head_ne (by decide) (by decide) (by decide)
  · cases engine <;> rfl
  · simp only [itemOf, List.drop_succ_cons, List.drop_zero, unquote_doubled hspecials]
    rfl

def valueItem : Option JsString → SqlItem
  | none => .word (js "NULL")
  | some value => .string value

/-- **A literal denotes its value.** -/
theorem itemsOf_sqlLiteral (engine : SqlEngine) (value : Option JsString) {rest : JsString}
    (hrest : Cuts rest) :
    itemsOf engine (sqlLiteral value engine ++ rest) = valueItem value :: itemsOf engine rest := by
  cases value with
  | none => exact itemsOf_word engine (by decide) (by decide) (by decide) (by decide) hrest
  | some text =>
    have hspecials := specials_literal engine
    rw [sqlLiteral_some]
    refine @itemsOf_quoted _ .string _ _ _ _ hspecials text _ ?_ (fun body => ?_) ?_
    · exact hrest.head_ne (by decide) (by decide) (by decide)
    · cases engine <;> rfl
    · simp only [itemOf, if_true, unquote_doubled hspecials]
      rfl

/-! ## The tokens of a statement -/

/-- `name = value`. -/
def equality (e : JsString × Option JsString) : List SqlItem :=
  [.name e.1, .symbol (js "="), valueItem e.2]

def equalities (between : SqlItem) (entries : List (JsString × Option JsString)) : List SqlItem :=
  [between].intercalate (entries.map equality)

theorem itemsOf_equalityText (engine : SqlEngine) (e : JsString × Option JsString) {rest : JsString}
    (hrest : Cuts rest) :
    itemsOf engine (equalityText engine e ++ rest) = equality e ++ itemsOf engine rest := by
  have hsplit : equalityText engine e ++ rest =
      quoteIdent e.1 engine ++ (cu ' ' :: cu '=' :: cu ' ' :: (sqlLiteral e.2 engine ++ rest)) := by
    rw [equalityText, List.append_assoc, List.append_assoc]
    rfl
  rw [hsplit, itemsOf_quoteIdent engine _ (cuts_cons (.inl rfl) _), itemsOf_blank,
    itemsOf_symbol engine (.inl rfl), itemsOf_blank, itemsOf_sqlLiteral engine _ hrest]
  rfl

variable {between : SqlItem}

/-- Equalities joined by a separator that is read as one item. -/
theorem itemsOf_join (engine : SqlEngine) {sep : JsString} (hcuts : ∀ rest, Cuts (sep ++ rest))
    (hsep : ∀ rest, itemsOf engine (sep ++ rest) = between :: itemsOf engine rest)
    (entries : List (JsString × Option JsString)) {rest : JsString} (hrest : Cuts rest) :
    itemsOf engine (join (entries.map (equalityText engine)) sep ++ rest) =
      equalities between entries ++ itemsOf engine rest := by
  induction entries with
  | nil => rfl
  | cons e entries ih =>
    cases entries with
    | nil =>
      have hone : join ([e].map (equalityText engine)) sep = equalityText engine e := by
        simp [join]
      rw [hone, itemsOf_equalityText engine e hrest]
      simp [equalities]
    | cons e' entries =>
      have htext : join ((e :: e' :: entries).map (equalityText engine)) sep ++ rest =
          equalityText engine e ++
            (sep ++ (join ((e' :: entries).map (equalityText engine)) sep ++ rest)) := by
        simp [join, List.intercalate_cons_cons]
      have hitems : equalities between (e :: e' :: entries) =
          equality e ++ between :: equalities between (e' :: entries) := by
        simp [equalities, List.intercalate_cons_cons]
      rw [htext, itemsOf_equalityText engine e (hcuts _), hsep, ih, hitems, List.append_assoc]
      rfl

theorem itemsOf_whereSql (engine : SqlEngine) (entries : List (JsString × Option JsString))
    {rest : JsString} (hrest : Cuts rest) :
    itemsOf engine (whereSql entries engine ++ rest) =
      equalities (.word (js "AND")) entries ++ itemsOf engine rest := by
  refine itemsOf_join engine (fun rest => cuts_cons (.inl rfl) _) (fun rest => ?_) entries hrest
  show itemsOf engine (cu ' ' :: (js "AND" ++ cu ' ' :: rest)) = _
  rw [itemsOf_blank]
  refine (itemsOf_word engine (by decide) (by decide) (by decide) (by decide)
    (cuts_cons (.inl rfl) rest)).trans ?_
  rw [itemsOf_blank]
  rfl

theorem itemsOf_setSql (engine : SqlEngine) (entries : List (JsString × Option JsString))
    {rest : JsString} (hrest : Cuts rest) :
    itemsOf engine (join (entries.map (equalityText engine)) (js ", ") ++ rest) =
      equalities (.symbol (js ",")) entries ++ itemsOf engine rest := by
  refine itemsOf_join engine (fun rest => cuts_cons (.inr (.inl rfl)) _) (fun rest => ?_) entries hrest
  show itemsOf engine (cu ',' :: cu ' ' :: rest) = _
  rw [itemsOf_symbol engine (.inr (.inl rfl)), itemsOf_blank]
  rfl

def targetItems (table : JsString) (schema : Option JsString) : List SqlItem :=
  match schema.filter (· ≠ []) with
  | some schema => [.name schema, .symbol (js "."), .name table]
  | none => [.name table]

def limitItems (engine : SqlEngine) : List SqlItem :=
  if engine = .postgres then [] else [.word (js "LIMIT"), .word (js "1")]

/-- `UPDATE table SET …, … WHERE … AND …`. -/
def updateItems (engine : SqlEngine) (table : JsString) (schema : Option JsString)
    (where_ set : List (JsString × Option JsString)) : List SqlItem :=
  [.word (js "UPDATE")] ++ targetItems table schema ++ [.word (js "SET")] ++
    equalities (.symbol (js ",")) set ++ [.word (js "WHERE")] ++
      equalities (.word (js "AND")) where_ ++ limitItems engine

/-- `DELETE FROM table WHERE … AND …`. -/
def deleteItems (engine : SqlEngine) (table : JsString) (schema : Option JsString)
    (where_ : List (JsString × Option JsString)) : List SqlItem :=
  [.word (js "DELETE"), .word (js "FROM")] ++ targetItems table schema ++ [.word (js "WHERE")] ++
    equalities (.word (js "AND")) where_ ++ limitItems engine

variable {text : JsString}

theorem assertIdentifier_ok {name what : JsString} (h : assertIdentifier name what = .ok text) :
    text = name := by
  rw [assertIdentifier] at h
  split at h
  · exact (Except.ok.inj h).symm
  · cases h

variable {table : JsString} {schema : Option JsString}

variable {target : JsString}

theorem itemsOf_tableRef (h : tableRef table schema engine = .ok target) {rest : JsString}
    (hrest : Cuts rest) :
    itemsOf engine (target ++ rest) = targetItems table schema ++ itemsOf engine rest := by
  rw [tableRef] at h
  rw [targetItems]
  cases hschema : schema.filter (· ≠ []) with
  | none =>
    rw [hschema] at h
    cases htable : assertIdentifier table (js "table") with
    | error e =>
      rw [htable] at h
      cases h
    | ok t =>
      rw [htable] at h
      obtain rfl := assertIdentifier_ok htable
      obtain rfl := Except.ok.inj h
      exact itemsOf_quoteIdent engine t hrest
  | some s =>
    rw [hschema] at h
    cases hs : assertIdentifier s (js "schema") with
    | error e =>
      simp only [hs] at h
      cases h
    | ok s' =>
      cases htable : assertIdentifier table (js "table") with
      | error e =>
        simp only [hs, htable] at h
        cases h
      | ok t =>
        simp only [hs, htable] at h
        obtain rfl := assertIdentifier_ok hs
        obtain rfl := assertIdentifier_ok htable
        have htarget : target = quoteIdent s' engine ++ js "." ++ quoteIdent t engine :=
          (Except.ok.inj h).symm
        have hsplit : target ++ rest =
            quoteIdent s' engine ++ (cu '.' :: (quoteIdent t engine ++ rest)) := by
          rw [htarget, List.append_assoc, List.append_assoc]
          rfl
        rw [hsplit, itemsOf_quoteIdent engine _ (cuts_cons (.inr (.inr rfl)) _),
          itemsOf_symbol engine (.inr (.inr rfl)), itemsOf_quoteIdent engine _ hrest]
        rfl

theorem itemsOf_limitOne (engine : SqlEngine) :
    itemsOf engine (limitOne engine) = limitItems engine := by
  cases engine
  · rfl
  · decide
  · decide

theorem cuts_limitOne (engine : SqlEngine) : Cuts (limitOne engine) := by
  cases engine
  · exact cuts_nil
  · exact cuts_cons (.inl rfl) _
  · exact cuts_cons (.inl rfl) _

/-- A word of the statement with the blank behind it. -/
theorem itemsOf_keyword (engine : SqlEngine) (hc : isLetter c = true) (he : (c == cu 'e') = false)
    (he' : (c == cu 'E') = false) (hw : w.all isIdentCont = true) (rest : JsString) :
    itemsOf engine (c :: w ++ cu ' ' :: rest) = .word (c :: w) :: itemsOf engine rest := by
  rw [itemsOf_word engine hc he he' hw (cuts_cons (.inl rfl) rest), itemsOf_blank]

theorem itemsOf_update (h : tableRef table schema engine = .ok target)
    (where_ set : List (JsString × Option JsString)) :
    itemsOf engine (js "UPDATE " ++ target ++ js " SET " ++
        join (set.map (equalityText engine)) (js ", ") ++ js " WHERE " ++ whereSql where_ engine ++
          limitOne engine) = updateItems engine table schema where_ set := by
  have hsplit : js "UPDATE " ++ target ++ js " SET " ++
      join (set.map (equalityText engine)) (js ", ") ++ js " WHERE " ++ whereSql where_ engine ++
        limitOne engine =
      js "UPDATE" ++ cu ' ' :: (target ++ cu ' ' :: (js "SET" ++ cu ' ' ::
        (join (set.map (equalityText engine)) (js ", ") ++ cu ' ' :: (js "WHERE" ++ cu ' ' ::
          (whereSql where_ engine ++ limitOne engine))))) := by
    simp only [List.append_assoc]
    rfl
  have hblank : ∀ rest, Cuts (cu ' ' :: rest) := cuts_cons (.inl rfl)
  rw [hsplit]
  refine (itemsOf_keyword engine (by decide) (by decide) (by decide) (by decide) _).trans ?_
  rw [itemsOf_tableRef h (hblank _), itemsOf_blank]
  rw [show itemsOf engine (js "SET" ++ cu ' ' :: (join (set.map (equalityText engine)) (js ", ") ++
      cu ' ' :: (js "WHERE" ++ cu ' ' :: (whereSql where_ engine ++ limitOne engine)))) = _ from
    itemsOf_keyword engine (by decide) (by decide) (by decide) (by decide) _]
  rw [itemsOf_setSql engine set (hblank _), itemsOf_blank]
  rw [show itemsOf engine (js "WHERE" ++ cu ' ' :: (whereSql where_ engine ++ limitOne engine)) = _ from
    itemsOf_keyword engine (by decide) (by decide) (by decide) (by decide) _]
  rw [itemsOf_whereSql engine where_ (cuts_limitOne engine), itemsOf_limitOne, updateItems]
  simp only [List.append_assoc, List.cons_append, List.nil_append]
  rfl

theorem itemsOf_delete (h : tableRef table schema engine = .ok target)
    (where_ : List (JsString × Option JsString)) :
    itemsOf engine (js "DELETE FROM " ++ target ++ js " WHERE " ++ whereSql where_ engine ++
        limitOne engine) = deleteItems engine table schema where_ := by
  have hsplit : js "DELETE FROM " ++ target ++ js " WHERE " ++ whereSql where_ engine ++
      limitOne engine =
      js "DELETE" ++ cu ' ' :: (js "FROM" ++ cu ' ' :: (target ++ cu ' ' :: (js "WHERE" ++ cu ' ' ::
        (whereSql where_ engine ++ limitOne engine)))) := by
    simp only [List.append_assoc]
    rfl
  have hblank : ∀ rest, Cuts (cu ' ' :: rest) := cuts_cons (.inl rfl)
  rw [hsplit]
  refine (itemsOf_keyword engine (by decide) (by decide) (by decide) (by decide) _).trans ?_
  rw [show itemsOf engine (js "FROM" ++ cu ' ' :: (target ++ cu ' ' :: (js "WHERE" ++ cu ' ' ::
      (whereSql where_ engine ++ limitOne engine)))) = _ from
    itemsOf_keyword engine (by decide) (by decide) (by decide) (by decide) _]
  rw [itemsOf_tableRef h (hblank _), itemsOf_blank]
  rw [show itemsOf engine (js "WHERE" ++ cu ' ' :: (whereSql where_ engine ++ limitOne engine)) = _ from
    itemsOf_keyword engine (by decide) (by decide) (by decide) (by decide) _]
  rw [itemsOf_whereSql engine where_ (cuts_limitOne engine), itemsOf_limitOne, deleteItems]
  simp only [List.append_assoc, List.cons_append, List.nil_append]
  rfl

/-! ## One statement -/

def IsOneStatement (engine : SqlEngine) (text : JsString) : Prop :=
  (sqlStatements (tokensOf engine text)).length = 1

def SqlItem.isOther : SqlItem → Bool
  | .other _ => true
  | _ => false

/-- A text in which nothing but a plain statement is read is one statement. -/
theorem isOneStatement_of_items (hword : .word w ∈ itemsOf engine text)
    (hplain : ∀ item ∈ itemsOf engine text, item.isOther = false) : IsOneStatement engine text := by
  have hstop : ∀ y ∈ tokensOf engine text, y.isTerminator = false := by
    intro y hy
    rw [SqlToken.isTerminator, decide_eq_false_iff_not]
    intro hkind
    have hitem : itemOf engine y = some (.other .terminator) := by
      rw [itemOf, hkind]
    have hother := hplain _ (List.mem_filterMap.mpr ⟨y, hy, hitem⟩)
    cases hother
  have hcontent : (tokensOf engine text).any SqlToken.isContent = true := by
    obtain ⟨y, hy, hitem⟩ := List.mem_filterMap.mp hword
    refine List.any_eq_true.mpr ⟨y, hy, ?_⟩
    by_contra hno
    have hkind : y.kind = .blank ∨ y.kind = .comment ∨ y.kind = .terminator ∨ y.kind =
        .command := by
      rw [SqlToken.isContent] at hno
      cases hk : y.kind <;> simp [hk] at hno ⊢
    rw [itemOf] at hitem
    rcases hkind with hk | hk | hk | hk <;> rw [hk] at hitem <;> cases hitem
  rw [IsOneStatement, sqlStatements, statements_of_no_stop _ _ hstop, hcontent]
  rfl

theorem isOther_equalities (hbetween : between.isOther = false)
    (entries : List (JsString × Option JsString)) :
    ∀ item ∈ equalities between entries, item.isOther = false := by
  have hvalue : ∀ value, (valueItem value).isOther = false := fun value => by cases value <;> rfl
  induction entries with
  | nil => simp [equalities]
  | cons e entries ih =>
    have hone : ∀ item ∈ equality e, item.isOther = false := by
      intro item hitem
      simp only [equality, List.mem_cons, List.not_mem_nil, or_false] at hitem
      rcases hitem with rfl | rfl | rfl
      · rfl
      · rfl
      · exact hvalue e.2
    cases entries with
    | nil => simpa [equalities] using hone
    | cons e' entries =>
      have hitems : equalities between (e :: e' :: entries) =
          equality e ++ between :: equalities between (e' :: entries) := by
        simp [equalities, List.intercalate_cons_cons]
      rw [hitems]
      intro item hitem
      rcases List.mem_append.mp hitem with h | h
      · exact hone item h
      · rcases List.mem_cons.mp h with rfl | h
        · exact hbetween
        · exact ih item h

theorem isOther_target (table : JsString) (schema : Option JsString) :
    ∀ item ∈ targetItems table schema, item.isOther = false := by
  rw [targetItems]
  split <;> simp [SqlItem.isOther]

theorem isOther_limit (engine : SqlEngine) : ∀ item ∈ limitItems engine, item.isOther = false := by
  rw [limitItems]
  split <;> simp [SqlItem.isOther]

/-! ## The target -/

/-- The columns named are those of the row: `where_` has every column of the primary key once, with
a value, and `set` only columns that are known and not of the primary key. -/
structure OnTarget (columns : List ColumnInfo) (where_ set : List (JsString × Option JsString)) :
    Prop where
  where_keys : (where_.map Prod.fst).Perm (primaryKey columns)
  values : ∀ e ∈ where_, e.2 ≠ none
  known : ∀ e ∈ set, e.1 ∈ columns.map ColumnInfo.name
  not_key : ∀ e ∈ set, e.1 ∉ primaryKey columns

theorem assertKeys_ok {known pk keys : List JsString} (h : assertKeys known pk keys = .ok ()) :
    ∀ key ∈ keys, key ∈ known ∧ key ∉ pk := by
  induction keys with
  | nil => simp
  | cons key keys ih =>
    rw [assertKeys] at h
    split at h
    · cases h
    · rename_i hknown
      split at h
      · cases h
      · rename_i hkey
        intro k hk
        rcases List.mem_cons.mp hk with rfl | hk
        · exact ⟨not_not.mp hknown, hkey⟩
        · exact ih h k hk

theorem onTarget_of_assertRowTarget {columns : TableColumns} {where_ set : RowFields}
    {pk : List JsString}
    (h : assertRowTarget columns.columns where_.entries set.entries = .ok pk) :
    OnTarget columns.columns where_.entries set.entries := by
  have hpk : (primaryKey columns.columns).Nodup :=
    List.Nodup.sublist (List.Sublist.map _ List.filter_sublist) columns.nodup
  rw [assertRowTarget] at h
  split at h
  · cases h
  split at h
  · cases h
  rename_i hexact
  obtain ⟨hlen, hall⟩ := not_not.mp hexact
  split at h
  · cases h
  rename_i hnull
  cases hkeys : assertKeys (columns.columns.map (·.name)) (primaryKey columns.columns)
      (set.entries.map Prod.fst) with
  | error e =>
    rw [hkeys] at h
    cases h
  | ok u =>
    have hsub : primaryKey columns.columns ⊆ where_.entries.map Prod.fst := by
      intro k hk
      exact of_decide_eq_true (List.all_eq_true.mp hall k hk)
    have hperm : (where_.entries.map Prod.fst).Perm (primaryKey columns.columns) :=
      ((hpk.subperm hsub).perm_of_length_le hlen.le).symm
    have hset := assertKeys_ok hkeys
    refine ⟨hperm, fun e he hnone => hnull ?_, fun e he => ?_, fun e he => ?_⟩
    · refine List.any_eq_true.mpr ⟨e.1, hperm.mem_iff.mp (List.mem_map_of_mem he), ?_⟩
      rw [Assoc.get_of_mem where_.nodup he, hnone]
      rfl
    · exact (hset e.1 (List.mem_map_of_mem he)).1
    · exact (hset e.1 (List.mem_map_of_mem he)).2

theorem ok_of_bind {ε α β : Type} {x : Except ε α} {f : α → Except ε β} {b : β}
    (h : (x >>= f) = .ok b) : ∃ a, x = .ok a ∧ f a = .ok b := by
  cases x with
  | error e => cases h
  | ok a => exact ⟨a, rfl, h⟩

variable {columns : List ColumnInfo} {where_ : List (JsString × Option JsString)}

theorem updateStatement_ok {set : List (JsString × Option JsString)}
    (h : updateStatement engine columns table schema where_ set = .ok text) :
    (∃ pk, assertRowTarget columns where_ set = .ok pk) ∧
      itemsOf engine text = updateItems engine table schema where_ set := by
  rw [updateStatement] at h
  split at h
  · cases h
  obtain ⟨t, htable, h⟩ := ok_of_bind h
  obtain ⟨pk, hrow, h⟩ := ok_of_bind h
  obtain ⟨target, htarget, h⟩ := ok_of_bind h
  rw [assertIdentifier_ok htable] at htarget
  refine ⟨⟨pk, hrow⟩, ?_⟩
  rw [← itemsOf_update htarget where_ set]
  exact congrArg (itemsOf engine) (Except.ok.inj h).symm

theorem deleteStatement_ok (h : deleteStatement engine columns table schema where_ = .ok text) :
    (∃ pk, assertRowTarget columns where_ [] = .ok pk) ∧
      itemsOf engine text = deleteItems engine table schema where_ := by
  rw [deleteStatement] at h
  obtain ⟨t, htable, h⟩ := ok_of_bind h
  obtain ⟨pk, hrow, h⟩ := ok_of_bind h
  obtain ⟨target, htarget, h⟩ := ok_of_bind h
  rw [assertIdentifier_ok htable] at htarget
  refine ⟨⟨pk, hrow⟩, ?_⟩
  rw [← itemsOf_delete htarget where_]
  exact congrArg (itemsOf engine) (Except.ok.inj h).symm

end Aoox.RowStatements
