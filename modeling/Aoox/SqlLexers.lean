import Aoox.JsString
import Aoox.Lexing

/-! # How the two clients read SQL

The lexical rules of the `mysql`/`mariadb` client and of `psql`, as far as they
decide where a statement ends: strings and their escapes, quoted identifiers,
comments, terminators and the commands a client carries out itself.  All special
characters are ASCII, so reading code units and reading the bytes the client is
given come to the same.

Neither client rejects a text for a quote or a comment that is never closed: it
reads to the end, and what it has then is the last statement.
-/
namespace Aoox
open Lexing JsString

inductive SqlKind
  | blank
  | comment
  | word
  | symbol
  | string
  /-- A quoted identifier. -/
  | name
  /-- Ends a statement. -/
  | terminator
  | command
deriving DecidableEq

/-- A token of a client's input. -/
abbrev SqlToken := Token SqlKind CodeUnit

/-- The token ends a statement. -/
def SqlToken.isTerminator (y : SqlToken) : Bool := y.kind = .terminator

/-- The token is part of what the server is asked to do. -/
def SqlToken.isContent (y : SqlToken) : Bool :=
  match y.kind with
  | .word | .symbol | .string | .name => true
  | .blank | .comment | .terminator | .command => false

theorem SqlToken.not_isContent_of_isTerminator (y : SqlToken) (h : y.isTerminator) :
    y.isContent = false := by
  simp only [isTerminator, decide_eq_true_eq] at h
  simp [isContent, h]

def sqlStatements (ts : List SqlToken) : List (List SqlToken) :=
  statements SqlToken.isTerminator SqlToken.isContent ts

/-! ## What both have -/

/-- Space, tab, newline, vertical tab, form feed and carriage return. -/
def isBlank (c : CodeUnit) : Bool := (9 ≤ c && c ≤ 13) || c == 32

/-- An ASCII letter, an underscore or a character outside ASCII. -/
def isIdentStart (c : CodeUnit) : Bool := isLetter c || c == cu '_' || 0x80 ≤ c

/-- What may follow in an identifier. -/
def isIdentCont (c : CodeUnit) : Bool := isIdentStart c || isDigit c || c == cu '$'

/-- The length of the longest prefix of which every unit passes the test. -/
def runLength (p : CodeUnit → Bool) (cs : JsString) : Nat := (cs.takeWhile p).length

/-- The length of a quoted text behind its opening quote, the closing one
included.  A doubled quote stands for itself, and where `escapes` is set so does
whatever follows a backslash. -/
def quotedLength (q : CodeUnit) (escapes : Bool) : JsString → Nat
  | [] => 0
  | [_] => 1
  | c :: d :: cs =>
    if (escapes && c == cu '\\') || (c == q && d == q) then 2 + quotedLength q escapes cs
    else if c == q then 1
    else 1 + quotedLength q escapes (d :: cs)

/-- The length of a block comment behind its opening, the closing included.  The
number counts the comments opened inside it, where comments nest. -/
def blockLength (nests : Bool) : Nat → JsString → Nat
  | _, [] => 0
  | _, [_] => 1
  | depth, c :: d :: cs =>
    if c == cu '*' && d == cu '/' then
      match depth with
      | 0 => 2
      | depth + 1 => 2 + blockLength nests depth cs
    else if nests && c == cu '/' && d == cu '*' then 2 + blockLength nests (depth + 1) cs
    else 1 + blockLength nests depth (d :: cs)

/-- A word that starts with a letter, or a number and the letters that stick to
it. -/
def wordLength (c : CodeUnit) (cs : JsString) : Nat :=
  if isDigit c then
    let digits := runLength isDigit cs
    match cs.drop digits with
    | d :: _ => if isIdentStart d then digits + runLength isIdentCont (cs.drop digits) else digits
    | [] => digits
  else runLength isIdentCont cs

/-! What a lexer can answer is said once, as a rule with one case for each kind of
lexeme; the facts about it are read off that rule. -/

/-- A choice between two lexemes has a property if both have it. -/
theorem ite_rule {σ : Type} {P : SqlKind → Nat → Prop} {p : Prop} [Decidable p]
    {x y : Lexeme SqlKind σ} (hx : p → P x.kind x.more) (hy : ¬ p → P y.kind y.more) :
    P (if p then x else y).kind (if p then x else y).more := by
  by_cases hp : p
  · rw [if_pos hp]
    exact hx hp
  · rw [if_neg hp]
    exact hy hp

theorem isPrefix_pair {c d e : CodeUnit} {cs : JsString}
    (h : (c == d && cs.head? == some e) = true) : [d, e] <+: c :: cs := by
  rw [Bool.and_eq_true, beq_iff_eq, beq_iff_eq] at h
  obtain ⟨rfl, he⟩ := h
  obtain ⟨ds, rfl⟩ := List.head?_eq_some_iff.mp he
  exact ⟨ds, rfl⟩

/-! ## The `mysql` and `mariadb` clients -/

namespace MySql

/-- The next lexeme.  Backslash escapes work in single and double quotes and not
between backticks.  `--` opens a comment when a blank or the end follows, and
`/*!` does not open one: what stands in it is executed.  Outside quotes a
backslash takes the next character with it; `\g` and `\G` end a statement. -/
def next (_ : Unit) (c : CodeUnit) (cs : JsString) : Lexeme SqlKind Unit :=
  if isBlank c then ⟨.blank, 0, ()⟩
  else if c == cu '\'' || c == cu '"' then ⟨.string, quotedLength c true cs, ()⟩
  else if c == cu '\x60' then ⟨.name, quotedLength c false cs, ()⟩
  else if c == cu '#' then ⟨.comment, runLength (· != cu '\n') cs, ()⟩
  else if c == cu '-' && cs.head? == some (cu '-') && (cs.drop 1).head?.all isBlank then
    ⟨.comment, runLength (· != cu '\n') cs, ()⟩
  else if c == cu '/' && cs.head? == some (cu '*') then
    if (cs.drop 1).head? == some (cu '!') then ⟨.symbol, 2, ()⟩
    else ⟨.comment, 1 + blockLength false 0 (cs.drop 1), ()⟩
  else if c == cu ';' then ⟨.terminator, 0, ()⟩
  else if c == cu '\\' then
    if cs.head? == some (cu 'g') || cs.head? == some (cu 'G') then ⟨.terminator, 1, ()⟩
    else ⟨.symbol, 1, ()⟩
  else if isIdentStart c || isDigit c then ⟨.word, wordLength c cs, ()⟩
  else ⟨.symbol, 0, ()⟩

def tokens (t : JsString) : List SqlToken := read next () t

def statementsOf (t : JsString) : List (List SqlToken) := sqlStatements (tokens t)

/-- The text is exactly one statement. -/
def OneStatement (t : JsString) : Prop := (statementsOf t).length = 1

instance (t : JsString) : Decidable (OneStatement t) :=
  inferInstanceAs (Decidable (_ = _))

end MySql

/-! ## `psql` -/

namespace Psql

/-- Whether a quote would continue the last string, which was one with escapes:
two strings with nothing but blanks, line comments and a newline between them are
one string. -/
inductive Continues
  /-- No. -/
  | no
  /-- Once a newline has been passed. -/
  | behindNewline
  | yes
deriving DecidableEq

/-- The state between two tokens. -/
structure State where
  /-- The number of open parentheses; a `;` inside them ends nothing. -/
  depth : Nat
  continues : Continues

def start : State := ⟨0, .no⟩

/-- Behind a token that no string reaches across. -/
def State.plain (s : State) : State := { s with continues := .no }

def State.overBlank (s : State) (c : CodeUnit) : State :=
  if s.continues = .behindNewline ∧ (c = cu '\n' ∨ c = cu '\r') then { s with continues := .yes }
  else s

def State.overEscapes (s : State) : State := { s with continues := .behindNewline }

/-- The tag of a dollar quote that opens with a `$` and goes on with the text. -/
def dollarTag (cs : JsString) : Option JsString :=
  let tag := cs.takeWhile (fun c => isIdentStart c || isDigit c)
  if tag.head?.all isIdentStart && (cs.drop tag.length).head? == some (cu '$') then some tag
  else none

/-- The length of a dollar-quoted text behind its first `$`. -/
def dollarLength (tag cs : JsString) : Nat :=
  let delimiter := cu '$' :: tag ++ [cu '$']
  let body := cs.drop (tag.length + 1)
  match indexOf delimiter body 0 with
  | some i => tag.length + 1 + i + delimiter.length
  | none => tag.length + 1 + body.length

/-- Up to the end of the line. -/
def lineLength (cs : JsString) : Nat := runLength (fun c => c != cu '\n' && c != cu '\r') cs

/-- The next lexeme.  Backslash escapes work in `E'…'` only, dollar quotes take
everything up to their own closing, block comments nest.  Outside quotes `\;` puts
a semicolon into what is sent to the server and so ends a statement, `\:` is a
colon, and every other backslash opens a command, whose arguments go to the end
of the line. -/
def next (s : State) (c : CodeUnit) (cs : JsString) : Lexeme SqlKind State :=
  if isBlank c then ⟨.blank, 0, s.overBlank c⟩
  else if c == cu '-' && cs.head? == some (cu '-') then ⟨.comment, lineLength cs, s⟩
  else if c == cu '/' && cs.head? == some (cu '*') then
    ⟨.comment, 1 + blockLength true 0 (cs.drop 1), s.plain⟩
  else if c == cu '\'' then
    if s.continues = .yes then ⟨.string, quotedLength c true cs, s.overEscapes⟩
    else ⟨.string, quotedLength c false cs, s.plain⟩
  else if (c == cu 'e' || c == cu 'E') && cs.head? == some (cu '\'') then
    ⟨.string, 1 + quotedLength (cu '\'') true (cs.drop 1), s.overEscapes⟩
  else if c == cu '"' then ⟨.name, quotedLength c false cs, s.plain⟩
  else if c == cu '$' then
    match dollarTag cs with
    | some tag => ⟨.string, dollarLength tag cs, s.plain⟩
    | none => ⟨.symbol, 0, s.plain⟩
  else if c == cu '\\' then
    if cs.head? == some (cu ';') then ⟨.terminator, 1, s.plain⟩
    else if cs.head? == some (cu ':') then ⟨.symbol, 1, s.plain⟩
    else ⟨.command, lineLength cs, s.plain⟩
  else if c == cu ';' then
    if s.depth = 0 then ⟨.terminator, 0, s.plain⟩ else ⟨.symbol, 0, s.plain⟩
  else if c == cu '(' then ⟨.symbol, 0, { s.plain with depth := s.depth + 1 }⟩
  else if c == cu ')' then ⟨.symbol, 0, { s.plain with depth := s.depth - 1 }⟩
  else if isIdentStart c || isDigit c then ⟨.word, wordLength c cs, s.plain⟩
  else ⟨.symbol, 0, s.plain⟩

theorem next_rule {P : SqlKind → Nat → Prop} (s : State) (c : CodeUnit) (cs : JsString)
    (blank : isBlank c → P .blank 0)
    (comment : ∀ n, js "--" <+: c :: cs ∨ js "/*" <+: c :: cs → P .comment n)
    (string : ∀ escapes, c = cu '\'' → P .string (quotedLength c escapes cs))
    (escape : c = cu 'e' ∨ c = cu 'E' → cs.head? = some (cu '\'') →
      P .string (1 + quotedLength (cu '\'') true (cs.drop 1)))
    (name : c = cu '"' → P .name (quotedLength c false cs))
    (dollar : ∀ k n, k ≠ .command → c = cu '$' → P k n)
    (separator : c = cu '\\' → cs.head? = some (cu ';') → P .terminator 1)
    (colon : c = cu '\\' → cs.head? = some (cu ':') → P .symbol 1)
    (command : c = cu '\\' → cs.head? ≠ some (cu ';') → cs.head? ≠ some (cu ':') →
      P .command (lineLength cs))
    (semicolon : ∀ k, k = .terminator ∨ k = .symbol → c = cu ';' → P k 0)
    (word : isIdentStart c || isDigit c → P .word (wordLength c cs))
    (symbol : c ≠ cu '\'' → c ≠ cu '"' → c ≠ cu '\\' → P .symbol 0) :
    P (next s c cs).kind (next s c cs).more := by
  unfold next
  refine ite_rule (fun h => blank h) (fun _ => ?_)
  refine ite_rule (fun h => comment _ (Or.inl (isPrefix_pair h))) (fun _ => ?_)
  refine ite_rule (fun h => comment _ (Or.inr (isPrefix_pair h))) (fun _ => ?_)
  refine ite_rule (fun h => ?_) (fun hstring => ?_)
  · have hquote : c = cu '\'' := by simpa using h
    exact ite_rule (fun _ => string _ hquote) (fun _ => string _ hquote)
  refine ite_rule (fun h => ?_) (fun _ => ?_)
  · simp only [Bool.and_eq_true, Bool.or_eq_true, beq_iff_eq] at h
    exact escape h.1 h.2
  refine ite_rule (fun h => name (by simpa using h)) (fun hname => ?_)
  refine ite_rule (fun h => ?_) (fun _ => ?_)
  · have hdollar : c = cu '$' := by simpa using h
    split
    · exact dollar _ _ (fun hk => by cases hk) hdollar
    · exact dollar _ _ (fun hk => by cases hk) hdollar
  refine ite_rule (fun h => ?_) (fun hback => ?_)
  · have hslash : c = cu '\\' := by simpa using h
    refine ite_rule (fun hs => separator hslash (by simpa using hs)) (fun hs => ?_)
    refine ite_rule (fun hc => colon hslash (by simpa using hc)) (fun hc => ?_)
    exact command hslash (by simpa using hs) (by simpa using hc)
  refine ite_rule (fun h => ?_) (fun _ => ?_)
  · have hsemi : c = cu ';' := by simpa using h
    exact ite_rule (fun _ => semicolon _ (Or.inl rfl) hsemi)
      (fun _ => semicolon _ (Or.inr rfl) hsemi)
  simp only [beq_iff_eq] at hstring hname hback
  refine ite_rule (fun _ => symbol hstring hname hback) (fun _ => ?_)
  refine ite_rule (fun _ => symbol hstring hname hback) (fun _ => ?_)
  exact ite_rule (fun h => word h) (fun _ => symbol hstring hname hback)

def tokens (s : State) (t : JsString) : List SqlToken := read next s t

def statementsOf (t : JsString) : List (List SqlToken) := sqlStatements (tokens start t)

/-- The text is exactly one statement. -/
def OneStatement (t : JsString) : Prop := (statementsOf t).length = 1

/-- No command to `psql` stands outside quotes and comments. -/
def NoCommand (s : State) (t : JsString) : Prop := ∀ y ∈ tokens s t, y.kind ≠ .command

instance (t : JsString) : Decidable (OneStatement t) :=
  inferInstanceAs (Decidable (_ = _))

instance (s : State) (t : JsString) : Decidable (NoCommand s t) :=
  inferInstanceAs (Decidable (∀ y ∈ tokens s t, y.kind ≠ .command))

end Psql
end Aoox
