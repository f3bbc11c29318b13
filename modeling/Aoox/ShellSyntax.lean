import Mathlib.Data.List.Basic

/-! # Reading a shell script

The part of the POSIX shell language that scripts put together by a program need: words with
quotes, variables and command substitutions, redirections of output, pipelines, `&&`, `||`,
`;`, groups and assignments.  What is not covered is refused, never read as something else.

The characters are those of any alphabet that has the ASCII ones (`Alphabet`).  A script is
scanned one character after the other (`Scan.step`), and a step does not look at what has been
read before (`scan_behind`).  So a script that a program puts together can be read without
knowing what is filled in (`lexes_spaced`, `lexes_lines`), if only each of these texts adds to
the word it stands in: ordinary characters do (`scan_plain`), and so does any text in quotes
(`scan_quote`).
-/
open List Bool
namespace Shell

/-- An alphabet with the ASCII characters. -/
class Alphabet (C : Type) where
  sign : Char → C
  sign_inj : ∀ a b : Char, a.toNat < 128 → b.toNat < 128 → sign a = sign b → a = b

export Alphabet (sign)

section Signs
variable {C : Type} [Alphabet C]

theorem sign_eq_iff {a b : Char} (ha : a.toNat < 128) (hb : b.toNat < 128) :
    sign (C := C) a = sign b ↔ a = b :=
  ⟨Alphabet.sign_inj a b ha hb, congrArg sign⟩

end Signs

/-! ## Words and tokens -/

/-- A piece of a word.  What stands in quotes is neither split nor a pattern. -/
inductive Piece (C : Type) where
  | char (c : C) (quoted : Bool)
  /-- A pair of quotes, whatever stands in them. -/
  | quotes
  | var (name : List C) (quoted : Bool)
  /-- `$(text)`. -/
  | sub (text : List C) (quoted : Bool)
  deriving DecidableEq

abbrev Word (C : Type) := List (Piece C)

inductive Token (C : Type) where
  | word (w : Word C)
  | and
  | or
  | pipe
  /-- `;` or the end of a line. -/
  | semi
  /-- `>`, or `2>`. -/
  | redirect (err : Bool)
  /-- `2>&`. -/
  | dupErr
  deriving DecidableEq

inductive Quote where
  | none
  | single
  | double
  deriving DecidableEq

/-- Where the scan of a text is. -/
inductive Mode (C : Type) where
  | plain
  | single
  | double
  | escape (double : Bool)
  /-- Behind a `$`. -/
  | dollar (double : Bool)
  | name (double : Bool) (read : List C)
  | sub (double : Bool) (inner : Quote) (read : List C)
  | ampersand
  | bar
  | greater (err : Bool)
  /-- The text is none of ours. -/
  | bad
  deriving DecidableEq

/-- What has been read of a text. -/
structure Scan (C : Type) where
  mode : Mode C
  /-- The pieces of the word that has begun. -/
  word : Option (Word C)
  tokens : List (Token C)

section Scanning
variable {C : Type} [DecidableEq C] [Alphabet C]

def letters : List C :=
  ['a', 'b', 'c', 'd', 'e', 'f', 'g', 'h', 'i', 'j', 'k', 'l', 'm', 'n', 'o', 'p'].map sign ++
  ['q', 'r', 's', 't', 'u', 'v', 'w', 'x', 'y', 'z', '_'].map sign ++
  ['A', 'B', 'C', 'D', 'E', 'F', 'G', 'H', 'I', 'J', 'K', 'L', 'M', 'N', 'O', 'P'].map sign ++
  ['Q', 'R', 'S', 'T', 'U', 'V', 'W', 'X', 'Y', 'Z'].map sign

def digits : List C := ['0', '1', '2', '3', '4', '5', '6', '7', '8', '9'].map sign

/-- A space or a tab. -/
def isBlank (c : C) : Bool := c = sign ' ' || c = sign '\t'

namespace Scan
variable (s : Scan C)

def into (mode : Mode C) : Scan C := { s with mode := mode }

def put (p : Piece C) : Scan C := { s with word := some (s.word.getD [] ++ [p]) }

/-- The word that has begun ends. -/
def close : Scan C :=
  match s.word with
  | none => s
  | some w => { s with word := none, tokens := s.tokens ++ [.word w] }

def emit (t : Token C) : Scan C := ⟨.plain, none, s.close.tokens ++ [t]⟩

/-- A `>`: a `1` or a `2` right in front of it belongs to it. -/
def redirect : Scan C :=
  match s.word with
  | some [.char c false] =>
    if c = sign '2' then ⟨.greater true, none, s.tokens⟩
    else if c = sign '1' then ⟨.greater false, none, s.tokens⟩
    else if c ∈ digits then s.into .bad
    else s.close.into (.greater false)
  | _ => s.close.into (.greater false)

/-- A character outside quotes. -/
def plainStep (c : C) : Scan C :=
  if isBlank c then s.close.into .plain
  else if c = sign ';' ∨ c = sign '\n' then s.emit .semi
  else if c = sign '\'' then (s.put .quotes).into .single
  else if c = sign '"' then (s.put .quotes).into .double
  else if c = sign '\\' then s.into (.escape false)
  else if c = sign '$' then s.into (.dollar false)
  else if c = sign '&' then s.close.into .ampersand
  else if c = sign '|' then s.close.into .bar
  else if c = sign '>' then s.redirect
  else if c = sign '(' ∨ c = sign ')' ∨ c = sign '<' ∨ c = sign '`' ∨ c = sign '#' then s.into .bad
  else (s.put (.char c false)).into .plain

/-- A character between double quotes. -/
def doubleStep (c : C) : Scan C :=
  if c = sign '"' then s.into .plain
  else if c = sign '\\' then s.into (.escape true)
  else if c = sign '$' then s.into (.dollar true)
  else if c = sign '`' then s.into .bad
  else (s.put (.char c true)).into .double

/-- A character where the text goes on as it was. -/
def backStep (double : Bool) (c : C) : Scan C := if double then s.doubleStep c else s.plainStep c

def back (double : Bool) : Scan C := s.into (if double then .double else .plain)

def escapeStep (double : Bool) (c : C) : Scan C :=
  if c = sign '\n' then s.back double
  else if !double || c = sign '$' || c = sign '`' || c = sign '"' || c = sign '\\' then
    (s.put (.char c true)).back double
  else ((s.put (.char (sign '\\') true)).put (.char c true)).back double

def dollarStep (double : Bool) (c : C) : Scan C :=
  if c = sign '(' then s.into (.sub double .none [])
  else if c = sign '?' then (s.put (.var [c] double)).back double
  else if c ∈ letters then s.into (.name double [c])
  else if c = sign '{' ∨ c ∈ digits then s.into .bad
  else (s.put (.char (sign '$') double)).backStep double c

def nameStep (double : Bool) (read : List C) (c : C) : Scan C :=
  if c ∈ letters ∨ c ∈ digits then s.into (.name double (read ++ [c]))
  else (s.put (.var read double)).backStep double c

/-- The text of a substitution is read as it stands, up to its end. -/
def subStep (double : Bool) (inner : Quote) (read : List C) (c : C) : Scan C :=
  match inner with
  | .none =>
    if c = sign ')' then (s.put (.sub read double)).back double
    else if c = sign '\'' then s.into (.sub double .single (read ++ [c]))
    else if c = sign '"' then s.into (.sub double .double (read ++ [c]))
    else if c = sign '(' ∨ c = sign '\\' then s.into .bad
    else s.into (.sub double .none (read ++ [c]))
  | .single => s.into (.sub double (if c = sign '\'' then .none else .single) (read ++ [c]))
  | .double =>
    if c = sign '\\' then s.into .bad
    else s.into (.sub double (if c = sign '"' then .none else .double) (read ++ [c]))

/-- One character more. -/
def step (c : C) : Scan C :=
  match s.mode with
  | .plain => s.plainStep c
  | .single => if c = sign '\'' then s.into .plain else s.put (.char c true)
  | .double => s.doubleStep c
  | .escape double => s.escapeStep double c
  | .dollar double => s.dollarStep double c
  | .name double read => s.nameStep double read c
  | .sub double inner read => s.subStep double inner read c
  | .ampersand => if c = sign '&' then s.emit .and else s.into .bad
  | .bar => if c = sign '|' then s.emit .or else (s.emit .pipe).plainStep c
  | .greater err =>
    if c = sign '&' then (if err then s.emit .dupErr else s.into .bad)
    else if c = sign '>' then s.into .bad
    else (s.emit (.redirect err)).plainStep c
  | .bad => s

/-- The tokens of a text that ends here. -/
def finish : Option (List (Token C)) :=
  match s.mode with
  | .plain => some s.close.tokens
  | .name false read => some (s.put (.var read false)).close.tokens
  | .dollar false => some (s.put (.char (sign '$') false)).close.tokens
  | _ => none

end Scan

/-- Nothing has been read yet. -/
def start : Scan C := ⟨.plain, none, []⟩

def scan (s : Scan C) (text : List C) : Scan C := text.foldl Scan.step s

def lex (text : List C) : Option (List (Token C)) := (scan start text).finish

/-! ## Commands -/

/-- Where the output of a command goes. -/
inductive Redirect (C : Type) where
  | toFile (err : Bool) (target : Word C)
  /-- `2>&1`. -/
  | errToOut
  deriving DecidableEq

inductive Command (C : Type) where
  | simple (assigns : List (List C × Word C)) (words : List (Word C)) (redirects : List (Redirect C))
  | pipe (c d : Command C)
  | and (c d : Command C)
  | or (c d : Command C)
  | seq (c d : Command C)
  deriving DecidableEq

/-- `name=value`; the first argument is the part of the name that has been read. -/
def assignment (read : List C) : Word C → Option (List C × Word C)
  | .char c false :: ps =>
    if c = sign '=' then (if read = [] then none else some (read, ps))
    else if c ∈ letters ∨ (c ∈ digits ∧ read ≠ []) then assignment (read ++ [c]) ps
    else none
  | _ => none

/-- The assignments in front of a command. -/
def assignments : List (Word C) → List (List C × Word C) × List (Word C)
  | [] => ([], [])
  | w :: ws =>
    match assignment [] w with
    | some a => (a :: (assignments ws).1, (assignments ws).2)
    | none => ([], w :: ws)

/-- The words and redirections at the head of some tokens, and the tokens behind them. -/
def simpleParts : List (Token C) → List (Word C) × List (Redirect C) × List (Token C)
  | .word w :: ts => (w :: (simpleParts ts).1, (simpleParts ts).2)
  | .redirect err :: .word w :: ts =>
    ((simpleParts ts).1, .toFile err w :: (simpleParts ts).2.1, (simpleParts ts).2.2)
  | .dupErr :: .word [.char c false] :: ts =>
    if c = sign '1' then
      ((simpleParts ts).1, .errToOut :: (simpleParts ts).2.1, (simpleParts ts).2.2)
    else ([], [], .dupErr :: .word [.char c false] :: ts)
  | ts => ([], [], ts)

def parseSimple (ts : List (Token C)) : Option (Command C × List (Token C)) :=
  match simpleParts ts with
  | ([], [], _) => none
  | (words, redirects, rest) =>
    some (.simple (assignments words).1 (assignments words).2 redirects, rest)

/-- A word that stands for itself, such as `{`. -/
def reserved (c : Char) : Token C := .word [.char (sign c) false]

def skipSemis : List (Token C) → List (Token C)
  | .semi :: ts => skipSemis ts
  | ts => ts

mutual

/-- A simple command or a group. -/
def parseCommand : Nat → List (Token C) → Option (Command C × List (Token C))
  | 0, _ => none
  | n + 1, ts =>
    if ts.head? = some (reserved '{') then
      match parseList n ts.tail with
      | some (c, rest) => if rest.head? = some (reserved '}') then some (c, rest.tail) else none
      | none => none
    else parseSimple ts

def parsePipeline : Nat → List (Token C) → Option (Command C × List (Token C))
  | 0, _ => none
  | n + 1, ts =>
    match parseCommand n ts with
    | some (c, .pipe :: rest) => (parsePipeline n rest).map fun r => (.pipe c r.1, r.2)
    | r => r

/-- The pipelines behind `c`. -/
def parseAndOr : Nat → Command C → List (Token C) → Option (Command C × List (Token C))
  | 0, _, _ => none
  | n + 1, c, ts =>
    match ts with
    | .and :: rest => (parsePipeline n rest).bind fun r => parseAndOr n (.and c r.1) r.2
    | .or :: rest => (parsePipeline n rest).bind fun r => parseAndOr n (.or c r.1) r.2
    | _ => some (c, ts)

def parseList : Nat → List (Token C) → Option (Command C × List (Token C))
  | 0, _ => none
  | n + 1, ts =>
    match (parsePipeline n ts).bind fun r => parseAndOr n r.1 r.2 with
    | some (c, .semi :: rest) =>
      if skipSemis rest = [] ∨ (skipSemis rest).head? = some (reserved '}') then
        some (c, skipSemis rest)
      else (parseList n (skipSemis rest)).map fun r => (.seq c r.1, r.2)
    | r => r

end

def parse (text : List C) : Option (Command C) :=
  (lex text).bind fun ts =>
    match parseList (4 * ts.length + 4) (skipSemis ts) with
    | some (c, []) => some c
    | _ => none

/-! ## Reading a text piece by piece -/

theorem scan_append (s : Scan C) (t t' : List C) : scan s (t ++ t') = scan (scan s t) t' :=
  List.foldl_append

@[simp]
theorem scan_nil (s : Scan C) : scan s [] = s := rfl

theorem scan_cons (s : Scan C) (c : C) (t : List C) : scan s (c :: t) = scan (s.step c) t := rfl

/-! What has been read before does not matter. -/

namespace Scan
variable (s : Scan C) (ts : List (Token C))

def behind : Scan C := { s with tokens := ts ++ s.tokens }

omit [DecidableEq C] [Alphabet C] in
theorem into_behind (mode : Mode C) : (s.behind ts).into mode = (s.into mode).behind ts := rfl

omit [DecidableEq C] [Alphabet C] in
theorem put_behind (p : Piece C) : (s.behind ts).put p = (s.put p).behind ts := rfl

omit [DecidableEq C] [Alphabet C] in
theorem close_behind : (s.behind ts).close = s.close.behind ts := by
  obtain ⟨mode, word, tokens⟩ := s
  cases word with
  | none => rfl
  | some w => simp [close, behind]

omit [DecidableEq C] [Alphabet C] in
theorem emit_behind (t : Token C) : (s.behind ts).emit t = (s.emit t).behind ts := by
  rw [emit, emit, close_behind]
  simp [behind]

theorem redirect_behind : (s.behind ts).redirect = s.redirect.behind ts := by
  obtain ⟨mode, word, tokens⟩ := s
  unfold redirect
  simp only [behind]
  split
  · split_ifs
    · rfl
    · rfl
    · rfl
    · exact congrArg (fun s => into s (.greater false)) (close_behind ⟨mode, _, tokens⟩ ts)
  · exact congrArg (fun s => into s (.greater false)) (close_behind ⟨mode, word, tokens⟩ ts)

omit [DecidableEq C] [Alphabet C] in
theorem behind_ite {p : Prop} [Decidable p] (s s' : Scan C) :
    (if p then s else s').behind ts = if p then s.behind ts else s'.behind ts :=
  apply_ite (fun s => s.behind ts) p s s'

theorem plainStep_behind (c : C) : (s.behind ts).plainStep c = (s.plainStep c).behind ts := by
  unfold plainStep
  simp only [close_behind, into_behind, put_behind, emit_behind, redirect_behind, behind_ite]

theorem doubleStep_behind (c : C) : (s.behind ts).doubleStep c = (s.doubleStep c).behind ts := by
  unfold doubleStep
  simp only [into_behind, put_behind, behind_ite]

theorem backStep_behind (double : Bool) (c : C) :
    (s.behind ts).backStep double c = (s.backStep double c).behind ts := by
  unfold backStep
  split
  · exact doubleStep_behind s ts c
  · exact plainStep_behind s ts c

/-- **A step does not look at the tokens** that have been read. -/
theorem step_behind (c : C) : (s.behind ts).step c = (s.step c).behind ts := by
  have hmode : (s.behind ts).mode = s.mode := rfl
  unfold step
  rw [hmode]
  cases s.mode with
  | plain => exact plainStep_behind s ts c
  | single => simp only [into_behind, put_behind, behind_ite]
  | double => exact doubleStep_behind s ts c
  | escape double =>
    simp only [escapeStep, back, into_behind, put_behind, behind_ite]
  | dollar double =>
    simp only [dollarStep, back, into_behind, put_behind, backStep_behind, behind_ite]
  | name double read =>
    simp only [nameStep, into_behind, put_behind, backStep_behind, behind_ite]
  | sub double inner read =>
    cases inner <;> simp only [subStep, back, into_behind, put_behind, behind_ite]
  | ampersand => simp only [into_behind, emit_behind, behind_ite]
  | bar => simp only [emit_behind, plainStep_behind, behind_ite]
  | greater err => simp only [into_behind, emit_behind, plainStep_behind, behind_ite]
  | bad => rfl

end Scan

theorem scan_behind (s : Scan C) (ts : List (Token C)) (t : List C) :
    scan (s.behind ts) t = (scan s t).behind ts := by
  induction t generalizing s with
  | nil => rfl
  | cons c t ih => rw [scan_cons, scan_cons, s.step_behind, ih]

/-- The text adds these pieces to a word, or begins one. -/
def Grows (t : List C) (ps : Word C) : Prop :=
  ∀ w ts, scan ⟨.plain, w, ts⟩ t = ⟨.plain, some (w.getD [] ++ ps), ts⟩

/-- The text is these tokens, whatever stands in front of it. -/
def Lexes (t : List C) (tokens : List (Token C)) : Prop :=
  ∀ ts, (scan ⟨.plain, none, ts⟩ t).mode = .plain ∧
    (scan ⟨.plain, none, ts⟩ t).close.into .plain = ⟨.plain, none, ts ++ tokens⟩

/-- A character that stands for itself. -/
def isOrdinary (c : C) : Bool :=
  !isBlank c && c ≠ sign ';' && c ≠ sign '\n' && c ≠ sign '\'' && c ≠ sign '"' && c ≠ sign '\\' &&
    c ≠ sign '$' && c ≠ sign '&' && c ≠ sign '|' && c ≠ sign '>' && c ≠ sign '(' && c ≠ sign ')' &&
    c ≠ sign '<' && c ≠ sign '`' && c ≠ sign '#'

/-- A character between single quotes; an apostrophe stands outside of them. -/
def escaped (c : C) : List C :=
  if c = sign '\'' then [sign '\'', sign '\\', sign '\'', sign '\''] else [c]

/-- A text in single quotes. -/
def quote (t : List C) : List C := sign '\'' :: (t.flatMap escaped ++ [sign '\''])

def escapedPieces (c : C) : Word C :=
  if c = sign '\'' then [.char (sign '\'') true, .quotes] else [.char c true]

def quotePieces (t : List C) : Word C := .quotes :: t.flatMap escapedPieces

section Pieces
variable {t t' : List C} {ps ps' : Word C} {tokens tokens' : List (Token C)}

theorem Grows.append (h : Grows t ps) (h' : Grows t' ps') : Grows (t ++ t') (ps ++ ps') := by
  intro w ts
  rw [scan_append, h, h', Option.getD_some, append_assoc]

/-- A text of ordinary characters. -/
theorem scan_plain (hne : t ≠ []) (h : t.all isOrdinary = true) :
    Grows t (t.map fun c => .char c false) := by
  have hstep : ∀ (c : C), isOrdinary c = true → ∀ w ts,
      Scan.step ⟨.plain, w, ts⟩ c = ⟨.plain, some (w.getD [] ++ [.char c false]), ts⟩ := by
    intro c hc w ts
    simp only [isOrdinary, and_eq_true, not_eq_true', decide_eq_true_eq, ne_eq] at hc
    simp [Scan.step, Scan.plainStep, hc, Scan.put, Scan.into]
  have hrest : ∀ (t : List C), t.all isOrdinary = true → ∀ w ts,
      scan ⟨.plain, some w, ts⟩ t = ⟨.plain, some (w ++ t.map fun c => .char c false), ts⟩ := by
    intro t
    induction t with
    | nil => simp
    | cons c t ih =>
      intro h w ts
      rw [all_cons, and_eq_true] at h
      rw [scan_cons, hstep c h.1, ih h.2]
      simp
  intro w ts
  obtain ⟨c, t, rfl⟩ := exists_cons_of_ne_nil hne
  rw [all_cons, and_eq_true] at h
  rw [scan_cons, hstep c h.1, hrest t h.2]
  simp

theorem scan_quote (t : List C) : Grows (quote t) (quotePieces t) := by
  have hrest : ∀ (t : List C) (w : Word C) (ts : List (Token C)),
      scan ⟨.single, some w, ts⟩ (t.flatMap escaped) =
        ⟨.single, some (w ++ t.flatMap escapedPieces), ts⟩ := by
    intro t
    induction t with
    | nil => simp
    | cons c t ih =>
      intro w ts
      rw [flatMap_cons, flatMap_cons, scan_append, escaped, escapedPieces]
      by_cases hc : c = sign '\''
      · subst hc
        -- the quotes are closed, the apostrophe stands behind a backslash, and they open again
        have hout : scan ⟨.single, some w, ts⟩ [sign '\'', sign '\\', sign '\'', sign '\''] =
            ⟨.single, some (w ++ [.char (sign '\'') true, .quotes]), ts⟩ := by
          simp (disch := decide) [scan_cons, Scan.step, Scan.plainStep, Scan.escapeStep, isBlank,
            sign_eq_iff,
            Scan.put, Scan.into, Scan.back]
        rw [if_pos rfl, if_pos rfl, hout, ih, append_assoc]
      · have hput : scan ⟨.single, some w, ts⟩ [c] = ⟨.single, some (w ++ [.char c true]), ts⟩ := by
          rw [scan_cons, scan_nil, Scan.step, if_neg hc]
          rfl
        rw [if_neg hc, if_neg hc, hput, ih, append_assoc]
  intro w ts
  have hopen : Scan.step ⟨.plain, w, ts⟩ (sign '\'') = ⟨.single, some (w.getD [] ++ [.quotes]), ts⟩ := by
    simp (disch := decide) [Scan.step, Scan.plainStep, isBlank, sign_eq_iff, Scan.put, Scan.into]
  rw [quote, scan_cons, hopen, scan_append, hrest, scan_cons, Scan.step, if_pos rfl]
  simp [Scan.into, quotePieces]

/-- A text in double quotes, with nothing to fill in. -/
theorem scan_double (h : ∀ c ∈ t, c ≠ sign '"' ∧ c ≠ sign '\\' ∧ c ≠ sign '$' ∧ c ≠ sign '`') :
    Grows (sign '"' :: (t ++ [sign '"'])) (.quotes :: t.map fun c => .char c true) := by
  have hrest : ∀ (t : List C), (∀ c ∈ t, c ≠ sign '"' ∧ c ≠ sign '\\' ∧ c ≠ sign '$' ∧ c ≠ sign '`') →
      ∀ w ts, scan ⟨.double, some w, ts⟩ t = ⟨.double, some (w ++ t.map fun c => .char c true), ts⟩ := by
    intro t
    induction t with
    | nil => simp
    | cons c t ih =>
      intro h w ts
      obtain ⟨h₁, h₂, h₃, h₄⟩ := h c mem_cons_self
      rw [scan_cons]
      simp only [Scan.step, Scan.doubleStep, h₁, h₂, h₃, h₄, if_false, Scan.put, Scan.into]
      rw [ih fun c hc => h c (mem_cons_of_mem _ hc)]
      simp
  intro w ts
  have hopen : Scan.step ⟨.plain, w, ts⟩ (sign '"') = ⟨.double, some (w.getD [] ++ [.quotes]), ts⟩ := by
    simp (disch := decide) [Scan.step, Scan.plainStep, isBlank, sign_eq_iff, Scan.put, Scan.into]
  rw [scan_cons, hopen, scan_append, hrest t h, scan_cons]
  simp [Scan.step, Scan.doubleStep, Scan.into]

/-! Tokens -/

theorem Grows.lexes (h : Grows t ps) : Lexes t [.word ps] := by
  intro ts
  rw [h]
  exact ⟨rfl, by simp [Scan.close, Scan.into]⟩

/-- A text in which nothing is filled in is what its scan says. -/
theorem lexes_scan (h : (scan start t).mode = .plain ∧ (scan start t).close.tokens = tokens) :
    Lexes t tokens := by
  obtain ⟨hmode, htokens⟩ := h
  intro ts
  have hbehind : scan ⟨.plain, none, ts⟩ t = (scan start t).behind ts := by
    rw [← scan_behind, Scan.behind, start, append_nil]
  rw [hbehind]
  refine ⟨hmode, ?_⟩
  rw [Scan.close_behind, ← htokens]
  rcases hscan : scan start t with ⟨mode, word, toks⟩
  cases word <;> rfl

theorem Lexes.step (h : Lexes t tokens) (ts : List (Token C)) (c : C) :
    scan ⟨.plain, none, ts⟩ (t ++ [c]) = Scan.plainStep (scan ⟨.plain, none, ts⟩ t) c := by
  rw [scan_append, scan_cons, scan_nil, Scan.step, (h ts).1]

/-- A space between two texts. -/
theorem Lexes.blank (h : Lexes t tokens) (h' : Lexes t' tokens') :
    Lexes (t ++ sign ' ' :: t') (tokens ++ tokens') := by
  intro ts
  have hstep : scan ⟨.plain, none, ts⟩ (t ++ [sign ' ']) = ⟨.plain, none, ts ++ tokens⟩ := by
    rw [h.step, Scan.plainStep, if_pos (by simp [isBlank])]
    exact (h ts).2
  rw [append_cons, scan_append, hstep]
  have hnext := h' (ts ++ tokens)
  rw [append_assoc] at hnext
  exact hnext

/-- The end of a line, or a `;`. -/
theorem Lexes.semi {c : C} (hc : c = sign ';' ∨ c = sign '\n') (h : Lexes t tokens)
    (h' : Lexes t' tokens') : Lexes (t ++ c :: t') (tokens ++ .semi :: tokens') := by
  intro ts
  have hblank : isBlank c = false := by
    rcases hc with rfl | rfl <;> simp (disch := decide) [isBlank, sign_eq_iff]
  have hstep : scan ⟨.plain, none, ts⟩ (t ++ [c]) = ⟨.plain, none, ts ++ tokens ++ [.semi]⟩ := by
    rw [h.step, Scan.plainStep, if_neg (by simp [hblank]), if_pos hc, Scan.emit]
    have htokens := congrArg Scan.tokens (h ts).2
    exact congrArg (fun toks => (⟨.plain, none, toks ++ [.semi]⟩ : Scan C)) htokens
  rw [append_cons, scan_append, hstep]
  have hnext := h' (ts ++ tokens ++ [.semi])
  have htokens : ts ++ tokens ++ [.semi] ++ tokens' = ts ++ (tokens ++ .semi :: tokens') := by simp
  rw [htokens] at hnext
  exact hnext

/-- **Texts with spaces between them**: what is filled in is read without looking at it. -/
theorem lexes_spaced {items : List (List C × List (Token C))} (hne : items ≠ [])
    (h : ∀ item ∈ items, Lexes item.1 item.2) :
    Lexes ([sign ' '].intercalate (items.map Prod.fst)) (items.flatMap Prod.snd) := by
  induction items with
  | nil => exact absurd rfl hne
  | cons item items ih =>
    have hitem := h item mem_cons_self
    by_cases hlast : items = []
    · subst hlast
      simpa using hitem
    · have hrest := ih hlast fun i hi => h i (mem_cons_of_mem _ hi)
      rw [map_cons, intercalate_cons_of_ne_nil (by simpa using hlast), append_assoc]
      exact hitem.blank hrest

/-- **Lines.** -/
theorem lexes_lines {items : List (List C × List (Token C))} (hne : items ≠ [])
    (h : ∀ item ∈ items, Lexes item.1 item.2) :
    Lexes ([sign '\n'].intercalate (items.map Prod.fst)) ([.semi].intercalate (items.map Prod.snd)) := by
  induction items with
  | nil => exact absurd rfl hne
  | cons item items ih =>
    have hitem := h item mem_cons_self
    by_cases hlast : items = []
    · subst hlast
      simpa using hitem
    · have hrest := ih hlast fun i hi => h i (mem_cons_of_mem _ hi)
      rw [map_cons, map_cons, intercalate_cons_of_ne_nil (by simpa using hlast),
        intercalate_cons_of_ne_nil (by simpa using hlast), append_assoc, append_assoc]
      exact hitem.semi (Or.inr rfl) hrest

theorem Lexes.lex (h : Lexes t tokens) : Shell.lex t = some tokens := by
  have hstart := h []
  rw [nil_append] at hstart
  have hmode : (scan start t).mode = .plain := hstart.1
  rw [Shell.lex, Scan.finish, hmode]
  exact congrArg (fun s => some (Scan.tokens s)) hstart.2

theorem Lexes.parse {c : Command C} (h : Lexes t tokens)
    (hparse : parseList (4 * tokens.length + 4) (skipSemis tokens) = some (c, [])) :
    Shell.parse t = some c := by
  rw [Shell.parse, h.lex, Option.bind_some, hparse]

end Pieces

end Scanning

end Shell
