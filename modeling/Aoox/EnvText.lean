import Aoox.JsString
import Aoox.Assoc

/-! # `KEY=VALUE` text

The pure helpers of `env-text.ts`.  Every one of them works line by line on
trimmed lines, so two texts with the same trimmed lines are the same
environment.  Objects are association lists, but a plain JavaScript object also
answers for the names every object inherits from `Object.prototype`: `readProp`
gives such a name a value although nothing was stored under it, and an
assignment to `__proto__` stores nothing.  `ENV_NAME` accepts those names, so
they are possible variable names.
-/
namespace Aoox

/-! ## Objects -/

/-- The string-named members of `Object.prototype`. -/
def objectPrototype : List JsString :=
  [js "constructor", js "__defineGetter__", js "__defineSetter__", js "hasOwnProperty",
    js "__lookupGetter__", js "__lookupSetter__", js "isPrototypeOf", js "propertyIsEnumerable",
    js "toString", js "valueOf", js "__proto__", js "toLocaleString"]

/-- `object[key] = value`.  The accessor `__proto__` ignores what is no object. -/
def assign {β : Type} (object : List (JsString × β)) (key : JsString) (value : β) :
    List (JsString × β) :=
  if key = js "__proto__" then object else Assoc.set object key value

/-- What a property of a flag object or flag patch holds: a boolean, `null`, or
anything else (a member of `Object.prototype`, another JSON value). -/
inductive FlagValue where
  | bool (b : Bool)
  | null
  | other
deriving DecidableEq, Repr

/-- Per-key secret flag; in a patch `null` clears it. -/
abbrev SecretFlags := List (JsString × FlagValue)

/-- `flags[key]`; `none` is `undefined`. -/
def readProp (flags : SecretFlags) (key : JsString) : Option FlagValue :=
  (Assoc.get flags key).or (if key ∈ objectPrototype then some .other else none)

/-- Per-variable note. -/
abbrev VariableNotes := List (JsString × JsString)

open JsString

/-! ## Lines -/

/-- Name and value of a line: the first `=`, not in front, ends the name. -/
def assignment (line : JsString) : Option (JsString × JsString) :=
  match indexOf [cu '='] line 0 with
  | some (i + 1) => some (trim (sliceTo line (i + 1)), sliceFrom line (i + 2))
  | _ => none

/-- A trimmed line that is blank or a `#` comment. -/
def isSkipped (line : JsString) : Bool := line = [] || startsWith line [cu '#']

/-- The variable a line of the text defines. -/
def parseLine (raw : JsString) : Option (JsString × JsString) :=
  if isSkipped (trim raw) then none else assignment (trim raw)

/-- Parsed `KEY=VALUE` lines. -/
def parseEnvLines (text : JsString) : List (JsString × JsString) :=
  (splitLines text).filterMap parseLine

/-- `ENV_NAME`. -/
def isEnvName : JsString → Bool
  | [] => false
  | c :: cs => (isLetter c || c == cu '_') && cs.all fun d => isLetter d || d == cu '_' || isDigit d

/-- Names of the variables in `text`, in order, without duplicates. -/
def keysOf (text : JsString) : List JsString := ((parseEnvLines text).map Prod.fst).eraseDups

/-- Variables as an ordered map; the last definition wins. -/
def envMap (text : JsString) : List (JsString × JsString) := Assoc.ofList (parseEnvLines text)

/-! ## References -/

/-- A match of `REFERENCE`. -/
structure Reference where
  (whole scope name : JsString)
  (field database : Option JsString)
deriving Repr

/-- What stands behind a literal. -/
def afterLiteral (literal text : JsString) : Option JsString :=
  if literal <+: text then some (text.drop literal.length) else none

/-- A class of code units, once or more, and what follows. -/
def takeSome (p : CodeUnit → Bool) (text : JsString) : Option (JsString × JsString) :=
  if text.takeWhile p = [] then none else some (text.takeWhile p, text.dropWhile p)

/-- An optional group: a separator and a class of code units, once or more. -/
def takeGroup (sep : CodeUnit) (p : CodeUnit → Bool) (text : JsString) :
    Option JsString × JsString :=
  match (afterLiteral [sep] text).bind (takeSome p) with
  | some (group, rest) => (some group, rest)
  | none => (none, text)

def isLower (c : CodeUnit) : Bool := cu 'a' ≤ c && c ≤ cu 'z'

def isNameUnit (c : CodeUnit) : Bool := isLetter c || isDigit c || c == cu '_' || c == cu '-'

def openBraces : JsString := js "$\x7b\x7b"

/-- `REFERENCE` at the start of `text`.  Neighbouring parts of the pattern share
no code unit, so each one takes all it can and nothing is ever given back. -/
def matchReference (text : JsString) : Option Reference := do
  let rest ← afterLiteral openBraces text
  let (scope, rest) ← takeSome isLower (trimStart rest)
  let rest ← afterLiteral [cu '.'] rest
  let (name, rest) ← takeSome isNameUnit rest
  let (field, rest) := takeGroup (cu '.') isLower rest
  let (database, rest) := takeGroup (cu ':') (fun c => isNameUnit c || c == cu '$') rest
  let rest ← afterLiteral (js "\x7d\x7d") (trimStart rest)
  pure ⟨text.take (text.length - rest.length), scope, name, field, database⟩

/-- The scan of `matchAll`; the counter passes over the last match. -/
def referencesGo : Nat → JsString → List Reference
  | _, [] => []
  | k + 1, _ :: cs => referencesGo k cs
  | 0, c :: cs =>
    match matchReference (c :: cs) with
    | some m => m :: referencesGo (m.whole.length - 1) cs
    | none => referencesGo 0 cs

/-- `value.matchAll(REFERENCE)`. -/
def references (value : JsString) : List Reference := referencesGo 0 value

/-! ## Validation -/

def DATABASE_FIELDS : List JsString :=
  [js "url", js "host", js "port", js "username", js "password", js "database"]

def ENV_TEXT_MAX : Nat := 20000

/-- Names seen and values collected by the loop over the lines. -/
structure LineScan where
  (seen values : List JsString)

def lineMessage (i : Nat) (message : JsString) : JsString :=
  js "Line " ++ js (toString (i + 1)) ++ js ": " ++ message

def checkLine (i : Nat) (raw : JsString) (s : LineScan) : Except JsString LineScan :=
  if isSkipped (trim raw) then .ok s
  else
    match assignment (trim raw) with
    | none => .error (lineMessage i (js "expected NAME=value"))
    | some (key, value) =>
      if !isEnvName key then
        .error (lineMessage i (js "\"" ++ sliceTo key 40 ++
          js "\" is not a valid variable name (letters, digits and _, not starting with a digit)"))
      else if key ∈ s.seen then .error (lineMessage i (key ++ js " is defined twice"))
      else .ok ⟨s.seen ++ [key], s.values ++ [value]⟩

def checkLines : Nat → List JsString → LineScan → Except JsString LineScan
  | _, [], s => .ok s
  | i, raw :: raws, s => (checkLine i raw s).bind (checkLines (i + 1) raws)

/-- The scope and field rules of one reference. -/
def checkReference (m : Reference) : Option JsString :=
  if m.scope = js "vars" ∨ m.scope = js "secret" then
    if m.field.isSome then some (m.whole ++ js " is not a valid reference") else none
  else if m.scope = js "project" then
    some (m.whole ++ js ": $\x7b\x7bproject.KEY\x7d\x7d was renamed to $\x7b\x7bvars.KEY\x7d\x7d")
  else if m.scope = js "database" then
    if m.field.getD [] ∈ DATABASE_FIELDS then none
    else some (m.whole ++ js ": use " ++ join DATABASE_FIELDS (js ", "))
  else some (m.whole ++ js ": unknown scope \"" ++ m.scope ++ js "\"")

def malformedReference : JsString :=
  js ("A $\x7b\x7b...\x7d\x7d reference is malformed; use $\x7b\x7bvars.KEY\x7d\x7d, " ++
    "$\x7b\x7bsecret.KEY\x7d\x7d or $\x7b\x7bdatabase.<slug>.<field>\x7d\x7d")

/-- The references of one value: every `${{` starts one, and each is allowed. -/
def checkValue (value : JsString) : Option JsString :=
  if (split value openBraces).length - 1 ≠ (references value).length then some malformedReference
  else (references value).findSome? checkReference

/-- Strict validation; a message, or `none` for an accepted text. -/
def validateEnvironmentText (text : JsString) : Option JsString :=
  if text.length > ENV_TEXT_MAX then
    some (js "Variables are limited to " ++ js (toString ENV_TEXT_MAX) ++ js " characters")
  else
    match checkLines 0 (splitLines text) ⟨[], []⟩ with
    | .error message => some message
    | .ok s => s.values.findSome? checkValue

/-! ## Notes -/

def NOTE_MAX : Nat := 1000

/-- One `#` line of a note: one `#` and at most one space removed. -/
def noteLine (line : JsString) : JsString :=
  match sliceFrom line 1 with
  | c :: cs => if c = cu ' ' then trimEnd cs else trimEnd (c :: cs)
  | [] => []

/-- The note of the comment lines above a variable. -/
def noteOf (pending : List JsString) : JsString :=
  trimEnd (sliceTo (trimEnd ((join pending (js "\n")).dropWhile (· == cu '\n'))) NOTE_MAX)

/-- Notes found so far, and the comment lines directly above. -/
structure NoteScan where
  out : VariableNotes
  pending : List JsString

def noteStep (s : NoteScan) (raw : JsString) : NoteScan :=
  if trim raw = [] then ⟨s.out, []⟩
  else if startsWith (trim raw) [cu '#'] then ⟨s.out, s.pending ++ [noteLine (trim raw)]⟩
  else
    match assignment (trim raw) with
    | some (key, _) =>
      if isEnvName key then
        if noteOf s.pending = [] then ⟨Assoc.erase s.out key, []⟩
        else ⟨assign s.out key (noteOf s.pending), []⟩
      else ⟨s.out, []⟩
    | none => ⟨s.out, []⟩

/-- `text.replace(/^\uFEFF/, '')`. -/
def dropBom : JsString → JsString
  | c :: cs => if c = 0xFEFF then cs else c :: cs
  | [] => []

/-- The note of each variable: the contiguous `#` lines directly above it. -/
def extractNotes (text : JsString) : VariableNotes :=
  ((splitLines (dropBom text)).foldl noteStep ⟨[], []⟩).out

/-- A note as `# ` lines. -/
def noteLines (note : JsString) : List JsString :=
  (split note (js "\n")).map fun l => if l = [] then js "#" else js "# " ++ l

/-- The lines put above `key`: `if (notes[key]) noteLines(notes[key])`.  An
inherited member is truthy and no string, so `none` is its `TypeError`. -/
def noteLinesFor (notes : VariableNotes) (key : JsString) : Option (List JsString) :=
  match Assoc.get notes key with
  | some note => some (if note = [] then [] else noteLines note)
  | none => if key ∈ objectPrototype then none else some []

/-! ## Flags -/

/-- `SECRET_NAME`. -/
def looksSecretName (name : JsString) : Bool :=
  [js "password", js "secret", js "token", js "key", js "private", js "credential"].any
    fun word => includes (toLowerCase name) word

def MIN_REDACT_LENGTH : Nat := 6

/-- Whether an unmarked value is masked: short values, plain words and numbers
are not. -/
def shouldRedactValue (value : JsString) : Bool :=
  if value.length < MIN_REDACT_LENGTH then false
  else if value.all isLetter then false
  else if value.all isDigit then false
  else true

/-- Whether a value must be masked: an explicit flag wins, an unmarked key falls
back to its name and the heuristic. -/
def isSecretValue (key value : JsString) (flags : SecretFlags) : Bool :=
  match readProp flags key with
  | some (.bool true) => 0 < value.length
  | some (.bool false) => false
  | _ =>
    if looksSecretName key && MIN_REDACT_LENGTH ≤ value.length then true
    else shouldRedactValue value

def nextFlag (previous : SecretFlags) (previousKeys : List JsString) (patch : SecretFlags)
    (key : JsString) : Option FlagValue :=
  match Assoc.get patch key with
  | some (.bool b) => some (.bool b)
  | some .null => none
  | _ =>
    match readProp previous key with
    | some v => some v
    | none => if key ∉ previousKeys ∧ looksSecretName key then some (.bool true) else none

def nextFlagStep (previous : SecretFlags) (previousKeys : List JsString) (patch : SecretFlags)
    (out : SecretFlags) (key : JsString) : SecretFlags :=
  match nextFlag previous previousKeys patch key with
  | some v => assign out key v
  | none => out

/-- The flags after a write. -/
def nextFlags (previous : SecretFlags) (previousKeys keys : List JsString)
    (patch : SecretFlags) : SecretFlags :=
  keys.foldl (nextFlagStep previous previousKeys patch) []

/-! ## Changes -/

/-- Key-level result of a change. -/
structure ChangeSummary where
  (added changed removed flags : List JsString)
deriving Repr

/-- What changed between two texts and two flag sets, by key name. -/
def summarizeChange (oldText newText : JsString) (oldFlags newFlags : SecretFlags) :
    ChangeSummary :=
  let before := envMap oldText
  let after := envMap newText
  { added := (after.filter fun e => (Assoc.get before e.1).isNone).map Prod.fst
    changed := (after.filter fun e =>
      (Assoc.get before e.1).isSome && Assoc.get before e.1 ≠ some e.2).map Prod.fst
    removed := (before.filter fun e => (Assoc.get after e.1).isNone).map Prod.fst
    flags := (after.filter fun e => (Assoc.get before e.1).isSome &&
      readProp oldFlags e.1 ≠ readProp newFlags e.1).map Prod.fst }

/-- Whether a line of the text defines `key`. -/
def definesKey (line key : JsString) : Bool :=
  match parseLine line with
  | some (k, _) => k = key
  | none => false

/-- The line `key=value`. -/
def lineOf (key value : JsString) : JsString := key ++ cu '=' :: value

/-- Room at the end for a new variable: trailing blank lines go, and a comment at
the very end is kept apart by a blank line. -/
def roomAtEnd (lines : List JsString) : List JsString :=
  let kept := lines.rdropWhile fun l => trim l = []
  match kept.getLast? with
  | some last => if startsWith (trim last) [cu '#'] then kept ++ [[]] else kept
  | none => kept

/-- Sets one value; `none` is the `TypeError` of `noteLinesFor`. -/
def setValue (notes : VariableNotes) (lines : List JsString) (entry : JsString × JsString) :
    Option (List JsString) :=
  match lines.findIdx? (definesKey · entry.1) with
  | none => (noteLinesFor notes entry.1).map fun ns =>
      roomAtEnd lines ++ ns ++ [lineOf entry.1 entry.2]
  | some i =>
    -- the definition in place, repeated ones below it dropped
    some (lines.take i ++ lineOf entry.1 entry.2 ::
      (lines.drop (i + 1)).filter fun l => !definesKey l entry.1)

/-- Sets values key by key, keeping comments, blank lines and order. -/
def setValues (text : JsString) (entries : List (JsString × JsString)) (notes : VariableNotes) :
    Option JsString :=
  (entries.foldlM (setValue notes) (if text = [] then [] else splitLines text)).map
    fun lines => join lines (js "\n")

/-! ## Import -/

def normalizedLines (notes : VariableNotes) (entry : JsString × JsString) :
    Option (List JsString) :=
  (noteLinesFor notes entry.1).map fun ns => ns ++ [lineOf entry.1 entry.2]

/-- Lenient clean-up of imported text; `none` is the `TypeError` of `noteLinesFor`. -/
def normalizeEnvText (text : JsString) : Option JsString :=
  ((Assoc.ofList ((parseEnvLines text).filter fun e => isEnvName e.1)).mapM
    (normalizedLines (extractNotes text))).map fun blocks => join blocks.flatten (js "\n")

/-- `${{`, white space and `project.` at the start of `text`: the white space. -/
def matchProject (text : JsString) : Option JsString := do
  let rest ← afterLiteral openBraces text
  let _ ← afterLiteral (js "project.") (trimStart rest)
  pure (rest.takeWhile isSpace)

/-- The scan of `rewriteProjectReferences`; the counter passes over the last match. -/
def rewriteGo : Nat → JsString → JsString
  | _, [] => []
  | k + 1, _ :: cs => rewriteGo k cs
  | 0, c :: cs =>
    match matchProject (c :: cs) with
    | some space =>
      openBraces ++ space ++ js "vars." ++
        rewriteGo (openBraces.length + space.length + (js "project.").length - 1) cs
    | none => c :: rewriteGo 0 cs

/-- `${{project.KEY}}` becomes `${{vars.KEY}}`. -/
def rewriteProjectReferences (text : JsString) : JsString := rewriteGo 0 text

end Aoox
