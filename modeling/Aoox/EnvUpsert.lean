import Aoox.ImageTags
import Aoox.ShellAppends
import Aoox.ShellTexts
import Aoox.StoredText
import Aoox.StreamEditor

/-! # Setting a variable of the installation

`envUpsertLine` puts a key and a value into a line of shell: `sed` replaces the lines of the key
if `grep` finds one, and `echo` adds one otherwise.
-/
namespace Aoox.EnvUpsert
open JsString Shell List
open ImageTags (digitsValue isNumeric)

/-! ## The line -/

def ENV_FILE : JsString := js ".env.dist"

/-- `value.replace(/[\\&/]/g, '\\$&')`. -/
def escaped (value : JsString) : JsString :=
  value.flatMap fun c =>
    if c = cu '\\' ∨ c = cu '&' ∨ c = cu '/' then [cu '\\', c] else [c]

def envUpsertLine (key value : JsString) : JsString :=
  (js "grep -q '^" ++ key ++ js "=' .env.dist ") ++
    (js "&& sed -i \"s/^" ++ key ++ js "=.*/" ++ key ++ js "=" ++ escaped value ++
      js "/\" .env.dist ") ++
    (js "|| echo '" ++ key ++ js "=" ++ value ++ js "' >> .env.dist")

/-! ## The values of a request -/

/-- The fields of `UpdateInstanceEnvDto`. -/
inductive EnvField where
  | terminalSshHost | terminalSshPort | terminalSshUser | terminalSshPassword
  | publicIp | registryPublicHost | proxyReadTimeout
deriving DecidableEq, Repr

def ENV_KEYS : EnvField → JsString
  | .terminalSshHost => js "TERMINAL_SSH_HOST"
  | .terminalSshPort => js "TERMINAL_SSH_PORT"
  | .terminalSshUser => js "TERMINAL_SSH_USER"
  | .terminalSshPassword => js "TERMINAL_SSH_PASSWORD"
  | .publicIp => js "PUBLIC_IP"
  | .registryPublicHost => js "REGISTRY_PUBLIC_HOST"
  | .proxyReadTimeout => js "PROXY_READ_TIMEOUT"

/-- What a field that is not left out may hold; `@IsOptional` lets `null` through. -/
inductive Given where
  | null
  | text (t : JsString)
  | number (n : Nat)

/-- `String(value)`. -/
def Given.string : Given → JsString
  | null => js "null"
  | text t => t
  | number n => js (toString n)

/-- What `update` hands to `envUpsertLine`. -/
def Given.stored (given : Given) : JsString := trim given.string

def READ_TIMEOUT_MIN_SECONDS : Nat := 1

def READ_TIMEOUT_MAX_SECONDS : Nat := 86400

/-- `(\d+u)?` in front of a text: the seconds of the part, and the rest. -/
def durationPart (unit : CodeUnit) (seconds : Nat) (t : JsString) : Nat × JsString :=
  match t.dropWhile isDigit with
  | c :: rest =>
    if c = unit ∧ t.takeWhile isDigit ≠ [] then
      (digitsValue (t.takeWhile isDigit) * seconds, rest)
    else (0, t)
  | [] => (0, t)

def parseReadTimeoutSeconds (raw : JsString) : Option Nat :=
  let value := trim raw
  let inRange (seconds : Nat) : Option Nat :=
    if READ_TIMEOUT_MIN_SECONDS ≤ seconds ∧ seconds ≤ READ_TIMEOUT_MAX_SECONDS then some seconds else none
  if isNumeric value then inRange (digitsValue value)
  else
    let h := durationPart (cu 'h') 3600 value
    let m := durationPart (cu 'm') 60 h.2
    let s := durationPart (cu 's') 1 m.2
    if s.2 = [] ∧ value ≠ [] then inRange (h.1 + m.1 + s.1) else none

/-- `ReadTimeoutConstraint`. -/
def isProxyReadTimeout (t : JsString) : Bool := trim t = [] || (parseReadTimeoutSeconds t).isSome

def maxLength : EnvField → Nat
  | .terminalSshUser => 64
  | .terminalSshPassword => 256
  | .proxyReadTimeout => 32
  | _ => 253

/-- What `UpdateInstanceEnvDto` accepts in a field. -/
def accepts (field : EnvField) : Given → Bool
  | .null => true
  | .number n => field = .terminalSshPort && 1 ≤ n && n ≤ 65535
  | .text t =>
    field ≠ .terminalSshPort && countedLength t ≤ maxLength field &&
      (field ≠ .proxyReadTimeout || isProxyReadTimeout t)

/-! ## What it runs on -/

/-- What is left open: what other programs do, what patterns stand for, and what `sed` makes of a
backslash in front of a character that needs none. -/
structure Tools where
  other : (argv : List JsString) → (stdin content : JsString) → Nat × JsString × JsString
  glob : List (Mark CodeUnit) → JsString → List JsString
  escape : CodeUnit → Option JsString

/-- The helper container, of whose files only the env file matters. -/
def Tools.host (t : Tools) : AppendHost CodeUnit JsString where
  exec argv stdin content :=
    match argv with
    | [name, flag, arg, file] =>
      if name = js "grep" ∧ flag = js "-q" ∧ file = ENV_FILE then
        (Sed.search arg content, [], content)
      else if name = js "sed" ∧ flag = js "-i" ∧ file = ENV_FILE then
        match Sed.edit t.escape arg content with
        | some edited => (0, [], edited)
        | none => (1, [], content)
      else t.other argv stdin content
    | _ => t.other argv stdin content
  openFile path content := some (if path = ENV_FILE then [] else content)
  writeFile path output content := if path = ENV_FILE then output else content
  isFile path _ := path = ENV_FILE
  glob := t.glob
  openAppend _ content := some content
  appendFile path output content := if path = ENV_FILE then content ++ output else content

/-- What a run depends on apart from the line and the file. -/
structure Setting where
  tools : Tools
  pipefail : Bool
  vars : JsString → JsString

/-- The shell when the line has been run. -/
def after (e : Setting) (key value content : JsString) : State CodeUnit JsString :=
  (shAppend e.tools.host e.pipefail (envUpsertLine key value) e.vars content).1

/-! ## What it is to do -/

def keyLines (key content : JsString) : List JsString :=
  (Sed.lines content).filter fun l => key ++ js "=" <+: l

def otherLines (key content : JsString) : List JsString :=
  (Sed.lines content).filter fun l => ¬ key ++ js "=" <+: l

/-- The key has exactly this value, nothing else is changed, no other program is called and
nothing is put in for a variable. -/
structure Sets (key value content : JsString) : Prop where
  written : ∀ e, keyLines key (after e key value content).world = [key ++ js "=" ++ value]
  unchanged : ∀ e, otherLines key (after e key value content).world = otherLines key content
  programs : ∀ e, ∀ call ∈ (after e key value content).calls,
    call.argv.head? = some (js "grep") ∨ call.argv.head? = some (js "sed")
  literal : ∀ e vars, (after e key value content).calls.map Call.argv =
    (after { e with vars := vars } key value content).calls.map Call.argv

/-! ## Values -/

/-- The script for `sed` up to the value. -/
def sedHead (key : JsString) : JsString := js "s/^" ++ key ++ js "=.*/" ++ key ++ js "="

def sedScript (key replacement : JsString) : JsString := sedHead key ++ replacement ++ js "/"

def halfEscaped (value : JsString) : JsString :=
  value.flatMap fun c => if c = cu '&' ∨ c = cu '/' then [cu '\\', c] else [c]

/-- Behind a `$` these begin an expansion other than that of a named variable. -/
def opensExpansion (c : CodeUnit) : Bool := (js "(\x7b@*#?-$!0123456789").contains c

/-- No `$` begins such an expansion. -/
def dollarsNamed : JsString → Bool
  | [] => true
  | c :: t => !(c = cu '$' && t.head?.any opensExpansion) && dollarsNamed t

/-- A `$` in front of a name. -/
def hasName : JsString → Bool
  | [] => false
  | c :: t => (c = cu '$' && t.head?.any fun d => d ∈ (letters : List CodeUnit)) || hasName t

/-- No delimiter ends the replacement, so that nothing of it is a flag or a command. -/
def staysIn : JsString → Bool
  | [] => true
  | [c] => c ≠ cu '/'
  | c :: d :: t => if c = cu '\\' then staysIn t else c ≠ cu '/' && staysIn (d :: t)

/-- A value that stays in the places it is put in: in the quotes and, if there is a line to
replace, in the replacement. -/
structure Inside (key value content : JsString) : Prop where
  units : ∀ c ∈ value, c ≠ cu '\'' ∧ c ≠ cu '\n' ∧ c ≠ 0
  wellFormed : wellFormed value = value
  read : ∃ word, Grows (cu '"' :: (sedScript key (escaped value) ++ [cu '"'])) word
  quoted : keyLines key content ≠ [] →
    (∀ c ∈ value, c ≠ cu '"' ∧ c ≠ cu '`') ∧ dollarsNamed value = true
  replacement : keyLines key content ≠ [] → staysIn (halfEscaped value) = true

/-- A value that the shell leaves as it is between double quotes. -/
structure Verbatim (value : JsString) : Prop where
  noBackslash : cu '\\' ∉ value
  noName : hasName value = false

/-- A new line begins behind the text. -/
def Ended (content : JsString) : Prop := content = [] ∨ content.getLast? = some (cu '\n')

/-- What the line needs: a line to begin, or one to replace and a value for it. -/
structure Fits (key value content : JsString) : Prop where
  ended : keyLines key content = [] → Ended content
  single : keyLines key content ≠ [] → (keyLines key content).length = 1
  verbatim : keyLines key content ≠ [] → Verbatim value

/-! ## Reading the line -/

/-- The command of the line, if the script for `sed` is read as these pieces. -/
def upsertCommand (key value : JsString) (sed : Word CodeUnit) : Command CodeUnit :=
  .or (.and
    (.simple [] [literal (js "grep"), literal (js "-q"), quotePieces (js "^" ++ key ++ js "="),
      literal ENV_FILE] [])
    (.simple [] [literal (js "sed"), literal (js "-i"), sed, literal ENV_FILE] []))
    (.simple [] [literal (js "echo"), quotePieces (key ++ js "=" ++ value)] [])

variable {t : JsString}

theorem quote_of_not_mem (h : cu '\'' ∉ t) : quote t = cu '\'' :: (t ++ [cu '\'']) := by
  have hflat : t.flatMap Shell.escaped = t := by
    have hcongr : ∀ c ∈ t, Shell.escaped c = [c] := by
      intro c hc
      refine if_neg ?_
      rintro rfl
      exact h hc
    rw [List.flatMap_congr hcongr, List.flatMap_singleton']
  rw [quote, hflat]
  rfl

theorem lexes_plain (hne : t ≠ []) (h : t.all isOrdinary = true) : Lexes t [.word (literal t)] :=
  (scan_plain hne h).lexes

/-- The words of the line in front of `>>`. -/
def items (key value : JsString) (sed : Word CodeUnit) :
    List (JsString × List (Token CodeUnit)) :=
  [(js "grep", [.word (literal (js "grep"))]), (js "-q", [.word (literal (js "-q"))]),
    (quote (js "^" ++ key ++ js "="), [.word (quotePieces (js "^" ++ key ++ js "="))]),
    (ENV_FILE, [.word (literal ENV_FILE)]), (js "&&", [.and]),
    (js "sed", [.word (literal (js "sed"))]), (js "-i", [.word (literal (js "-i"))]),
    (cu '"' :: (sedScript key (escaped value) ++ [cu '"']), [.word sed]),
    (ENV_FILE, [.word (literal ENV_FILE)]), (js "||", [.or]),
    (js "echo", [.word (literal (js "echo"))]),
    (quote (key ++ js "=" ++ value), [.word (quotePieces (key ++ js "=" ++ value))])]

section Reading
variable {key value : JsString} {sed : Word CodeUnit}

theorem lexes_items (hsed : Grows (cu '"' :: (sedScript key (escaped value) ++ [cu '"'])) sed) :
    ∀ item ∈ items key value sed, Lexes item.1 item.2 := by
  have hplain : ∀ t ∈ [js "grep", js "-q", ENV_FILE, js "sed", js "-i", js "echo"],
      Lexes t [.word (literal t)] := by
    intro t ht
    fin_cases ht
    all_goals exact lexes_plain (by decide) (by decide)
  have hand : Lexes (js "&&") [.and] := lexes_scan (by decide)
  have hor : Lexes (js "||") [.or] := lexes_scan (by decide)
  simp only [items, List.forall_mem_cons]
  refine ⟨hplain _ (by simp), hplain _ (by simp), (scan_quote _).lexes, hplain _ (by simp), hand,
    hplain _ (by simp), hplain _ (by simp), hsed.lexes, hplain _ (by simp), hor, hplain _ (by simp),
    (scan_quote _).lexes, fun item h => (by cases h)⟩

theorem line_eq (hkey : cu '\'' ∉ key) (hvalue : cu '\'' ∉ value) :
    envUpsertLine key value = [sign ' '].intercalate ((items key value sed).map Prod.fst) ++
      sign ' ' :: sign '>' :: sign '>' :: js " .env.dist" := by
  have hpattern : cu '\'' ∉ js "^" ++ (key ++ js "=") := by
    simp only [List.mem_append, not_or]
    exact ⟨by decide, hkey, by decide⟩
  have hline : cu '\'' ∉ key ++ (js "=" ++ value) := by
    simp only [List.mem_append, not_or]
    exact ⟨hkey, by decide, hvalue⟩
  have h₁ : js "grep -q '^" = js "grep" ++ cu ' ' :: (js "-q" ++ cu ' ' :: cu '\'' :: js "^") := by
    decide
  have h₂ : js "=' .env.dist " = js "=" ++ cu '\'' :: cu ' ' :: (ENV_FILE ++ [cu ' ']) := by decide
  have h₃ : js "&& sed -i \"s/^" = js "&&" ++ cu ' ' :: (js "sed" ++ cu ' ' ::
      (js "-i" ++ cu ' ' :: cu '"' :: js "s/^")) := by decide
  have h₄ : js "/\" .env.dist " = js "/" ++ cu '"' :: cu ' ' :: (ENV_FILE ++ [cu ' ']) := by decide
  have h₅ : js "|| echo '" = js "||" ++ cu ' ' :: (js "echo" ++ [cu ' ', cu '\'']) := by decide
  have h₆ : js "' >> .env.dist" = cu '\'' :: cu ' ' :: cu '>' :: cu '>' :: js " .env.dist" := by
    decide
  simp only [envUpsertLine, h₁, h₂, h₃, h₄, h₅, h₆, items, sedScript, sedHead,
    quote_of_not_mem hpattern,
    quote_of_not_mem hline, List.map_cons, List.map_nil, List.intercalate, List.intersperse,
    List.flatten_cons, List.flatten_nil, List.append_assoc, List.cons_append, List.nil_append,
    List.append_nil]
  rfl

theorem parse_line (hkey : cu '\'' ∉ key) (hvalue : cu '\'' ∉ value)
    (hsed : Grows (cu '"' :: (sedScript key (escaped value) ++ [cu '"'])) sed) :
    parseAppend (envUpsertLine key value) =
      some (upsertCommand key value sed, literal ENV_FILE) := by
  rw [@line_eq key value sed hkey hvalue]
  refine (lexes_spaced (List.cons_ne_nil _ _) (lexes_items hsed)).parseAppend ?_ ?_ rfl ?_
  · rfl
  · decide
  · decide

end Reading

/-! ## The script for `sed` -/

section Quoted
variable {w : Word CodeUnit} {ts : List (Token CodeUnit)} {c : CodeUnit} {t read : JsString}

theorem double_unit (h : c ≠ cu '"' ∧ c ≠ cu '\\' ∧ c ≠ cu '$' ∧ c ≠ cu '`') :
    scan ⟨.double, some w, ts⟩ (c :: t) = scan ⟨.double, some (w ++ [.char c true]), ts⟩ t := by
  obtain ⟨h₁, h₂, h₃, h₄⟩ := h
  rw [scan_cons]
  congr 1
  exact (if_neg h₁).trans ((if_neg h₂).trans ((if_neg h₃).trans (if_neg h₄)))

theorem double_guarded (h : c = cu '&' ∨ c = cu '/') :
    scan ⟨.double, some w, ts⟩ (cu '\\' :: c :: t) =
      scan ⟨.double, some (w ++ [.char (cu '\\') true] ++ [.char c true]), ts⟩ t := by
  rcases h with rfl | rfl
  · rfl
  · rfl

theorem double_backslash : scan ⟨.double, some w, ts⟩ (cu '\\' :: cu '\\' :: t) =
    scan ⟨.double, some (w ++ [.char (cu '\\') true]), ts⟩ t := rfl

theorem double_dollar :
    scan ⟨.double, some w, ts⟩ (cu '$' :: t) = scan ⟨.dollar true, some w, ts⟩ t := rfl

theorem double_close : scan ⟨.double, some w, ts⟩ [cu '/', cu '"'] =
    ⟨.plain, some (w ++ [.char (cu '/') true]), ts⟩ := rfl

/-- A `$` that begins nothing stands for itself. -/
theorem dollar_back (hletter : c ∉ (letters : List CodeUnit)) (hopens : opensExpansion c = false) :
    scan ⟨.dollar true, some w, ts⟩ (c :: t) =
      scan ⟨.double, some (w ++ [.char (cu '$') true]), ts⟩ (c :: t) := by
  have hne : ∀ x, opensExpansion x = true → c ≠ x := by
    rintro x hx rfl
    rw [hopens] at hx
    cases hx
  have hdigits : c ∉ (digits : List CodeUnit) := by
    have hall : (digits : List CodeUnit).all opensExpansion = true := by decide
    exact fun hmem => hne c (List.all_eq_true.mp hall c hmem) rfl
  rw [scan_cons, scan_cons]
  congr 1
  refine (if_neg (hne _ (by decide))).trans ((if_neg (hne _ (by decide))).trans
    ((if_neg hletter).trans (if_neg ?_)))
  rintro (rfl | hmem)
  · exact hne _ (by decide) rfl
  · exact hdigits hmem

theorem dollar_name (hletter : c ∈ (letters : List CodeUnit)) :
    scan ⟨.dollar true, some w, ts⟩ (c :: t) = scan ⟨.name true [c], some w, ts⟩ t := by
  have hne : ∀ x, x ∉ (letters : List CodeUnit) → c ≠ x := by
    rintro x hx rfl
    exact hx hletter
  rw [scan_cons]
  congr 1
  exact (if_neg (hne _ (by decide))).trans ((if_neg (hne _ (by decide))).trans (if_pos hletter))

theorem name_more (h : c ∈ (letters : List CodeUnit) ∨ c ∈ (digits : List CodeUnit)) :
    scan ⟨.name true read, some w, ts⟩ (c :: t) =
      scan ⟨.name true (read ++ [c]), some w, ts⟩ t := by
  rw [scan_cons]
  congr 1
  exact if_pos h

theorem name_back (h : ¬ (c ∈ (letters : List CodeUnit) ∨ c ∈ (digits : List CodeUnit))) :
    scan ⟨.name true read, some w, ts⟩ (c :: t) =
      scan ⟨.double, some (w ++ [.var read true]), ts⟩ (c :: t) := by
  rw [scan_cons, scan_cons]
  congr 1
  exact if_neg h

end Quoted

/-- What quoted pieces stand for: a text, or there is a variable among them. -/
structure Reads (front : JsString) (named : Bool) (ps : Word CodeUnit) : Prop where
  quoted : ∀ p ∈ ps, (∃ c, p = .char c true) ∨ ∃ n, p = .var n true
  text : named = false → ps = front.map fun c => .char c true
  named : named = true → ∃ n, .var n true ∈ ps ∧ n ≠ [cu '?']

variable {mode : Mode CodeUnit} {c : CodeUnit}

section Reads
variable {front : JsString} {named : Bool} {ps : Word CodeUnit}

theorem Reads.cons (h : Reads front named ps) (c : CodeUnit) :
    Reads (c :: front) named (.char c true :: ps) where
  quoted p hp := by
    rcases List.mem_cons.mp hp with rfl | hp
    · exact Or.inl ⟨c, rfl⟩
    · exact h.quoted p hp
  text hnamed := by rw [h.text hnamed, List.map_cons]
  named hnamed := by
    obtain ⟨n, hn, hne⟩ := h.named hnamed
    exact ⟨n, List.mem_cons_of_mem _ hn, hne⟩

theorem Reads.var (h : Reads front named ps) {n : JsString} (hn : n ≠ [cu '?']) :
    Reads [] true (.var n true :: ps) where
  quoted p hp := by
    rcases List.mem_cons.mp hp with rfl | hp
    · exact Or.inr ⟨n, rfl⟩
    · exact h.quoted p hp
  text hnamed := by cases hnamed
  named _ := ⟨n, List.mem_cons_self, hn⟩

/-- The rest of the quotes is read as these pieces. -/
def Continues (mode : Mode CodeUnit) (t front : JsString) (named : Bool) : Prop :=
  ∃ ps, (∀ w ts, scan ⟨mode, some w, ts⟩ (t ++ [cu '/', cu '"']) = ⟨.plain, some (w ++ ps), ts⟩) ∧
    Reads front named ps

theorem Continues.cons {mode' : Mode CodeUnit} {t' : JsString} (h : Continues mode' t' front named)
    (hstep : ∀ w ts, scan ⟨mode, some w, ts⟩ (t ++ [cu '/', cu '"']) =
      scan ⟨mode', some (w ++ [.char c true]), ts⟩ (t' ++ [cu '/', cu '"'])) :
    Continues mode t (c :: front) named := by
  obtain ⟨ps, hscan, hreads⟩ := h
  refine ⟨.char c true :: ps, fun w ts => ?_, hreads.cons c⟩
  rw [hstep, hscan, append_assoc]
  rfl

end Reads

theorem head_escaped (value : JsString) :
    ∃ x rest, escaped value ++ [cu '/', cu '"'] = x :: rest ∧
      (x = cu '\\' ∨ x = cu '/' ∨ value.head? = some x) := by
  cases value with
  | nil => exact ⟨_, _, rfl, Or.inr (Or.inl rfl)⟩
  | cons c value =>
    rw [escaped, List.flatMap_cons]
    split_ifs
    · exact ⟨_, _, rfl, Or.inl rfl⟩
    · exact ⟨_, _, rfl, Or.inr (Or.inr rfl)⟩

theorem escaped_name (h : c ∈ (letters : List CodeUnit) ∨ c ∈ (digits : List CodeUnit))
    (value : JsString) : escaped (c :: value) = c :: escaped value := by
  have hne : ∀ x : CodeUnit, x ∉ (letters : List CodeUnit) → x ∉ (digits : List CodeUnit) →
      c ≠ x := by
    rintro x hletter hdigit rfl
    exact h.elim hletter hdigit
  rw [escaped, List.flatMap_cons, if_neg]
  · rfl
  · rintro (rfl | rfl | rfl)
    · exact hne _ (by decide) (by decide) rfl
    · exact hne _ (by decide) (by decide) rfl
    · exact hne _ (by decide) (by decide) rfl

section Escaped
variable {value : JsString} {front : JsString} {named : Bool}

theorem continues_dollar (h : Continues .double (escaped value) front named)
    (hopens : value.head?.all (fun c => !opensExpansion c) = true)
    (hletter : value.head?.any (fun c => c ∈ (letters : List CodeUnit)) = false) :
    Continues (.dollar true) (escaped value) (cu '$' :: front) named := by
  refine h.cons fun w ts => ?_
  obtain ⟨x, rest, htext, hx⟩ := head_escaped value
  rw [htext]
  rcases hx with rfl | rfl | hx
  · exact dollar_back (by decide) (by decide)
  · exact dollar_back (by decide) (by decide)
  · rw [hx] at hopens hletter
    refine dollar_back (of_decide_eq_false hletter) ?_
    rw [← Bool.not_eq_true']
    exact hopens

theorem continues_name (h : Continues .double (escaped value) front named) {read : JsString}
    (hread : read ≠ [cu '?'])
    (hhead : ∀ c, value.head? = some c →
      ¬ (c ∈ (letters : List CodeUnit) ∨ c ∈ (digits : List CodeUnit))) :
    Continues (.name true read) (escaped value) [] true := by
  obtain ⟨ps, hscan, hreads⟩ := h
  refine ⟨.var read true :: ps, fun w ts => ?_, hreads.var hread⟩
  have hback : scan ⟨.name true read, some w, ts⟩ (escaped value ++ [cu '/', cu '"']) =
      scan ⟨.double, some (w ++ [.var read true]), ts⟩ (escaped value ++ [cu '/', cu '"']) := by
    obtain ⟨x, rest, htext, hx⟩ := head_escaped value
    rw [htext]
    rcases hx with rfl | rfl | hx
    · exact name_back (by decide)
    · exact name_back (by decide)
    · exact name_back (hhead x hx)
  rw [hback, hscan, List.append_assoc]
  rfl

theorem Continues.step {mode' : Mode CodeUnit} {t' : JsString} (h : Continues mode' t' front named)
    (hstep : ∀ w ts, scan ⟨mode, some w, ts⟩ (t ++ [cu '/', cu '"']) =
      scan ⟨mode', some w, ts⟩ (t' ++ [cu '/', cu '"'])) : Continues mode t front named := by
  obtain ⟨ps, hscan, hreads⟩ := h
  refine ⟨ps, fun w ts => ?_, hreads⟩
  rw [hstep, hscan]

/-- When a variable is named, the text does not matter. -/
theorem Continues.anyFront (h : Continues mode t front true)
    (front' : JsString) : Continues mode t front' true := by
  obtain ⟨ps, hscan, hreads⟩ := h
  exact ⟨ps, hscan, hreads.quoted, fun hnamed => (by cases hnamed), hreads.named⟩

theorem hasName_unit (hc : c ≠ cu '$') (value : JsString) :
    hasName (c :: value) = hasName value := by
  rw [hasName, decide_eq_false hc, Bool.false_and, Bool.false_or]

/-- A character that does not begin an expansion. -/
theorem continues_unit (hunit : c ≠ cu '"' ∧ c ≠ cu '`') (hdollar : c ≠ cu '$')
    (h : Continues .double (escaped value) (halfEscaped value ++ [cu '/']) (hasName value)) :
    Continues .double (escaped (c :: value)) (halfEscaped (c :: value) ++ [cu '/'])
      (hasName (c :: value)) := by
  rw [hasName_unit hdollar]
  by_cases hslash : c = cu '\\'
  · subst hslash
    exact h.cons fun w ts => double_backslash
  · by_cases hguarded : c = cu '&' ∨ c = cu '/'
    · have hescaped : escaped (c :: value) = cu '\\' :: c :: escaped value := by
        rw [escaped, flatMap_cons, if_pos (Or.inr hguarded)]
        rfl
      have hhalf : halfEscaped (c :: value) = cu '\\' :: c :: halfEscaped value := by
        rw [halfEscaped, flatMap_cons, if_pos hguarded]
        rfl
      rw [hescaped, hhalf]
      obtain ⟨ps, hscan, hreads⟩ := h
      refine ⟨_, fun w ts => ?_, (hreads.cons c).cons (cu '\\')⟩
      refine (double_guarded hguarded).trans ((hscan _ _).trans ?_)
      simp only [append_assoc, cons_append, nil_append]
    · have hescaped : escaped (c :: value) = c :: escaped value := by
        rw [escaped, flatMap_cons, if_neg fun h => h.elim hslash hguarded]
        rfl
      have hhalf : halfEscaped (c :: value) = c :: halfEscaped value := by
        rw [halfEscaped, flatMap_cons, if_neg hguarded]
        rfl
      rw [hescaped, hhalf]
      exact h.cons fun w ts => double_unit ⟨hunit.1, hslash, hdollar, hunit.2⟩

end Escaped

/-- **The escaped value between double quotes.**  On the value, in each of the three modes the scan
can be in. -/
theorem continues_escaped (value : JsString)
    (hunits : ∀ c ∈ value, c ≠ cu '"' ∧ c ≠ cu '`') (hdollars : dollarsNamed value = true) :
    Continues .double (escaped value) (halfEscaped value ++ [cu '/']) (hasName value) ∧
      (value.head?.all (fun c => !opensExpansion c) = true →
        Continues (.dollar true) (escaped value) (cu '$' :: (halfEscaped value ++ [cu '/']))
          (hasName (cu '$' :: value))) ∧
      ∀ read : JsString, read ≠ [] → read ≠ [cu '?'] →
        Continues (.name true read) (escaped value) [] true := by
  induction value with
  | nil =>
    have hdouble : Continues .double (escaped []) [cu '/'] false := by
      refine ⟨[.char (cu '/') true], fun w ts => double_close, ?_⟩
      have hnil : Reads [] false [] :=
          ⟨fun p hp => (by cases hp), fun _ => rfl, fun h => (by cases h)⟩
      exact hnil.cons (cu '/')
    refine ⟨hdouble, fun _ => continues_dollar hdouble rfl rfl, fun read _ hread => ?_⟩
    exact continues_name hdouble hread fun c hc => (by cases hc)
  | cons c value ih =>
    rw [List.forall_mem_cons] at hunits
    rw [dollarsNamed, Bool.and_eq_true, Bool.not_eq_true', Bool.and_eq_false_iff] at hdollars
    obtain ⟨ihDouble, ihDollar, ihName⟩ := ih hunits.2 hdollars.2
    have hdouble : Continues .double (escaped (c :: value)) (halfEscaped (c :: value) ++ [cu '/'])
        (hasName (c :: value)) := by
      by_cases hdollar : c = cu '$'
      · subst hdollar
        have hopens : value.head?.all (fun c => !opensExpansion c) = true := by
          have hany := hdollars.1.resolve_left (by simp)
          cases value with
          | nil => rfl
          | cons d value => exact (Bool.not_eq_true' _).mpr hany
        exact (ihDollar hopens).step fun w ts => double_dollar
      · exact continues_unit hunits.1 hdollar ihDouble
    refine ⟨hdouble, fun hopens => ?_, fun read hne hread => ?_⟩
    · by_cases hletter : c ∈ (letters : List CodeUnit)
      · have hnamed : hasName (cu '$' :: c :: value) = true := by
          simp [hasName, hletter]
        have hname : [c] ≠ [cu '?'] := by
          intro heq
          rw [List.singleton_inj.mp heq] at hletter
          exact absurd hletter (by decide)
        rw [hnamed, escaped_name (Or.inl hletter)]
        exact ((ihName [c] (List.cons_ne_nil _ _) hname).step fun w ts => dollar_name hletter).anyFront _
      · have hsame : hasName (cu '$' :: c :: value) = hasName (c :: value) := by
          rw [hasName]
          simp [hletter]
        rw [hsame]
        exact continues_dollar hdouble hopens (decide_eq_false hletter)
    · by_cases hmore : c ∈ (letters : List CodeUnit) ∨ c ∈ (digits : List CodeUnit)
      · rw [escaped_name hmore]
        have hlonger : read ++ [c] ≠ [cu '?'] := by
          intro heq
          have hlen := congrArg List.length heq
          rw [List.length_append] at hlen
          exact hne (List.length_eq_zero_iff.mp (by simpa using hlen))
        exact (ihName _ (by simp) hlonger).step fun w ts => name_more hmore
      · refine continues_name hdouble hread fun d hd => ?_
        obtain rfl := Option.some.inj hd
        exact hmore

theorem double_units (h : ∀ c ∈ t, c ≠ cu '"' ∧ c ≠ cu '\\' ∧ c ≠ cu '$' ∧ c ≠ cu '`')
    (w : Word CodeUnit) (ts : List (Token CodeUnit)) (rest : JsString) :
    scan ⟨.double, some w, ts⟩ (t ++ rest) =
      scan ⟨.double, some (w ++ t.map fun c => .char c true), ts⟩ rest := by
  induction t generalizing w with
  | nil => simp
  | cons c t ih =>
    rw [forall_mem_cons] at h
    rw [cons_append, double_unit h.1, ih h.2, append_assoc]
    rfl

def IsName (key : JsString) : Prop := ∀ c ∈ key, c ∈ (letters : List CodeUnit)

theorem IsName.all {key : JsString} (h : IsName key) {p : CodeUnit → Bool}
    (hp : (letters : List CodeUnit).all p = true) : ∀ c ∈ key, p c = true :=
  fun c hc => all_eq_true.mp hp c (h c hc)

theorem sedHead_units {key : JsString} (h : IsName key) :
    ∀ c ∈ sedHead key, c ≠ cu '"' ∧ c ≠ cu '\\' ∧ c ≠ cu '$' ∧ c ≠ cu '`' := by
  have hkey := h.all (p := fun c => c ≠ cu '"' && c ≠ cu '\\' && c ≠ cu '$' && c ≠ cu '`') (by decide)
  have hfixed : ∀ t ∈ [js "s/^", js "=.*/", js "="], ∀ c ∈ t,
      (c ≠ cu '"' && c ≠ cu '\\' && c ≠ cu '$' && c ≠ cu '`') = true := by
    intro t ht
    rw [← List.all_eq_true]
    fin_cases ht
    all_goals rfl
  intro c hc
  have hunit : (c ≠ cu '"' && c ≠ cu '\\' && c ≠ cu '$' && c ≠ cu '`') = true := by
    simp only [sedHead, mem_append] at hc
    rcases hc with (((hc | hc) | hc) | hc) | hc
    · exact hfixed _ (by simp) c hc
    · exact hkey c hc
    · exact hfixed _ (by simp) c hc
    · exact hkey c hc
    · exact hfixed _ (by simp) c hc
  simp only [Bool.and_eq_true, decide_eq_true_eq] at hunit
  exact ⟨hunit.1.1.1, hunit.1.1.2, hunit.1.2, hunit.2⟩

/-- **The script for `sed` is one word**, the text that is meant or with variables in it. -/
theorem grows_script {key value : JsString} (hkey : IsName key)
    (hunits : ∀ c ∈ value, c ≠ cu '"' ∧ c ≠ cu '`') (hdollars : dollarsNamed value = true) :
    ∃ ps, Reads (halfEscaped value ++ [cu '/']) (hasName value) ps ∧
      Grows (cu '"' :: (sedScript key (escaped value) ++ [cu '"']))
        (.quotes :: ((sedHead key).map (fun c => .char c true) ++ ps)) := by
  obtain ⟨ps, hscan, hreads⟩ := (continues_escaped value hunits hdollars).1
  refine ⟨ps, hreads, fun w ts => ?_⟩
  have htext : sedScript key (escaped value) ++ [cu '"'] =
      sedHead key ++ (escaped value ++ [cu '/', cu '"']) := by
    rw [sedScript, List.append_assoc, List.append_assoc]
    rfl
  have hopen : scan ⟨.plain, w, ts⟩ (cu '"' :: (sedScript key (escaped value) ++ [cu '"'])) =
      scan ⟨.double, some (w.getD [] ++ [.quotes]), ts⟩ (sedHead key ++
        (escaped value ++ [cu '/', cu '"'])) := by
    rw [htext]
    rfl
  rw [hopen, double_units (sedHead_units hkey), hscan]
  simp only [append_assoc, cons_append, nil_append]

end Aoox.EnvUpsert
