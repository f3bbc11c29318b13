import Aoox.ComposeEnvFile
import Aoox.ComposeOverride
import Aoox.ShellTexts

/-! # The scripts of a compose stack

A deploy calls `docker compose` with a project, an env file, the compose file and, if the stack has
routes, ports, mounts or limits, an override next to the compose file.  Stop, start and down are to
act on what is running, so they look whether an override lies there and put it into the same place
of the call, through the variable `$OVERRIDE`.

In the deploy the folder of the compose file is quoted for the shell.  In the other scripts the same
quoted text stands between double quotes, where a single quote is a character as any other: the
variable has the quotes in it, and they are still there when it is split.  So Compose gets the
options of the deploy exactly if there is no override or no folder, and nobody has put the file there
or taken it away since (`same_options_iff`).

What a deploy calls is read off the words of its script, in which nothing is filled in when it runs
(`options_deploy`); a later script is followed command by command (`calls_later`).
-/
namespace Aoox.ComposePlan
open JsString Shell List Option

/-! ## The scripts -/

inductive ComposeSource where
  | git | template
  deriving DecidableEq

inductive ComposeAction where
  | deploy | stop | start | down
  deriving DecidableEq

/-- The columns of a stack that its scripts are made of. -/
structure ComposeApp where
  (slug composePath : JsString)
  source : ComposeSource
  (composeContent gitUrl : Option JsString)
  gitBranch : JsString
  gitCredentialId : Option JsString

/-- Where the checkout volume is mounted in the helper. -/
structure Paths where
  (work src : JsString)

def pathsOf (mountpoint : JsString) : Paths := ⟨mountpoint, mountpoint ++ js "/src"⟩

/-- What `plan` is told by others. -/
structure Services where
  /-- The variables of the stack. -/
  resolved : ResolvedEnv
  /-- The user name and token of a Git credential; `none` if there is no such credential. -/
  credential : JsString → Option (JsString × JsString)
  /-- `none` if the URL is none. -/
  authenticateUrl : (gitUrl username token : JsString) → Option JsString
  mounts : List Compose.ComposeMount
  renderOverride : List Compose.ComposeMount → Option JsString

structure Plan where
  script : JsString
  /-- The files uploaded into the helper: name and content. -/
  files : List (JsString × JsString)
  secrets : List JsString

def ENV_FILE : JsString := js ".aoox.env"

def OVERRIDE_FILE : JsString := js "docker-compose.aoox.yml"

def shellQuote (s : JsString) : JsString :=
  cu '\'' :: (s.flatMap fun c => if c = cu '\'' then js "'\\''" else [c]) ++ [cu '\'']

def composeProjectFor (app : ComposeApp) : JsString := js "aoox-" ++ app.slug

/-- `path.replace(/\/[^/]*$/, '')` of a path with a slash. -/
def folderOf (path : JsString) : JsString := (path.rdropWhile (· ≠ cu '/')).dropLast

def truthy (s : Option JsString) : Option JsString := s.filter (· ≠ [])

section Lines
variable (app : ComposeApp) (p : Paths)

def composeDir : JsString :=
  if cu '/' ∈ app.composePath then p.src ++ js "/" ++ shellQuote (folderOf app.composePath) else p.src

def baseArgs : JsString :=
  js "-p " ++ shellQuote (composeProjectFor app) ++ js " --env-file " ++ p.src ++ js "/" ++ ENV_FILE ++
    js " -f " ++ p.src ++ js "/" ++ shellQuote app.composePath

def composeArgs (override : Option JsString) : JsString :=
  baseArgs app p ++ if override.isSome then js " -f " ++ composeDir app p ++ js "/" ++ OVERRIDE_FILE else []

/-- The lines that put the compose file, or the repository, into a new checkout. -/
def checkout (remote : JsString) : List JsString :=
  match app.source with
  | .template =>
    [js "rm -rf " ++ p.src ++ js " && mkdir -p " ++ p.src,
      js "mv " ++ p.work ++ js "/" ++ shellQuote app.composePath ++ js " " ++ p.src ++ js "/" ++
        shellQuote app.composePath]
  | .git =>
    [js "rm -rf " ++ p.src ++ js " && git clone --quiet --depth 1 --branch " ++ shellQuote app.gitBranch ++
      js " " ++ shellQuote remote ++ js " " ++ p.src ++ js " && rm -rf " ++ p.src ++ js "/.git"]

/-- There is a `file` mount. -/
def mountsFile (mounts : List Compose.ComposeMount) : Bool :=
  mounts.any fun m => match m.source with
    | .file _ => true
    | _ => false

def deployLines (override : Option JsString) (mounts : List Compose.ComposeMount) (remote : JsString) :
    List JsString :=
  let forceRecreate := if mountsFile mounts then js " --force-recreate" else []
  js "set -e" :: checkout app p remote ++
    [js "mv " ++ p.work ++ js "/" ++ ENV_FILE ++ js " " ++ p.src ++ js "/" ++ ENV_FILE] ++
    (if override.isSome then
      [js "mv " ++ p.work ++ js "/" ++ OVERRIDE_FILE ++ js " " ++ composeDir app p ++ js "/" ++ OVERRIDE_FILE]
    else []) ++
    [js "docker compose " ++ composeArgs app p override ++ js " config --quiet",
      js "docker compose " ++ composeArgs app p override ++ js " up -d --build --remove-orphans" ++
        forceRecreate]

/-- The calls of Compose in the other scripts. -/
def actionLines (args : JsString) (keepVolumes : Bool) : ComposeAction → List JsString
  | .stop => [js "docker compose " ++ args ++ js " stop"]
  | .start => [js "docker compose " ++ args ++ js " start"]
  | .down =>
    [js "docker compose " ++ args ++ js " down" ++ (if keepVolumes then [] else js " --volumes") ++
      js " --remove-orphans"]
  | .deploy => []

def laterLines (action : ComposeAction) (keepVolumes : Bool) : List JsString :=
  [js "set -e",
    js "[ -f " ++ p.src ++ js "/" ++ shellQuote app.composePath ++
      js " ] || \x7b echo \"No checkout yet; deploy first\"; exit 3; \x7d",
    js "OVERRIDE=\"\"; [ -f " ++ composeDir app p ++ js "/" ++ OVERRIDE_FILE ++ js " ] && OVERRIDE=\"-f " ++
      composeDir app p ++ js "/" ++ OVERRIDE_FILE ++ js "\""] ++
  actionLines (baseArgs app p ++ js " $OVERRIDE") keepVolumes action

end Lines

/-- What a repository is cloned from, and the secrets in it. -/
def remoteOf (services : Services) (app : ComposeApp) : Option (JsString × List JsString) :=
  let remote := app.gitUrl.getD []
  match app.source, truthy app.gitCredentialId with
  | .git, some id => do
    let (username, token) ← services.credential id
    let remote ← services.authenticateUrl remote username token
    let encoded ← encodeURIComponent token
    pure (remote, [token, encoded])
  | _, _ => some (remote, [])

/-- The script of an action and the files it needs; `none` is an exception. -/
def plan (services : Services) (app : ComposeApp) (action : ComposeAction) (p : Paths)
    (keepVolumes : Bool) : Option Plan :=
  if action = .deploy then
    let override := truthy (services.renderOverride services.mounts)
    (remoteOf services app).map fun (remote, secrets) =>
      { script := join (deployLines app p override services.mounts remote) (js "\n")
        files := (ENV_FILE, ComposeEnvFile.envFile services.resolved) ::
          (if app.source = .template then [(app.composePath, app.composeContent.getD [])] else []) ++
          (override.map fun content => (OVERRIDE_FILE, content)).toList
        secrets := services.resolved.secrets ++ secrets }
  else some ⟨join (laterLines app p action keepVolumes) (js "\n"), [], []⟩

/-- A word character, a dot, a slash or a dash. -/
def isPathChar (c : CodeUnit) : Bool :=
  isLetter c || isDigit c || c = cu '_' || c = cu '.' || c = cu '/' || c = cu '-'

/-- The paths the API accepts. -/
def isComposePath (path : JsString) : Bool :=
  1 ≤ path.length && path.length ≤ 200 && path.all isPathChar

/-! ## The words of the scripts -/

/-- A character that stands for itself wherever it is. -/
def isPlain (c : CodeUnit) : Bool := isOrdinary c && isInert c

variable {t : JsString}

theorem ordinary_of_plain (h : t.all isPlain = true) :
    t.all isOrdinary = true ∧ t.all isInert = true := by
  simp only [List.all_eq_true, isPlain, Bool.and_eq_true] at h ⊢
  exact ⟨fun c hc => (h c hc).1, fun c hc => (h c hc).2⟩

/-- A token that stands for itself. -/
def plainToken (t : String) : Token CodeUnit := .word (literal (js t))

abbrev Item := JsString × List (Token CodeUnit)

def Item.Fits (item : Item) : Prop := Lexes item.1 item.2

/-- A text that is filled in as it is. -/
def plainItem (t : JsString) : Item := (t, [.word (literal t)])

/-- A text in quotes, behind one that is filled in as it is. -/
def quotedItem (front t : JsString) : Item :=
  (front ++ shellQuote t, [.word (literal front ++ quotePieces t)])

theorem plainItem_fits (hne : t ≠ []) (h : t.all isPlain = true) : (plainItem t).Fits :=
  (scan_plain hne (ordinary_of_plain h).1).lexes

variable {front : JsString}

theorem quotedItem_fits (h : front.all isPlain = true) (t : JsString) :
    (quotedItem front t).Fits := by
  by_cases hne : front = []
  · subst hne
    exact (scan_quote t).lexes
  · exact ((scan_plain hne (ordinary_of_plain h).1).append (scan_quote t)).lexes

section Words
variable (app : ComposeApp) (p : Paths)

def overridePath : JsString := composeDir app p ++ js "/" ++ OVERRIDE_FILE

def overrideWord : Word CodeUnit :=
  if cu '/' ∈ app.composePath then
    literal (p.src ++ js "/") ++ quotePieces (folderOf app.composePath) ++ literal (js "/" ++ OVERRIDE_FILE)
  else literal (p.src ++ (js "/" ++ OVERRIDE_FILE))

def overrideItem : Item := (overridePath app p, [.word (overrideWord app p)])

def composeFileItem : Item := quotedItem (p.src ++ js "/") app.composePath

def overrideValue : Word CodeUnit := .quotes :: (js "-f " ++ overridePath app p).map fun c => .char c true

def composeItems : List Item :=
  [(js "docker compose -p", [plainToken "docker", plainToken "compose", plainToken "-p"]),
    quotedItem [] (composeProjectFor app), plainItem (js "--env-file"),
    plainItem (p.src ++ js "/" ++ ENV_FILE), plainItem (js "-f"), composeFileItem app p]

/-- The end of a later script. -/
def endItem (action : ComposeAction) (keepVolumes : Bool) : Item :=
  match action with
  | .stop => (js "$OVERRIDE stop", [.word [.var (js "OVERRIDE") false], plainToken "stop"])
  | .start => (js "$OVERRIDE start", [.word [.var (js "OVERRIDE") false], plainToken "start"])
  | .down =>
    if keepVolumes then
      (js "$OVERRIDE down --remove-orphans",
        [.word [.var (js "OVERRIDE") false], plainToken "down", plainToken "--remove-orphans"])
    else
      (js "$OVERRIDE down --volumes --remove-orphans", [.word [.var (js "OVERRIDE") false],
        plainToken "down", plainToken "--volumes", plainToken "--remove-orphans"])
  | .deploy => ([], [])

def laterItems (action : ComposeAction) (keepVolumes : Bool) : List (List Item) :=
  [[(js "set -e", [plainToken "set", plainToken "-e"])],
    [(js "[ -f", [plainToken "[", plainToken "-f"]), composeFileItem app p,
      (js "] || \x7b echo \"No checkout yet; deploy first\"; exit 3; \x7d",
        [plainToken "]", .or, plainToken "\x7b", plainToken "echo",
          .word (.quotes :: (js "No checkout yet; deploy first").map fun c => .char c true), .semi,
          plainToken "exit", plainToken "3", .semi, plainToken "\x7d"])],
    [(js "OVERRIDE=\"\"; [ -f", [.word (literal (js "OVERRIDE=") ++ [.quotes]), .semi,
        plainToken "[", plainToken "-f"]),
      overrideItem app p, (js "] &&", [plainToken "]", .and]),
      (js "OVERRIDE=" ++ (cu '"' :: (js "-f " ++ overridePath app p ++ js "\"")),
        [.word (literal (js "OVERRIDE=") ++ overrideValue app p)])],
    composeItems app p ++ [endItem action keepVolumes]]

def lineOf (items : List Item) : JsString := [cu ' '].intercalate (items.map Prod.fst)

end Words

variable {action : ComposeAction}

section Reading
variable {app : ComposeApp} {p : Paths}

theorem lineOf_singleton (item : Item) : lineOf [item] = item.1 := intercalate_singleton

theorem lineOf_cons (item : Item) {items : List Item} (hne : items ≠ []) :
    lineOf (item :: items) = item.1 ++ cu ' ' :: lineOf items := by
  rw [lineOf, map_cons, intercalate_cons_of_ne_nil (by simpa using hne), append_assoc]
  rfl

theorem lineOf_append {items items' : List Item} (hne : items ≠ []) (hne' : items' ≠ []) :
    lineOf (items ++ items') = lineOf items ++ cu ' ' :: lineOf items' := by
  induction items with
  | nil => exact absurd rfl hne
  | cons item items ih =>
    by_cases hlast : items = []
    · subst hlast
      rw [singleton_append, lineOf_cons item hne', lineOf_singleton]
    · rw [cons_append, lineOf_cons item (by simp [hlast]), ih hlast, lineOf_cons item hlast,
        append_assoc]
      rfl

set_option maxRecDepth 8000 in
theorem lineOf_compose : lineOf (composeItems app p) = js "docker compose " ++ baseArgs app p := by
  rw [lineOf, composeItems, composeFileItem, quotedItem, quotedItem, plainItem, plainItem,
    plainItem, baseArgs]
  simp only [map_cons, map_nil, intercalate_cons_cons, intercalate_singleton,
    append_assoc, nil_append]
  repeat rw [js_ofList]
  rfl

theorem actionLines_eq (h : action ≠ .deploy) (keepVolumes : Bool) :
    actionLines (baseArgs app p ++ js " $OVERRIDE") keepVolumes action =
      [lineOf (composeItems app p ++ [endItem action keepVolumes])] := by
  have hne : composeItems app p ≠ [] := cons_ne_nil _ _
  rw [lineOf_append hne (cons_ne_nil _ _), lineOf_compose, lineOf_singleton, append_assoc]
  cases action with
  | stop =>
    simp only [actionLines, endItem, append_assoc]
    repeat rw [js_ofList]
    rfl
  | start =>
    simp only [actionLines, endItem, append_assoc]
    repeat rw [js_ofList]
    rfl
  | down =>
    simp only [actionLines, endItem, append_assoc]
    repeat rw [js_ofList]
    cases keepVolumes <;> rfl
  | deploy => exact absurd rfl h

set_option maxRecDepth 8000 in
theorem laterLines_eq (h : action ≠ .deploy) (keepVolumes : Bool) :
    laterLines app p action keepVolumes = (laterItems app p action keepVolumes).map lineOf := by
  rw [laterLines, actionLines_eq h]
  simp only [laterItems, map_cons, map_nil, lineOf_cons _ (cons_ne_nil _ _),
    lineOf_singleton,
    append_assoc, composeFileItem, quotedItem, overrideItem, overridePath]
  repeat rw [js_ofList]
  rfl

/-! What the texts are read as -/

variable {c : CodeUnit}

theorem plain_of_pathChar (h : isPathChar c = true) : isPlain c = true := by
  have hne : ∀ d, isPathChar d = false → c ≠ d := by
    rintro d hd rfl
    rw [h] at hd
    cases hd
  simp only [isPlain, isOrdinary, isInert, Shell.isBlank, Bool.and_eq_true, Bool.not_eq_true',
    Bool.or_eq_false_iff,
    decide_eq_true_eq, decide_eq_false_iff_not, ne_eq]
  and_intros <;> exact hne _ (by decide)

theorem plain_path {path : JsString} (h : isComposePath path = true) : path.all isPlain = true := by
  simp only [isComposePath, Bool.and_eq_true] at h
  exact all_eq_true.mpr fun c hc => plain_of_pathChar (all_eq_true.mp h.2 c hc)

theorem folderOf_subset (path : JsString) : folderOf path ⊆ path :=
  fun _ hc => (List.rdropWhile_prefix _ _).subset (dropLast_subset _ hc)

variable {t' : JsString}

theorem all_subset {f : CodeUnit → Bool} (h : t ⊆ t') (ht : t'.all f = true) : t.all f = true :=
  all_eq_true.mpr fun c hc => all_eq_true.mp ht c (h hc)

def tokensOf (lines : List (List Item)) : List (Token CodeUnit) :=
  [.semi].intercalate (lines.map fun items => items.flatMap Prod.snd)

theorem script_lexes {lines : List (List Item)} (hne : lines ≠ [])
    (h : ∀ items ∈ lines, items ≠ [] ∧ ∀ item ∈ items, item.Fits) :
    Lexes (join (lines.map lineOf) (js "\n")) (tokensOf lines) := by
  have hlines : ∀ line ∈ lines.map fun items => (lineOf items, items.flatMap Prod.snd),
      Lexes line.1 line.2 := by
    intro line hline
    obtain ⟨items, hitems, rfl⟩ := mem_map.mp hline
    exact lexes_spaced (h items hitems).1 (h items hitems).2
  have hscript := lexes_lines (by simpa using hne) hlines
  rw [List.map_map, List.map_map] at hscript
  exact hscript

theorem plain_append (h : t.all isPlain = true) (h' : t'.all isPlain = true) :
    (t ++ t').all isPlain = true := by
  rw [all_append, h, h']
  rfl

section Fits
variable (hsrc : p.src.all isPlain = true) (hpath : isComposePath app.composePath = true)
include hsrc

theorem plain_front : (p.src ++ js "/").all isPlain = true := plain_append hsrc (by decide)

theorem overrideItem_fits : (overrideItem app p).Fits := by
  have hfile : (js "/" ++ OVERRIDE_FILE).all isPlain = true := by decide
  by_cases hslash : cu '/' ∈ app.composePath
  · have hgrows := ((scan_plain (append_ne_nil_of_right_ne_nil _ (by decide)) (ordinary_of_plain (plain_front hsrc)).1).append
      (scan_quote (folderOf app.composePath))).append (scan_plain (by decide) (ordinary_of_plain hfile).1)
    rw [Item.Fits, overrideItem, overridePath, composeDir, if_pos hslash, overrideWord, if_pos hslash,
      append_assoc _ (js "/")]
    exact hgrows.lexes
  · rw [Item.Fits, overrideItem, overridePath, composeDir, if_neg hslash, overrideWord, if_neg hslash,
      append_assoc]
    exact plainItem_fits (append_ne_nil_of_right_ne_nil _ (by decide)) (plain_append hsrc hfile)

theorem composeFileItem_fits : (composeFileItem app p).Fits := quotedItem_fits (plain_front hsrc) _

theorem composeItems_fits : ∀ item ∈ composeItems app p, item.Fits := by
  have henv : (p.src ++ js "/" ++ ENV_FILE).all isPlain = true :=
    plain_append (plain_front hsrc) (by decide)
  simp only [composeItems, forall_mem_cons, not_mem_nil, false_imp_iff, implies_true, and_true]
  exact ⟨lexes_scan (by decide), quotedItem_fits rfl _, plainItem_fits (by decide) (by decide),
    plainItem_fits (append_ne_nil_of_right_ne_nil _ (by decide)) henv, plainItem_fits (by decide) (by decide),
    composeFileItem_fits hsrc⟩

include hpath

theorem mem_overridePath (hc : c ∈ overridePath app p) : isPlain c = true ∨ c = cu '\'' := by
  have hplain : ∀ {t : JsString}, t.all isPlain = true → c ∈ t → isPlain c = true :=
    fun ht hmem => all_eq_true.mp ht c hmem
  rw [overridePath, composeDir, append_assoc, mem_append] at hc
  rcases hc with hc | hc
  · split_ifs at hc
    · rw [mem_append] at hc
      rcases hc with hc | hc
      · exact Or.inl (hplain (plain_front hsrc) hc)
      · have hfolder := all_subset (folderOf_subset _) (plain_path hpath)
        simp only [shellQuote, cons_append, mem_cons, mem_append, mem_flatMap,
          not_mem_nil, or_false] at hc
        rcases hc with rfl | ⟨d, hd, hcd⟩ | rfl
        · exact Or.inr rfl
        · have hd' : isPlain d = true := all_eq_true.mp hfolder d hd
          have hne : d ≠ cu '\'' := by
            rintro rfl
            exact absurd hd' (by decide)
          rw [if_neg hne, mem_singleton] at hcd
          exact Or.inl (hcd ▸ hd')
        · exact Or.inr rfl
    · exact Or.inl (hplain hsrc hc)
  · exact Or.inl (hplain (by decide) hc)

theorem inert_overridePath : (overridePath app p).all isInert = true := by
  rw [List.all_eq_true]
  intro c hc
  rcases mem_overridePath hsrc hpath hc with hplain | rfl
  · rw [isPlain, Bool.and_eq_true] at hplain
    exact hplain.2
  · decide

/-- Nothing is filled in between double quotes. -/
theorem overrideValue_fits :
    Lexes (js "OVERRIDE=" ++ (cu '"' :: (js "-f " ++ overridePath app p ++ js "\"")))
    [.word (literal (js "OVERRIDE=") ++ overrideValue app p)] := by
  have hquote : ∀ c ∈ js "-f " ++ overridePath app p, c ≠ cu '"' ∧ c ≠ cu '\\' ∧ c ≠ cu '$' ∧ c ≠ cu '`' := by
    intro c hc
    have hchar : isPlain c = true ∨ c = cu '\'' ∨ c = cu ' ' := by
      rcases List.mem_append.mp hc with hc | hc
      · have hopt : (js "-f ").all (fun c => isPlain c || c == cu ' ') = true := by decide
        have hc' := List.all_eq_true.mp hopt c hc
        rw [Bool.or_eq_true, beq_iff_eq] at hc'
        exact hc'.imp id Or.inr
      · exact (mem_overridePath hsrc hpath hc).imp id Or.inl
    have hne : ∀ d, isPlain d = false → d ≠ cu '\'' → d ≠ cu ' ' → c ≠ d := by
      rintro d hd hapostrophe hspace rfl
      rcases hchar with h | h | h
      · rw [h] at hd
        cases hd
      · exact hapostrophe h
      · exact hspace h
    and_intros <;> exact hne _ (by decide) (by decide) (by decide)
  exact ((scan_plain (by decide) (by decide)).append (scan_double hquote)).lexes

theorem laterItems_fit (action : ComposeAction) (keepVolumes : Bool) :
    ∀ items ∈ laterItems app p action keepVolumes, items ≠ [] ∧ ∀ item ∈ items, item.Fits := by
  have hend : (endItem action keepVolumes).Fits := by
    refine lexes_scan ?_
    simp only [endItem, plainToken]
    repeat rw [js_ofList]
    cases action <;> cases keepVolumes <;> decide
  simp only [laterItems, List.forall_mem_cons, List.not_mem_nil, false_imp_iff, implies_true,
    and_true, ne_eq,
    reduceCtorEq, not_false_eq_true, true_and]
  refine ⟨lexes_scan ?_, ⟨lexes_scan ?_, composeFileItem_fits hsrc, lexes_scan ?_⟩,
    ⟨lexes_scan ?_, overrideItem_fits hsrc, lexes_scan ?_, overrideValue_fits hsrc hpath⟩,
    by exact List.cons_ne_nil _ _, ?calls⟩
  case calls =>
    intro item hitem
    rcases List.mem_append.mp hitem with hitem | hitem
    · exact composeItems_fits hsrc item hitem
    · exact List.mem_singleton.mp hitem ▸ hend
  all_goals
    simp only [plainToken]
    repeat rw [js_ofList]
    decide

end Fits

/-! ## The commands of a later script -/

def call (ws : List (Word CodeUnit)) : Command CodeUnit := .simple [] ws []

def plainWords (ts : List String) : List (Word CodeUnit) := ts.map fun t => literal (js t)

section Commands
variable (app p)

def composeFileWord : Word CodeUnit := literal (p.src ++ js "/") ++ quotePieces app.composePath

/-- The words of a call of Compose up to the override. -/
def baseWords : List (Word CodeUnit) :=
  plainWords ["docker", "compose", "-p"] ++ [quotePieces (composeProjectFor app), literal (js "--env-file"),
    literal (p.src ++ js "/" ++ ENV_FILE), literal (js "-f"),
    composeFileWord app p]

def endWords (keepVolumes : Bool) : ComposeAction → List String
  | .stop => ["stop"]
  | .start => ["start"]
  | .down => if keepVolumes then ["down", "--remove-orphans"] else ["down", "--volumes", "--remove-orphans"]
  | .deploy => []

/-- `[ -f file ]`. -/
def testFile (file : Word CodeUnit) : Command CodeUnit :=
  call [literal (js "["), literal (js "-f"), file, literal (js "]")]

/-- The script ends if there is no checkout. -/
def noCheckout : Command CodeUnit :=
  .seq (call [literal (js "echo"), .quotes :: (js "No checkout yet; deploy first").map fun c => .char c true])
    (call (plainWords ["exit", "3"]))

def laterCommand (action : ComposeAction) (keepVolumes : Bool) : Command CodeUnit :=
  .seq (call (plainWords ["set", "-e"])) <|
    .seq (.or (testFile (composeFileWord app p)) noCheckout) <|
    .seq (.simple [(js "OVERRIDE", [.quotes])] [] []) <|
    .seq (.and (testFile (overrideWord app p)) (.simple [(js "OVERRIDE", overrideValue app p)] [] [])) <|
    call (baseWords app p ++ [.var (js "OVERRIDE") false] :: plainWords (endWords keepVolumes action))

end Commands

set_option maxRecDepth 4000 in
theorem parseList_later (h : action ≠ .deploy) (keepVolumes : Bool) :
    parseList (4 * (tokensOf (laterItems app p action keepVolumes)).length + 4)
        (skipSemis (tokensOf (laterItems app p action keepVolumes))) =
      some (laterCommand app p action keepVolumes, []) := by
  cases action with
  | stop => rfl
  | start => rfl
  | down => cases keepVolumes <;> rfl
  | deploy => exact absurd rfl h

theorem parse_later (hsrc : p.src.all isPlain = true) (hpath : isComposePath app.composePath = true)
    (h : action ≠ .deploy) (keepVolumes : Bool) :
    parse (join (laterLines app p action keepVolumes) (js "\n")) = some (laterCommand app p action keepVolumes) := by
  rw [laterLines_eq h]
  exact (script_lexes (List.cons_ne_nil _ _) (laterItems_fit hsrc hpath action keepVolumes)).parse
    (parseList_later h keepVolumes)

end Reading

/-! ## What a later script does -/

variable {ws : List (Word CodeUnit)}

section Running
variable {W : Type} {host : Host CodeUnit W} {pipefail tested : Bool} {stdin : JsString}
  {sub : JsString → State CodeUnit W → JsString × State CodeUnit W} {s : State CodeUnit W}
  {app : ComposeApp} {p : Paths}

theorem exec_call (hws : ws.all isStatic = true) (hne : ws ≠ []) :
    exec host pipefail sub (call ws) tested stdin s =
      settle tested ((builtin host (ws.map wordText) s).getD (external host (ws.map wordText) stdin s)) :=
  exec_argv (all_plainWord hws) (argvOf_static hws) (by simpa using hne) tested stdin

theorem exec_setErrexit : exec host pipefail sub (call (plainWords ["set", "-e"])) tested stdin s =
    ({ s with status := 0, errexit := true }, []) := by
  rw [exec_call (by decide) (by exact List.cons_ne_nil _ _)]
  exact if_neg fun h => h.2.2 rfl

variable {file : Word CodeUnit}

theorem exec_testFile (hfile : isStatic file = true) :
    exec host pipefail sub (testFile file) true stdin s =
      ({ s with status := if host.isFile (wordText file) s.world then 0 else 1 }, []) := by
  have hws : [literal (js "["), literal (js "-f"), file, literal (js "]")].all isStatic = true := by
    simp only [List.all_cons, hfile]
    decide
  rw [testFile, exec_call hws (List.cons_ne_nil _ _)]
  exact if_neg fun h => Bool.noConfusion h.2.1

theorem exec_found (hfile : isStatic file = true)
    (hthere : host.isFile (wordText file) s.world = true) :
    exec host pipefail sub (testFile file) true stdin s = ({ s with status := 0 }, []) := by
  rw [exec_testFile hfile, if_pos hthere]

theorem exec_notFound (hfile : isStatic file = true)
    (hthere : ¬ host.isFile (wordText file) s.world = true) :
    exec host pipefail sub (testFile file) true stdin s = ({ s with status := 1 }, []) := by
  rw [exec_testFile hfile, if_neg hthere]

variable (host pipefail stdin sub s) in
theorem exec_noCheckout (hexited : s.exited = false) :
    (exec host pipefail sub noCheckout false stdin s).1.exited = true ∧
      (exec host pipefail sub noCheckout false stdin s).1.calls = s.calls := by
  have hecho : ∃ out, exec host pipefail sub (call [literal (js "echo"),
      .quotes :: (js "No checkout yet; deploy first").map fun c => .char c true]) false stdin s =
      ({ s with status := 0 }, out) := by
    rw [exec_call (by decide) (List.cons_ne_nil _ _)]
    exact ⟨_, if_neg fun h => h.2.2 rfl⟩
  have hexit : ∀ s : State CodeUnit W, ∃ n out,
      exec host pipefail sub (call (plainWords ["exit", "3"])) false stdin s =
        ({ s with status := n, exited := true }, out) := by
    intro s
    rw [exec_call (by decide) (by exact List.cons_ne_nil _ _)]
    exact ⟨3, [], ite_self _⟩
  obtain ⟨out, hecho⟩ := hecho
  rw [noCheckout, exec_seq_goes hecho hexited]
  obtain ⟨n, out', hexit⟩ := hexit { s with status := 0 }
  rw [hexit]
  exact ⟨rfl, rfl⟩

def composeFile (app : ComposeApp) (p : Paths) : JsString := p.src ++ js "/" ++ app.composePath

def overrideFile (app : ComposeApp) (p : Paths) : JsString :=
  if cu '/' ∈ app.composePath then p.src ++ js "/" ++ folderOf app.composePath ++ (js "/" ++ OVERRIDE_FILE)
  else p.src ++ (js "/" ++ OVERRIDE_FILE)

section Words
variable (app p)

def baseArgv : List JsString :=
  [js "docker", js "compose", js "-p", composeProjectFor app, js "--env-file", p.src ++ js "/" ++ ENV_FILE,
    js "-f", composeFile app p]

end Words

variable (hsrc : p.src.all isPlain = true) (hpath : isComposePath app.composePath = true)

theorem wordText_override : wordText (overrideWord app p) = overrideFile app p := by
  rw [overrideWord, overrideFile]
  split_ifs <;> simp

theorem wordText_base : (baseWords app p).map wordText = baseArgv app p := by
  simp [baseWords, plainWords, baseArgv, composeFileWord, composeFile]

theorem static_plain (hne : t ≠ []) (h : t.all isPlain = true) : isStatic (literal t) = true :=
  isStatic_safe (by simpa [literal] using hne) (safe_literal (ordinary_of_plain h).2)

include hsrc

theorem safe_front : (literal (p.src ++ js "/")).all Piece.isSafe = true :=
  safe_literal (ordinary_of_plain (plain_front hsrc)).2

theorem static_composeFile : isStatic (composeFileWord app p) = true := by
  refine isStatic_safe (List.append_ne_nil_of_right_ne_nil _ (List.cons_ne_nil _ _)) ?_
  rw [composeFileWord, List.all_append, safe_front hsrc, safe_quote]
  rfl

theorem static_override : isStatic (overrideWord app p) = true := by
  have hfile : (literal (js "/" ++ OVERRIDE_FILE)).all Piece.isSafe = true := by decide
  have hne : literal (js "/" ++ OVERRIDE_FILE) ≠ [] := by decide
  rw [overrideWord]
  split_ifs
  · refine isStatic_safe (List.append_ne_nil_of_right_ne_nil _ hne) ?_
    rw [List.all_append, List.all_append, safe_front hsrc, safe_quote, hfile]
    rfl
  · have hplain : (p.src ++ (js "/" ++ OVERRIDE_FILE)).all isPlain = true :=
      plain_append hsrc (by decide)
    exact static_plain (List.append_ne_nil_of_right_ne_nil _ (by decide)) hplain

theorem static_base : (baseWords app p).all isStatic = true := by
  have henv : isStatic (literal (p.src ++ js "/" ++ ENV_FILE)) = true :=
    static_plain (List.append_ne_nil_of_right_ne_nil _ (by decide))
      (plain_append (plain_front hsrc) (by decide))
  have hproject : isStatic (quotePieces (composeProjectFor app)) = true :=
    isStatic_safe (List.cons_ne_nil _ _) (safe_quote _)
  rw [baseWords, List.all_append]
  simp only [List.all_cons, List.all_nil, henv, hproject, static_composeFile hsrc]
  decide

omit hsrc in
theorem argvOf_append (ws ws' : List (Word CodeUnit)) :
    argvOf host s (ws ++ ws') = argvOf host s ws ++ argvOf host s ws' := List.flatMap_append

variable (host pipefail stdin sub) in
/-- The variable is set if there is an override. -/
theorem exec_findOverride (hexited : s.exited = false) (hunset : s.vars (js "OVERRIDE") = []) :
    let s' := (exec host pipefail sub (.and (testFile (overrideWord app p))
      (.simple [(js "OVERRIDE", overrideValue app p)] [] [])) false stdin s).1
    s'.exited = false ∧ s'.world = s.world ∧ s'.calls = s.calls ∧
      s'.vars (js "OVERRIDE") = [cu ' '].intercalate
        (if host.isFile (overrideFile app p) s.world then [js "-f", overridePath app p] else []) := by
  obtain ⟨hall, htext⟩ := wordText_double (js "-f " ++ overridePath app p)
  have hfile : wordText (overrideWord app p) = overrideFile app p := wordText_override
  intro s'
  by_cases hthere : host.isFile (overrideFile app p) s.world = true
  · have hfound : exec host pipefail sub (testFile (overrideWord app p)) true stdin s =
        ({ s with status := 0 }, []) :=
      exec_found (static_override hsrc) (hfile.symm ▸ hthere)
    have hset : s' = ({ s with status := 0 } : State CodeUnit W).assign (js "OVERRIDE")
        (js "-f " ++ overridePath app p) 0 := by
      rw [← htext]
      exact (exec_and_goes hfound hexited rfl).trans (congrArg Prod.fst (exec_assignText hall false stdin))
    rw [if_pos hthere, hset, State.assign_vars_self, List.intercalate_cons_cons, List.intercalate_singleton]
    exact ⟨hexited, rfl, rfl, rfl⟩
  · have hmissing : exec host pipefail sub (testFile (overrideWord app p)) true stdin s =
        ({ s with status := 1 }, []) := exec_notFound (static_override hsrc) (hfile.symm ▸ hthere)
    have hkept : s' = { s with status := 1 } := congrArg Prod.fst (exec_and_stops hmissing one_ne_zero)
    rw [if_neg hthere, hkept]
    exact ⟨hexited, rfl, rfl, hunset⟩

theorem exec_lastCall (action : ComposeAction) (keepVolumes : Bool) {ts : List JsString}
    (hvalue : s.vars (js "OVERRIDE") = [cu ' '].intercalate ts)
    (hts : ∀ t ∈ ts, t ≠ [] ∧ t.all isInert = true) :
    ∃ c, (exec host pipefail sub (call (baseWords app p ++ [.var (js "OVERRIDE") false] ::
        plainWords (endWords keepVolumes action))) false stdin s).1.calls = s.calls ++ [c] ∧
      c.argv = baseArgv app p ++ ts ++ (endWords keepVolumes action).map js := by
  have hend : (plainWords (endWords keepVolumes action)).all isStatic = true := by
    cases action <;> cases keepVolumes <;> decide
  have hvar : wordFields host s [.var (js "OVERRIDE") false] = ts := wordFields_var (by decide) hvalue hts
  have hargv : argvOf host s (baseWords app p ++ [.var (js "OVERRIDE") false] ::
      plainWords (endWords keepVolumes action)) =
      baseArgv app p ++ (ts ++ (endWords keepVolumes action).map js) := by
    rw [argvOf_append, argvOf_static (static_base hsrc), wordText_base]
    show _ ++ (wordFields host s [.var (js "OVERRIDE") false] ++ argvOf host s _) = _
    rw [hvar, argvOf_static hend]
    simp [plainWords]
  have hplain : (baseWords app p ++ [.var (js "OVERRIDE") false] ::
      plainWords (endWords keepVolumes action)).all plainWord = true := by
    rw [List.all_append, List.all_cons, all_plainWord (static_base hsrc), all_plainWord hend]
    rfl
  have hprogram : builtin host (baseArgv app p ++ (ts ++ (endWords keepVolumes action).map js)) s = none :=
    builtin_none (by decide)
  rw [call, exec_argv hplain hargv (List.cons_ne_nil _ _), calls_settle, hprogram, List.append_assoc]
  exact ⟨_, rfl, rfl⟩

variable (host pipefail stdin sub) in
/-- **What a later script calls.** -/
theorem calls_later (hpath : isComposePath app.composePath = true) (action : ComposeAction)
    (keepVolumes : Bool)
    (hexited : s.exited = false) :
    let calls := (exec host pipefail sub (laterCommand app p action keepVolumes) false stdin s).1.calls
    if host.isFile (composeFile app p) s.world then
      ∃ c, calls = s.calls ++ [c] ∧ c.argv = baseArgv app p ++
        (if host.isFile (overrideFile app p) s.world then [js "-f", overridePath app p] else []) ++
        (endWords keepVolumes action).map js
    else calls = s.calls := by
  have hfile : wordText (composeFileWord app p) = composeFile app p := by
    simp [composeFileWord, composeFile]
  obtain ⟨s₁, hset, hexited₁, hworld₁, hcalls₁⟩ : ∃ s₁, exec host pipefail sub (call (plainWords ["set", "-e"]))
      false stdin s = (s₁, []) ∧ s₁.exited = false ∧ s₁.world = s.world ∧ s₁.calls = s.calls :=
    ⟨_, exec_setErrexit, hexited, rfl, rfl⟩
  intro calls
  have hgoes : calls = _ := congrArg State.calls (exec_seq_goes hset hexited₁)
  rw [hgoes, ← hworld₁, ← hcalls₁]
  clear hgoes calls hset hworld₁ hcalls₁ hexited
  by_cases hthere : host.isFile (composeFile app p) s₁.world = true
  · have hfound : exec host pipefail sub (.or (testFile (composeFileWord app p)) noCheckout) false stdin s₁ =
        ({ s₁ with status := 0 }, []) :=
      exec_or_stops (exec_found (static_composeFile hsrc) (hfile.symm ▸ hthere)) rfl
    obtain ⟨s₂, hunset, hexited₂, hworld₂, hcalls₂, hempty₂⟩ : ∃ s₂ : State CodeUnit W,
        exec host pipefail sub (.simple [(js "OVERRIDE", [.quotes])] [] []) false stdin { s₁ with status := 0 } =
          (s₂, []) ∧ s₂.exited = false ∧ s₂.world = s₁.world ∧ s₂.calls = s₁.calls ∧
          s₂.vars (js "OVERRIDE") = [] :=
      ⟨_, exec_assignText rfl false stdin, hexited₁, rfl, rfl, State.assign_vars_self _ _ _ _⟩
    rw [if_pos hthere, exec_seq_goes hfound hexited₁, exec_seq_goes hunset hexited₂]
    obtain ⟨hexited₃, -, hcalls₃, hvalue⟩ := exec_findOverride host pipefail stdin sub hsrc hexited₂ hempty₂
    rw [exec_seq_goes rfl hexited₃, ← hworld₂, ← hcalls₂, ← hcalls₃]
    refine exec_lastCall hsrc action keepVolumes hvalue ?_
    intro t ht
    split_ifs at ht
    · rcases List.mem_cons.mp ht with rfl | ht
      · exact ⟨by decide, by decide⟩
      · obtain rfl := List.mem_singleton.mp ht
        exact ⟨List.append_ne_nil_of_right_ne_nil _ (by decide), inert_overridePath hsrc hpath⟩
    · cases ht
  · have hmissing : exec host pipefail sub (testFile (composeFileWord app p)) true stdin s₁ =
        ({ s₁ with status := 1 }, []) := exec_notFound (static_composeFile hsrc) (hfile.symm ▸ hthere)
    have hor : (exec host pipefail sub (.or (testFile (composeFileWord app p)) noCheckout) false stdin s₁).1 =
        (exec host pipefail sub noCheckout false stdin { s₁ with status := 1 }).1 := by
      rw [exec_or_goes hmissing hexited₁ one_ne_zero]
    obtain ⟨hends, hcalls⟩ := exec_noCheckout host pipefail stdin sub { s₁ with status := 1 } hexited₁
    rw [if_neg hthere, exec_seq_ends rfl (hor ▸ hends), hor]
    exact hcalls

end Running

/-! ## The commands of a deploy -/

section Deploy
variable (app : ComposeApp) (p : Paths) (remote : JsString) (overridden force : Bool)

def checkoutItems : List (List Item) :=
  match app.source with
  | .template =>
    [[(js "rm -rf", [plainToken "rm", plainToken "-rf"]), plainItem p.src,
        (js "&& mkdir -p", [.and, plainToken "mkdir", plainToken "-p"]), plainItem p.src],
      [plainItem (js "mv"), quotedItem (p.work ++ js "/") app.composePath, composeFileItem app p]]
  | .git =>
    [[(js "rm -rf", [plainToken "rm", plainToken "-rf"]), plainItem p.src,
      (js "&& git clone --quiet --depth 1 --branch", [.and, plainToken "git", plainToken "clone",
        plainToken "--quiet", plainToken "--depth", plainToken "1", plainToken "--branch"]),
      quotedItem [] app.gitBranch, quotedItem [] remote, plainItem p.src,
      (js "&& rm -rf", [.and, plainToken "rm", plainToken "-rf"]), plainItem (p.src ++ js "/.git")]]

def composeCall (last : Item) : List Item :=
  composeItems app p ++ (if overridden then [plainItem (js "-f"), overrideItem app p] else []) ++ [last]

def upItem : Item :=
  if force then
    (js "up -d --build --remove-orphans --force-recreate", [plainToken "up", plainToken "-d", plainToken "--build",
      plainToken "--remove-orphans", plainToken "--force-recreate"])
  else
    (js "up -d --build --remove-orphans", [plainToken "up", plainToken "-d", plainToken "--build",
      plainToken "--remove-orphans"])

def deployItems : List (List Item) :=
  [(js "set -e", [plainToken "set", plainToken "-e"])] :: checkoutItems app p remote ++
    [[plainItem (js "mv"), plainItem (p.work ++ js "/" ++ ENV_FILE), plainItem (p.src ++ js "/" ++ ENV_FILE)]] ++
    (if overridden then
      [[plainItem (js "mv"), plainItem (p.work ++ js "/" ++ OVERRIDE_FILE), overrideItem app p]] else []) ++
    [composeCall app p overridden (js "config --quiet", [plainToken "config", plainToken "--quiet"]),
      composeCall app p overridden (upItem force)]

end Deploy

section Reading
variable {app : ComposeApp} {p : Paths} {remote : JsString}

theorem checkout_eq : checkout app p remote = (checkoutItems app p remote).map lineOf := by
  unfold checkout checkoutItems
  cases app.source with
  | template =>
    simp only [map_cons, map_nil, lineOf_cons _ (cons_ne_nil _ _), lineOf_singleton,
      append_assoc, composeFileItem, quotedItem, plainItem]
    repeat rw [js_ofList]
    rfl
  | git =>
    simp only [map_cons, map_nil, lineOf_cons _ (cons_ne_nil _ _), lineOf_singleton,
      append_assoc, quotedItem, plainItem, nil_append]
    repeat rw [js_ofList]
    rfl

theorem composeCall_eq (override : Option JsString) (last : Item) :
    lineOf (composeCall app p override.isSome last) =
      js "docker compose " ++ composeArgs app p override ++ cu ' ' :: last.1 := by
  have hne : composeItems app p ≠ [] := cons_ne_nil _ _
  cases override with
  | none =>
    simp only [composeCall, composeArgs, isSome_none, Bool.false_eq_true, if_false, append_nil]
    rw [lineOf_append hne (cons_ne_nil _ _), lineOf_compose, lineOf_singleton]
  | some content =>
    simp only [composeCall, composeArgs, isSome_some, if_true]
    rw [append_assoc, lineOf_append hne (by exact cons_ne_nil _ _), lineOf_compose]
    simp only [cons_append, nil_append, lineOf_cons _ (cons_ne_nil _ _),
      lineOf_singleton, plainItem,
      overrideItem, overridePath, append_assoc]
    rfl

theorem deployLines_eq (override : Option JsString) (mounts : List Compose.ComposeMount) :
    deployLines app p override mounts remote =
      (deployItems app p remote override.isSome (mountsFile mounts)).map lineOf := by
  have hup : js " up -d --build --remove-orphans" ++ (if mountsFile mounts then js " --force-recreate" else []) =
      cu ' ' :: (upItem (mountsFile mounts)).1 := by
    simp only [upItem]
    repeat rw [js_ofList]
    cases mountsFile mounts <;> rfl
  simp only [deployLines, deployItems, map_append, map_cons, map_nil, checkout_eq,
    composeCall_eq, append_assoc, hup, lineOf_cons _ (cons_ne_nil _ _), lineOf_singleton,
    plainItem]
  cases override with
  | none =>
    repeat rw [js_ofList]
    rfl
  | some content =>
    simp only [isSome_some, if_true, map_cons, map_nil,
      lineOf_cons _ (cons_ne_nil _ _),
      lineOf_singleton, overrideItem, overridePath, append_assoc]
    repeat rw [js_ofList]
    rfl

/-- What is filled in can be read. -/
structure Paths.Plain (p : Paths) : Prop where
  ne : p.src ≠ []
  src : p.src.all isPlain = true
  work : p.work.all isPlain = true

variable (hp : p.Plain)
include hp

theorem move_fits (name : JsString) (hname : (js "/" ++ name).all isPlain = true) :
    (plainItem (p.work ++ js "/" ++ name)).Fits := by
  have hne : js "/" ++ name ≠ [] := cons_ne_nil _ _
  rw [append_assoc]
  exact plainItem_fits (append_ne_nil_of_right_ne_nil _ hne) (plain_append hp.work hname)

theorem checkoutItems_fit :
    ∀ items ∈ checkoutItems app p remote, items ≠ [] ∧ ∀ item ∈ items, item.Fits := by
  have hsrc : (plainItem p.src).Fits := plainItem_fits hp.ne hp.src
  have hgit : (plainItem (p.src ++ js "/.git")).Fits :=
    plainItem_fits (append_ne_nil_of_right_ne_nil _ (by decide)) (plain_append hp.src (by decide))
  have hwork : (p.work ++ js "/").all isPlain = true := plain_append hp.work (by decide)
  unfold checkoutItems
  cases app.source with
  | template =>
    simp only [forall_mem_cons, not_mem_nil, false_imp_iff, implies_true, and_true, ne_eq,
      reduceCtorEq,
      not_false_eq_true, true_and]
    refine ⟨⟨lexes_scan ?_, hsrc, lexes_scan ?_, hsrc⟩, plainItem_fits (by decide) (by decide),
      quotedItem_fits hwork _, composeFileItem_fits hp.src⟩
    all_goals
      simp only [plainToken]
      repeat rw [js_ofList]
      decide
  | git =>
    simp only [forall_mem_cons, not_mem_nil, false_imp_iff, implies_true, and_true, ne_eq,
      reduceCtorEq,
      not_false_eq_true, true_and]
    refine ⟨lexes_scan ?_, hsrc, lexes_scan ?_, quotedItem_fits rfl _, quotedItem_fits rfl _, hsrc,
      lexes_scan ?_, hgit⟩
    all_goals
      simp only [plainToken]
      repeat rw [js_ofList]
      decide

theorem composeCall_fits (overridden : Bool) {last : Item} (hlast : last.Fits) :
    composeCall app p overridden last ≠ [] ∧ ∀ item ∈ composeCall app p overridden last, item.Fits := by
  refine ⟨append_ne_nil_of_right_ne_nil _ (cons_ne_nil _ _), ?_⟩
  intro item hitem
  rw [composeCall, mem_append, mem_append] at hitem
  rcases hitem with (hitem | hitem) | hitem
  · exact composeItems_fits hp.src item hitem
  · split_ifs at hitem
    · rcases mem_cons.mp hitem with rfl | hitem
      · exact plainItem_fits (by decide) (by decide)
      · exact mem_singleton.mp hitem ▸ overrideItem_fits hp.src
    · cases hitem
  · exact mem_singleton.mp hitem ▸ hlast

theorem deployItems_fit (overridden force : Bool) :
    ∀ items ∈ deployItems app p remote overridden force, items ≠ [] ∧ ∀ item ∈ items, item.Fits := by
  have hmv : (plainItem (js "mv")).Fits := plainItem_fits (by decide) (by decide)
  have henv : (plainItem (p.src ++ js "/" ++ ENV_FILE)).Fits :=
    plainItem_fits (append_ne_nil_of_right_ne_nil _ (by decide))
      (plain_append (plain_front hp.src) (by decide))
  have hup : (upItem force).Fits := by
    refine lexes_scan ?_
    simp only [upItem, plainToken]
    repeat rw [js_ofList]
    cases force <;> decide
  have hset : Item.Fits (js "set -e", [plainToken "set", plainToken "-e"]) := by
    refine lexes_scan ?_
    simp only [plainToken]
    repeat rw [js_ofList]
    decide
  have hconfig : Item.Fits (js "config --quiet", [plainToken "config", plainToken "--quiet"]) := by
    refine lexes_scan ?_
    simp only [plainToken]
    repeat rw [js_ofList]
    decide
  intro items hitems
  rw [deployItems, mem_append, mem_append, mem_append, mem_cons] at hitems
  rcases hitems with (((rfl | hitems) | hitems) | hitems) | hitems
  · refine ⟨cons_ne_nil _ _, fun item hitem => ?_⟩
    exact mem_singleton.mp hitem ▸ hset
  · exact checkoutItems_fit hp items hitems
  · obtain rfl := mem_singleton.mp hitems
    refine ⟨cons_ne_nil _ _, ?_⟩
    simp only [forall_mem_cons, not_mem_nil, false_imp_iff, implies_true, and_true]
    exact ⟨hmv, move_fits hp _ (by decide), henv⟩
  · split_ifs at hitems
    · obtain rfl := mem_singleton.mp hitems
      refine ⟨cons_ne_nil _ _, ?_⟩
      simp only [forall_mem_cons, not_mem_nil, false_imp_iff, implies_true, and_true]
      exact ⟨hmv, move_fits hp _ (by decide), overrideItem_fits hp.src⟩
    · cases hitems
  · rcases mem_cons.mp hitems with rfl | hitems
    · exact composeCall_fits hp overridden hconfig
    · exact mem_singleton.mp hitems ▸ composeCall_fits hp overridden hup

omit hp

section Commands
variable (app p remote) (overridden force : Bool)

def moveCommand (source target : Word CodeUnit) : Command CodeUnit :=
    call [literal (js "mv"), source, target]

def checkoutCommands : List (Command CodeUnit) :=
  match app.source with
  | .template =>
    [.and (call (plainWords ["rm", "-rf"] ++ [literal p.src])) (call (plainWords ["mkdir", "-p"] ++ [literal p.src])),
      moveCommand (literal (p.work ++ js "/") ++ quotePieces app.composePath) (composeFileWord app p)]
  | .git =>
    [.and (.and (call (plainWords ["rm", "-rf"] ++ [literal p.src]))
      (call (plainWords ["git", "clone", "--quiet", "--depth", "1", "--branch"] ++
        [quotePieces app.gitBranch, quotePieces remote, literal p.src])))
      (call (plainWords ["rm", "-rf"] ++ [literal (p.src ++ js "/.git")]))]

def composeWords (last : List String) : List (Word CodeUnit) :=
  baseWords app p ++ (if overridden then [literal (js "-f"), overrideWord app p] else []) ++ plainWords last

def upWords : List String :=
  ["up", "-d", "--build", "--remove-orphans"] ++ if force then ["--force-recreate"] else []

def deployCommands : List (Command CodeUnit) :=
  call (plainWords ["set", "-e"]) :: checkoutCommands app p remote ++
    [moveCommand (literal (p.work ++ js "/" ++ ENV_FILE)) (literal (p.src ++ js "/" ++ ENV_FILE))] ++
    (if overridden then
      [moveCommand (literal (p.work ++ js "/" ++ OVERRIDE_FILE)) (overrideWord app p)] else []) ++
    [call (composeWords app p overridden ["config", "--quiet"]), call (composeWords app p overridden (upWords force))]

end Commands

set_option maxRecDepth 4000 in
theorem parseList_deploy (overridden force : Bool) :
    parseList (4 * (tokensOf (deployItems app p remote overridden force)).length + 4)
        (skipSemis (tokensOf (deployItems app p remote overridden force))) =
      some (sequence (deployCommands app p remote overridden force), []) := by
  unfold deployItems checkoutItems deployCommands checkoutCommands
  cases app.source <;> cases overridden <;> cases force <;> rfl

theorem parse_deploy (hp : p.Plain) (override : Option JsString) (mounts : List Compose.ComposeMount) :
    parse (join (deployLines app p override mounts remote) (js "\n")) =
      some (sequence (deployCommands app p remote override.isSome (mountsFile mounts))) := by
  rw [deployLines_eq]
  exact (script_lexes (cons_ne_nil _ _) (deployItems_fit hp override.isSome (mountsFile mounts))).parse
    (parseList_deploy override.isSome (mountsFile mounts))

/-! What is called -/

def isCompose (argv : List JsString) : Bool := argv.take 2 = [js "docker", js "compose"]

/-- The options in front of the command of Compose. -/
def optionPairs : List JsString → List (JsString × JsString)
  | name :: value :: rest =>
    if name = js "-p" ∨ name = js "--env-file" ∨ name = js "-f" then (name, value) :: optionPairs rest else []
  | _ => []

/-- The project, the env file and the compose files of a call. -/
def optionsOf (argv : List JsString) : List (JsString × JsString) := optionPairs (argv.drop 2)

theorem static_quote (t : JsString) : isStatic (quotePieces t) = true :=
  isStatic_safe (cons_ne_nil _ _) (safe_quote t)

theorem static_under (h : front.all isPlain = true) {name : JsString} (hne : name ≠ [])
    (hname : name.all isPlain = true) : isStatic (literal (front ++ name)) = true :=
  static_plain (append_ne_nil_of_right_ne_nil _ hne) (plain_append h hname)

/-- Nothing is filled in, and Compose is called with these options or not at all. -/
def Says (options : List (JsString × JsString)) (c : Command CodeUnit) : Prop :=
  c.isStatic = true ∧ ∀ argv ∈ c.argvs, isCompose argv = true → optionsOf argv = options

variable {options : List (JsString × JsString)}

theorem says_other (name : String) (hname : js name ≠ js "docker")
    (hstatic : (literal (js name) :: ws).all isStatic = true) :
    Says options (call (literal (js name) :: ws)) := by
  refine ⟨by simp [call, Command.isStatic, hstatic], ?_⟩
  intro argv hargv hcompose
  obtain rfl := mem_singleton.mp hargv
  rw [isCompose, decide_eq_true_eq, map_cons, wordText_literal] at hcompose
  exact absurd (List.cons.inj hcompose).1 hname

theorem says_and {c d : Command CodeUnit} (hc : Says options c) (hd : Says options d) :
    Says options (.and c d) := by
  refine ⟨by rw [Command.isStatic, hc.1, hd.1]; rfl, ?_⟩
  intro argv hargv hcompose
  rcases mem_append.mp hargv with hargv | hargv
  · exact hc.2 argv hargv hcompose
  · exact hd.2 argv hargv hcompose

section Options
variable (app p)

/-- The options of a call with these compose files behind the stack's own. -/
def optionsWith (files : List JsString) : List (JsString × JsString) :=
  [(js "-p", composeProjectFor app), (js "--env-file", p.src ++ js "/" ++ ENV_FILE), (js "-f", composeFile app p)] ++
    files.map fun file => (js "-f", file)

end Options

theorem optionsOf_base (files : List JsString) {last : List JsString} (hlast : optionPairs last = []) :
    optionsOf (baseArgv app p ++ files.flatMap (fun file => [js "-f", file]) ++ last) =
      optionsWith app p files := by
  have hfiles : optionPairs (files.flatMap (fun file => [js "-f", file]) ++ last) =
      files.map fun file => (js "-f", file) := by
    induction files with
    | nil => exact hlast
    | cons file files ih =>
      rw [flatMap_cons, map_cons, ← ih]
      exact if_pos (Or.inr (Or.inr rfl))
  rw [optionsOf, append_assoc, optionsWith, ← hfiles]
  simp [baseArgv, optionPairs]

theorem says_compose (hp : p.Plain) (overridden : Bool) {last : List String}
    (hlast : (plainWords last).all isStatic = true) (hpairs : optionPairs (last.map js) = []) :
    Says (optionsWith app p (if overridden then [overrideFile app p] else []))
      (call (composeWords app p overridden last)) := by
  have hne : composeWords app p overridden last ≠ [] := by
    rw [composeWords, append_assoc]
    exact append_ne_nil_of_left_ne_nil (by exact cons_ne_nil _ _) _
  have hstatic : (composeWords app p overridden last).all isStatic = true := by
    rw [composeWords, all_append, all_append, static_base hp.src, hlast]
    split_ifs
    · simp [static_override hp.src]
      decide
    · rfl
  refine ⟨by simp [call, Command.isStatic, hstatic, hne], ?_⟩
  intro argv hargv _
  obtain rfl := mem_singleton.mp hargv
  have htexts : (composeWords app p overridden last).map wordText = baseArgv app p ++
      (if overridden then [overrideFile app p] else []).flatMap (fun file => [js "-f", file]) ++ last.map js := by
    rw [composeWords, map_append, map_append, wordText_base]
    cases overridden <;> simp [plainWords, wordText_override]
  rw [htexts]
  exact optionsOf_base _ hpairs

theorem says_checkout (hp : p.Plain) :
    ∀ c ∈ checkoutCommands app p remote, Says options c := by
  have hsrc : isStatic (literal p.src) = true := static_plain hp.ne hp.src
  have hgit : isStatic (literal (p.src ++ js "/.git")) = true :=
    static_under hp.src (by decide) (by decide)
  have hwork : isStatic (literal (p.work ++ js "/") ++ quotePieces app.composePath) = true := by
    have hplain : (p.work ++ js "/").all isPlain = true := plain_append hp.work (by decide)
    refine isStatic_safe (append_ne_nil_of_right_ne_nil _ (cons_ne_nil _ _)) ?_
    rw [all_append, safe_literal (ordinary_of_plain hplain).2, safe_quote]
    rfl
  have hplainWords : ∀ t ∈ ["rm", "-rf", "mkdir", "-p", "git", "clone", "--quiet", "--depth", "1", "--branch", "mv"],
      isStatic (literal (js t)) = true := by decide
  simp only [forall_mem_cons] at hplainWords
  have hremove : ∀ {w : Word CodeUnit}, isStatic w = true →
      Says options (call (plainWords ["rm", "-rf"] ++ [w])) := by
    intro w hw
    refine says_other "rm" (by decide) ?_
    simp [hplainWords, hw]
  unfold checkoutCommands
  cases app.source with
  | template =>
    simp only [forall_mem_cons, not_mem_nil, false_imp_iff, implies_true, and_true]
    refine ⟨says_and (hremove hsrc) (says_other "mkdir" (by decide) ?_), says_other "mv" (by decide) ?_⟩
    · simp [hplainWords, hsrc]
    · simp [hplainWords, hwork, static_composeFile hp.src]
  | git =>
    simp only [forall_mem_cons, not_mem_nil, false_imp_iff, implies_true, and_true]
    refine says_and (says_and (hremove hsrc) (says_other "git" (by decide) ?_)) (hremove hgit)
    simp [hplainWords, hsrc, static_quote]

theorem says_deploy (hp : p.Plain) (overridden force : Bool) :
    ∀ c ∈ deployCommands app p remote overridden force,
      Says (optionsWith app p (if overridden then [overrideFile app p] else [])) c := by
  have hunder : ∀ {front name : JsString}, front.all isPlain = true → (js "/" ++ name).all isPlain = true →
      isStatic (literal (front ++ js "/" ++ name)) = true := by
    intro front name hfront hname
    rw [append_assoc]
    exact static_under hfront (cons_ne_nil _ _) hname
  have hmove : ∀ {v w : Word CodeUnit}, isStatic v = true → isStatic w = true →
      Says (optionsWith app p (if overridden then [overrideFile app p] else [])) (moveCommand v w) := by
    intro v w hv hw
    refine says_other "mv" (by decide) ?_
    simp only [all_cons, hv, hw]
    decide
  intro c hc
  rw [deployCommands, mem_append, mem_append, mem_append, mem_cons] at hc
  rcases hc with (((rfl | hc) | hc) | hc) | hc
  · exact says_other "set" (by decide) (by decide)
  · exact says_checkout hp c hc
  · exact mem_singleton.mp hc ▸ hmove (hunder hp.work (by decide)) (hunder hp.src (by decide))
  · split_ifs at hc
    · exact mem_singleton.mp hc ▸ hmove (hunder hp.work (by decide)) (static_override hp.src)
    · cases hc
  · rcases mem_cons.mp hc with rfl | hc
    · exact says_compose hp overridden (by decide) (by decide)
    · refine mem_singleton.mp hc ▸ says_compose hp overridden ?_ ?_
      · cases force <;> decide
      · cases force <;> decide

variable (app remote) in
/-- **What a deploy calls.** -/
theorem options_deploy {W : Type} (host : Host CodeUnit W) (pipefail : Bool) (hp : p.Plain)
    (override : Option JsString) (mounts : List Compose.ComposeMount) (vars : JsString → JsString) (w : W) :
    ∀ c ∈ (sh host pipefail (join (deployLines app p override mounts remote) (js "\n")) vars w).1.calls,
      isCompose c.argv = true →
        optionsOf c.argv = optionsWith app p (if override.isSome then [overrideFile app p] else []) := by
  have htells : ∀ c ∈ deployCommands app p remote override.isSome (mountsFile mounts), Says _ c :=
    says_deploy hp override.isSome (mountsFile mounts)
  have hne : deployCommands app p remote override.isSome (mountsFile mounts) ≠ [] := cons_ne_nil _ _
  rw [sh_eq (parse_deploy hp override mounts)]
  obtain ⟨new, hnew, hin⟩ := exec_static host pipefail (substitute host pipefail _)
    (isStatic_sequence hne fun c hc => (htells c hc).1) false [] (initial vars w)
  intro c hc hcompose
  rw [hnew] at hc
  have hmem := hin c hc
  rw [argvs_sequence hne, mem_flatMap] at hmem
  obtain ⟨d, hd, hargv⟩ := hmem
  exact (htells d hd).2 c.argv hargv hcompose

end Reading

/-! ## The options of both -/

section Options
variable {app : ComposeApp} {p : Paths}

theorem optionsWith_inj {files files' : List JsString} :
    optionsWith app p files = optionsWith app p files' ↔ files = files' := by
  rw [optionsWith, optionsWith, append_cancel_left_eq]
  exact List.map_inj_right fun _ _ h => (Prod.mk.inj h).2

/-- The quotes in the variable are none. -/
theorem overridePath_eq_iff : overridePath app p = overrideFile app p ↔ cu '/' ∉ app.composePath := by
  rw [overridePath, composeDir, overrideFile]
  by_cases hslash : cu '/' ∈ app.composePath
  · rw [if_pos hslash, if_pos hslash]
    refine iff_of_false (fun heq => ?_) (not_not_intro hslash)
    have hfolder : (folderOf app.composePath).length ≤
        ((folderOf app.composePath).flatMap fun c => if c = cu '\'' then js "'\\''" else [c]).length := by
      rw [length_flatMap]
      generalize folderOf app.composePath = folder
      induction folder with
      | nil => exact Nat.le_refl _
      | cons c cs ih =>
        rw [map_cons, sum_cons, length_cons]
        split_ifs
        · have hfour : (js "'\\''").length = 4 := by decide
          omega
        · rw [length_singleton]
          omega
    have hlength := congrArg List.length heq
    simp only [shellQuote, length_append, length_cons, length_nil] at hlength
    omega
  · rw [if_neg hslash, if_neg hslash, append_assoc]
    exact iff_of_true rfl hslash

theorem options_later {W : Type} (host : Host CodeUnit W) (pipefail : Bool)
    (hsrc : p.src.all isPlain = true) (hpath : isComposePath app.composePath = true)
    (haction : action ≠ .deploy) (keepVolumes : Bool) (vars : JsString → JsString) (w : W) :
    let calls := (sh host pipefail (join (laterLines app p action keepVolumes) (js "\n")) vars w).1.calls
    if host.isFile (composeFile app p) w then
      ∃ c, calls = [c] ∧ isCompose c.argv = true ∧ optionsOf c.argv =
        optionsWith app p (if host.isFile (overrideFile app p) w then [overridePath app p] else [])
    else calls = [] := by
  intro calls
  have hend : optionPairs ((endWords keepVolumes action).map js) = [] := by
    cases action <;> cases keepVolumes <;> decide
  have hinitial : (initial vars w : State CodeUnit W).exited = false := rfl
  have hcalls := calls_later host pipefail []
    (substitute host pipefail (join (laterLines app p action keepVolumes) (js "\n")).length) hsrc hpath action
    keepVolumes hinitial
  rw [← sh_eq (parse_later hsrc hpath haction keepVolumes)] at hcalls
  have hworld : (initial vars w : State CodeUnit W).world = w := rfl
  rw [hworld] at hcalls
  by_cases hthere : host.isFile (composeFile app p) w = true
  · rw [if_pos hthere] at hcalls ⊢
    obtain ⟨c, hcall, hargv⟩ := hcalls
    refine ⟨c, hcall, by rw [hargv]; rfl, ?_⟩
    rw [hargv, ← optionsOf_base _ hend]
    congr 3
    split_ifs <;> rfl
  · rw [if_neg hthere] at hcalls ⊢
    exact hcalls

end Options

theorem plain_paths {m : JsString} (hm : m.all isPlain = true) : (pathsOf m).Plain :=
  ⟨append_ne_nil_of_right_ne_nil _ (by decide), plain_append hm (by decide), hm⟩

/-- The override that a deploy writes. -/
def overrideOf (services : Services) : Option JsString := truthy (services.renderOverride services.mounts)

variable {services : Services} {app : ComposeApp} {p : Paths} {keepVolumes : Bool}

theorem plan_deploy {d : Plan} (h : plan services app .deploy p keepVolumes = some d) :
    ∃ remote, d.script = join (deployLines app p (overrideOf services) services.mounts remote) (js "\n") := by
  rw [plan, if_pos rfl, map_eq_some_iff] at h
  obtain ⟨⟨remote, secrets⟩, -, rfl⟩ := h
  exact ⟨remote, rfl⟩

theorem plan_later {l : Plan} (haction : action ≠ .deploy)
    (h : plan services app action p keepVolumes = some l) :
    l.script = join (laterLines app p action keepVolumes) (js "\n") := by
  rw [plan, if_neg haction] at h
  rw [← some.inj h]

def callsOf {W : Type} (host : Host CodeUnit W) (pipefail : Bool) (plan : Plan) (vars : JsString → JsString)
    (w : W) : List (Call CodeUnit W) :=
  (sh host pipefail plan.script vars w).1.calls

def SameOptions {W : Type} (deploy later : List (Call CodeUnit W)) : Prop :=
  (∃ c ∈ later, isCompose c.argv = true) ∧ ∀ c ∈ later, isCompose c.argv = true →
    ∀ d ∈ deploy, isCompose d.argv = true → optionsOf c.argv = optionsOf d.argv

/-- **A later script acts on what has been deployed** exactly if the compose file is there, the override
is where the deploy has put it if and only if it has, and there is none if the compose file is in a
folder. -/
theorem same_options_iff {W : Type} (host : Host CodeUnit W) (pipefail : Bool)
    (services services' : Services)
    (app : ComposeApp) (hpath : isComposePath app.composePath = true) {m : JsString}
    (hm : m.all isPlain = true) (keepVolumes keepVolumes' : Bool) {action : ComposeAction}
    (haction : action ≠ .deploy) {d l : Plan}
    (hd : plan services app .deploy (pathsOf m) keepVolumes' = some d)
    (hl : plan services' app action (pathsOf m) keepVolumes = some l) (vars vars' : JsString → JsString)
    (w w' : W) (hran : ∃ c ∈ callsOf host pipefail d vars w, isCompose c.argv = true) :
    SameOptions (callsOf host pipefail d vars w) (callsOf host pipefail l vars' w') ↔
      host.isFile (composeFile app (pathsOf m)) w' = true ∧
        host.isFile (overrideFile app (pathsOf m)) w' = (overrideOf services).isSome ∧
        ((overrideOf services).isSome = true → cu '/' ∉ app.composePath) := by
  have hp := plain_paths hm
  obtain ⟨remote, hscript⟩ := plan_deploy hd
  have hdeploy := options_deploy app remote host pipefail hp (overrideOf services) services.mounts vars w
  rw [← hscript] at hdeploy
  have hlater := options_later host pipefail hp.src hpath haction keepVolumes vars' w'
  rw [← plan_later haction hl] at hlater
  obtain ⟨c, hc, hcompose⟩ := hran
  by_cases hthere : host.isFile (composeFile app (pathsOf m)) w' = true
  · rw [if_pos hthere] at hlater
    obtain ⟨e, he, hecompose, heoptions⟩ := hlater
    have hsame : SameOptions (callsOf host pipefail d vars w) (callsOf host pipefail l vars' w') ↔
        optionsOf e.argv = optionsOf c.argv := by
      rw [SameOptions, callsOf, callsOf, he]
      constructor
      · exact fun h => h.2 e List.mem_cons_self hecompose c hc hcompose
      · intro h
        refine ⟨⟨e, List.mem_cons_self, hecompose⟩, ?_⟩
        intro e' he' _ d' hd' hdcompose
        rw [List.mem_singleton.mp he', h, hdeploy c hc hcompose, hdeploy d' hd' hdcompose]
    rw [hsame, heoptions, hdeploy c hc hcompose, optionsWith_inj, ← overridePath_eq_iff (p := pathsOf m)]
    cases host.isFile (overrideFile app (pathsOf m)) w' <;> cases (overrideOf services).isSome <;> simp [hthere]
  · rw [if_neg hthere] at hlater
    refine iff_of_false ?_ fun h => hthere h.1
    rintro ⟨⟨e, he, -⟩, -⟩
    rw [callsOf, hlater] at he
    cases he

/-! ## A stack with a route -/

/-- A helper whose programs all succeed; of the file system only the names of the files are left. -/
def helper : Host CodeUnit (List JsString) where
  exec argv _ files :=
    let last := argv.getLastD []
    if argv.head? = some (js "rm") then (0, [], files.filter fun file => !startsWith file last)
    else if argv.head? = some (js "git") then
      (0, [], (last ++ js "/compose.yaml") :: (last ++ js "/stack/compose.yaml") :: files)
    else if argv.head? = some (js "mv") then (0, [], last :: files)
    else (0, [], files)
  openFile _ files := some files
  writeFile _ _ files := files
  isFile path files := path ∈ files
  glob _ _ := []

/-- A repository with compose files. -/
def stack (composePath : JsString) : ComposeApp where
  slug := js "shop"
  composePath := composePath
  source := .git
  composeContent := none
  gitUrl := some (js "https://git.example/shop")
  gitBranch := js "main"
  gitCredentialId := none

/-- One of the stack's services has a route. -/
def routed : Services where
  resolved := ⟨[], []⟩
  credential _ := none
  authenticateUrl _ _ _ := none
  mounts := []
  renderOverride _ := some (js "services: \x7b\x7d")

def volume : JsString := js "/var/lib/docker/volumes/aoox_compose_shop/_data"

instance {W : Type} (deploy later : List (Call CodeUnit W)) : Decidable (SameOptions deploy later) :=
  inferInstanceAs (Decidable (_ ∧ _))

/-- **The override is lost in a folder**: the deploy of `stack/compose.yaml` succeeds, and the stop behind
it looks for the override under a path with quotes in it. -/
theorem override_lost :
    ∃ d l, isComposePath (js "stack/compose.yaml") = true ∧
      plan routed (stack (js "stack/compose.yaml")) .deploy (pathsOf volume) false = some d ∧
      plan routed (stack (js "stack/compose.yaml")) .stop (pathsOf volume) false = some l ∧
      let s := (sh helper false d.script (fun _ => []) []).1
      s.status = 0 ∧ (∃ c ∈ s.calls, isCompose c.argv = true) ∧
        ¬ SameOptions s.calls (callsOf helper false l (fun _ => []) s.world) := by
  refine ⟨_, _, by decide, rfl, rfl, ?_⟩
  decide +kernel

/-- The deploy of a stack whose compose file is in no folder, and the stop behind it. -/
theorem same_options_routed :
    ∃ d l, plan routed (stack (js "compose.yaml")) .deploy (pathsOf volume) false = some d ∧
      plan routed (stack (js "compose.yaml")) .stop (pathsOf volume) false = some l ∧
      SameOptions (callsOf helper false d (fun _ => []) [])
        (callsOf helper false l (fun _ => []) (sh helper false d.script (fun _ => []) []).1.world) := by
  refine ⟨_, _, rfl, rfl, ?_⟩
  refine (same_options_iff helper false routed routed (stack (js "compose.yaml")) (by decide) (by decide +kernel)
    false false (show ComposeAction.stop ≠ .deploy by decide) rfl rfl _ _ _ _ ?_).mpr ?_
  · decide +kernel
  · decide +kernel

end Aoox.ComposePlan
