import Aoox.VariableSetEnvironment

/-! # Who sees the values of an environment

Everyone who sees a variable set sees the names, flags and notes of its environments and what
their versions changed.  The values are for those who may use them: no viewer, only the
platform's owners and admins where the environment is protected, and only the environments a
token's scope names.  Every operation on values asks for that before it reads a text, and a
comparison that may not read both texts falls back to the lists of names.

So a caller who may not use the values of an environment learns nothing about them: two
databases that differ in its texts alone answer every operation on it alike, and stay as they
are (`hidden_values`).
-/
namespace Aoox.EnvironmentAccess
open JsString Environments Bool

/-! ## Roles -/

inductive ProjectRole where
  | viewer
  | developer
  | admin
  deriving DecidableEq

def RANK : ProjectRole → Nat
  | .viewer => 1
  | .developer => 2
  | .admin => 3

/-- The caller's projects and roles; `none` is `'all'`. -/
structure ProjectRoles where
  platform : Bool
  roles : Option (List (Nat × ProjectRole))

inductive SetRole where
  | platform
  | project (role : ProjectRole)
  deriving DecidableEq

structure VariableSet where
  slug : JsString
  sharedWithAll : Bool
  /-- The projects it is shared with explicitly. -/
  projectIds : List Nat

def better (best : Option ProjectRole) (role : Option ProjectRole) : Option ProjectRole :=
  match best, role with
  | none, role => role
  | best, none => best
  | some b, some r => if RANK r > RANK b then some r else some b

/-- The caller's role on a set; `none` when it is not visible to them. -/
def setRoleFor (ctx : ProjectRoles) (set : VariableSet) : Option SetRole :=
  match ctx.roles with
  | none => some .platform
  | some roles =>
    let candidates :=
      if set.sharedWithAll then roles.map Prod.fst
      else set.projectIds.filter fun id => (Assoc.get roles id).isSome
    if candidates = [] then none
    else if ctx.platform then some .platform
    else (candidates.foldl (fun best id => better best (Assoc.get roles id)) none).map .project

/-- Whether the scopes of a token name the environment; `none` narrows nothing. -/
def variableScopeAllows (scopes : Option (List JsString)) (setSlug environment : JsString) : Bool :=
  match scopes with
  | none => true
  | some scopes => scopes.any fun entry =>
      match indexOf [cu '/'] entry 0 with
      | some (i + 1) =>
        let s := sliceTo entry (i + 1)
        let e := sliceFrom entry (i + 2)
        (s = js "*" || s = setSlug) && (e = js "*" || e = environment)
      | _ => false

/-- A request: who makes it, their roles and the variable scopes of their token. -/
structure Caller where
  actor : EnvActor
  ctx : ProjectRoles
  variableScopes : Option (List JsString)

/-! ## The tables -/

structure EnvRecord where
  (id variableSetId : Nat)
  isProtected : Bool
  env : Environment

/-- A row of the query of `usersOf`. -/
structure Usage where
  environmentId : Nat
  isCompose : Bool
  id : Nat
  name : JsString
  projectId : Nat
  projectName : JsString
  position : Nat

structure Database where
  sets : Nat → Option VariableSet
  /-- In the order of their creation. -/
  environments : List EnvRecord
  /-- In the order of the projects' names, then their own. -/
  usage : List Usage

inductive Failure where
  | forbidden (message : JsString)
  | refused (refusal : Refusal)

def Version.hide (v : Version) : Version := { v with variablesEncrypted := none }

def hideTexts (env : Environment) : Environment :=
  { row := { env.row with variablesEncrypted := none }
    versions := env.versions.map Version.hide }

def EnvRecord.hide (e : Nat) (r : EnvRecord) : EnvRecord :=
  if r.id = e then { r with env := hideTexts r.env } else r

/-- What is left of the database without the texts of one environment and its versions. -/
def Database.hide (e : Nat) (d : Database) : Database :=
  { d with environments := d.environments.map (EnvRecord.hide e) }

/-! ## Access -/

structure SetAccess where
  set : VariableSet
  role : SetRole

def load (c : Caller) (d : Database) (setId : Nat) : Except Failure SetAccess :=
  let refusal := Failure.refused (.notFound (js "Variable set not found"))
  match d.sets setId with
  | none => .error refusal
  | some set =>
    match setRoleFor c.ctx set with
    | none => .error refusal
    | some role => .ok ⟨set, role⟩

def tokenMayUse (c : Caller) (access : SetAccess) (r : EnvRecord) : Bool :=
  variableScopeAllows c.variableScopes access.set.slug r.env.row.name

/-- Whether the caller may read (and therefore edit) this environment's values. -/
def mayUseValues (c : Caller) (access : SetAccess) (r : EnvRecord) : Bool :=
  if access.role = .project .viewer then false
  else if r.isProtected && access.role ≠ .platform then false
  else tokenMayUse c access r

/-- Same rule as `mayUseValues`, with the reason as a 403. -/
def assertValues (c : Caller) (access : SetAccess) (r : EnvRecord) : Except Failure Unit :=
  if access.role = .project .viewer then
    .error (.forbidden (js "Viewers cannot read or change variable values"))
  else if !tokenMayUse c access r then
    .error (.forbidden
      (js "This API token is limited to " ++ join (c.variableScopes.getD []) (js ", ")))
  else if r.isProtected && access.role ≠ .platform then
    .error (.forbidden
      (js "Only instance owners and admins can read or change the values of the protected \"" ++
        r.env.row.name ++ js "\" environment"))
  else .ok ()

/-- The environment, which must belong to the set. -/
def findInSet (d : Database) (envId setId : Nat) : Except Failure EnvRecord :=
  match d.environments.find? fun r => r.id = envId && r.variableSetId = setId with
  | none => .error (.refused (.notFound (js "Environment not found")))
  | some r => .ok r

def findByName (d : Database) (setId : Nat) (name : JsString) : Except Failure EnvRecord :=
  match d.environments.find? fun r => r.variableSetId = setId && r.env.row.name = name with
  | none => .error (.refused (.notFound (js "Environment \"" ++ name ++ js "\" not found")))
  | some r => .ok r

/-- Access check shared by every value operation. -/
def guardValues (c : Caller) (d : Database) (setId envId : Nat) :
    Except Failure (EnvRecord × SetAccess) := do
  let access ← load c d setId
  let r ← findInSet d envId setId
  assertValues c access r
  .ok (r, access)

/-! ## Views -/

structure EnvironmentUser where
  isCompose : Bool
  id : Nat
  name : JsString
  projectId : Nat
  projectName : JsString
  position : Nat

structure EnvironmentView where
  id : Nat
  name : JsString
  isProtected : Bool
  (keys secretKeys plainKeys : List JsString)
  notes : VariableNotes
  updatedAt : Nat
  usedBy : List EnvironmentUser

/-- The first or second half of `flagLists`. -/
def flagged (flags : SecretFlags) (secret : Bool) : List JsString :=
  (flags.filter fun e => e.2 = .bool secret).map Prod.fst

/-- The users of an environment in projects the caller may see. -/
def usersOf (d : Database) (ctx : ProjectRoles) (envId : Nat) : List EnvironmentUser :=
  (d.usage.filter fun u => u.environmentId = envId &&
    (ctx.roles.all fun roles => (Assoc.get roles u.projectId).isSome)).map fun u =>
      ⟨u.isCompose, u.id, u.name, u.projectId, u.projectName, u.position⟩

def view (d : Database) (ctx : ProjectRoles) (r : EnvRecord) : EnvironmentView where
  id := r.id
  name := r.env.row.name
  isProtected := r.isProtected
  keys := r.env.row.keys
  secretKeys := flagged r.env.row.secretFlags true
  plainKeys := flagged r.env.row.secretFlags false
  notes := r.env.row.notes
  updatedAt := r.env.token
  usedBy := usersOf d ctx r.id

def DEFAULT_ENVIRONMENTS : List JsString := [js "development", js "staging", js "production"]

def rank (name : JsString) : Nat := DEFAULT_ENVIRONMENTS.idxOf name

/-- Environments of a set in display order. -/
def listOf (d : Database) (setId : Nat) : List EnvRecord :=
  (d.environments.filter fun r => r.variableSetId = setId).insertionSort fun r r' =>
    rank r.env.row.name ≤ rank r'.env.row.name

/-- The environments of `VariableSetService.detail`. -/
def detail (c : Caller) (d : Database) (setId : Nat) : Except Failure (List EnvironmentView) := do
  let _ ← load c d setId
  .ok ((listOf d setId).map (view d c.ctx))

structure RevealView where
  text : JsString
  (keys secretKeys plainKeys : List JsString)
  notes : VariableNotes
  updatedAt : Nat

def reveal (c : Caller) (d : Database) (setId envId : Nat) : Except Failure RevealView := do
  let (r, _) ← guardValues c d setId envId
  let row := r.env.row
  .ok ⟨r.env.text, row.keys, flagged row.secretFlags true, flagged row.secretFlags false, row.notes,
    r.env.token⟩

structure VersionView where
  (id createdAt : Nat)
  authorEmail : Option JsString
  via : VersionVia
  action : VersionAction
  detail : Option JsString
  summary : ChangeSummary
  notes : VariableNotes
  /-- The newest version is the current content. -/
  current : Bool

/-- Never values; anyone who sees the set may read it. -/
def listVersions (c : Caller) (d : Database) (setId envId : Nat) :
    Except Failure (List VersionView) := do
  let _ ← load c d setId
  let r ← findInSet d envId setId
  .ok (((newestFirst r.env.versions).take ENV_VERSION_KEEP).mapIdx fun i v =>
    ⟨v.id, v.createdAt / 1000, v.authorEmail, v.via, v.action, v.detail, v.summary, v.notes, i = 0⟩)

structure RevealedVersion where
  text : JsString
  (secretKeys plainKeys : List JsString)
  notes : VariableNotes
  createdAt : Nat

/-- Same rules as revealing the environment. -/
def revealVersion (c : Caller) (d : Database) (setId envId versionId : Nat) :
    Except Failure RevealedVersion := do
  let (r, _) ← guardValues c d setId envId
  match r.env.versions.find? fun v => v.id = versionId with
  | none => .error (.refused (.notFound (js "Version not found")))
  | some v =>
    .ok ⟨v.text, flagged v.secretFlags true, flagged v.secretFlags false, v.notes,
      v.createdAt / 1000⟩

/-! ## Comparing -/

structure EnvComparison where
  (onlyInFrom onlyInTo different same : List JsString)

def compareEnvTexts (fromText toText : JsString) : EnvComparison :=
  let source := envMap fromText
  let target := envMap toText
  { onlyInFrom := (source.filter fun e => (Assoc.get target e.1).isNone).map Prod.fst
    onlyInTo := (target.filter fun e => (Assoc.get source e.1).isNone).map Prod.fst
    different := (source.filter fun e =>
      (Assoc.get target e.1).isSome && Assoc.get target e.1 ≠ some e.2).map Prod.fst
    same := (source.filter fun e => Assoc.get target e.1 = some e.2).map Prod.fst }

structure EnvironmentDiff where
  (fromEnv toEnv : Nat × JsString)
  /-- Values are compared only when the caller may reveal both sides. -/
  comparable : Bool
  (onlyInFrom onlyInTo inBoth : List JsString)
  (different same : Option (List JsString))

/-- `diff`, behind its queries. -/
def compare (c : Caller) (access : SetAccess) (source target : EnvRecord) : EnvironmentDiff :=
  if mayUseValues c access source && mayUseValues c access target then
    let cmp := compareEnvTexts source.env.text target.env.text
    { fromEnv := (source.id, source.env.row.name)
      toEnv := (target.id, target.env.row.name)
      comparable := true
      onlyInFrom := cmp.onlyInFrom
      onlyInTo := cmp.onlyInTo
      inBoth := cmp.same ++ cmp.different
      different := some cmp.different
      same := some cmp.same }
  else
    let fromKeys := source.env.row.keys
    let toKeys := target.env.row.keys
    { fromEnv := (source.id, source.env.row.name)
      toEnv := (target.id, target.env.row.name)
      comparable := false
      onlyInFrom := fromKeys.filter fun k => k ∉ toKeys
      onlyInTo := toKeys.filter fun k => k ∉ fromKeys
      inBoth := fromKeys.filter fun k => k ∈ toKeys
      different := none
      same := none }

def diff (c : Caller) (d : Database) (setId : Nat) (fromName toName : JsString) :
    Except Failure EnvironmentDiff := do
  let access ← load c d setId
  let source ← findByName d setId fromName
  let target ← findByName d setId toName
  .ok (compare c access source target)

/-! ## Writing -/

def Database.put (d : Database) (r : EnvRecord) (env : Environment) : Database :=
  { d with environments := d.environments.map fun r' => if r'.id = r.id then { r with env := env } else r' }

/-- `transact`, and the view of what it has saved. -/
def write (c : Caller) (d : Database) (r : EnvRecord) (expected : Expected) (change : Change)
    (db : Stamp) : Except Failure (EnvironmentView × Database) :=
  match transact r.env ⟨r.id, expected, change, c.actor⟩ db with
  | .error refusal => .error (.refused refusal)
  | .ok env => .ok (view d c.ctx { r with env := env }, d.put r env)

/-- A flag patch may only name variables that exist in the new text. -/
def assertFlagPatch (patch : SecretFlags) (keys : List JsString) : Except Failure Unit :=
  if patch.any fun e => !isEnvName e.1 || e.2 = .other then
    .error (.refused (.badRequest (js "flags must map variable names to true, false or null")))
  else
    let unknown := (patch.map Prod.fst).filter fun k => k ∉ keys
    if unknown ≠ [] then
      .error (.refused (.badRequest
        (js "flags refer to variables that are not in the text: " ++ join (unknown.take 5) (js ", "))))
    else .ok ()

def update (c : Caller) (d : Database) (setId envId : Nat) (text : JsString)
    (expected : Expected) (patch : SecretFlags) (action : VersionAction) (db : Stamp) :
    Except Failure (EnvironmentView × Database) := do
  let (r, _) ← guardValues c d setId envId
  match validateEnvironmentText text with
  | some problem => .error (.refused (.badRequest problem))
  | none =>
    assertFlagPatch patch (keysOf text)
    write c d r expected (.edit text patch action) db

def restoreVersion (c : Caller) (d : Database) (setId envId versionId : Nat) (expected : Expected)
    (db : Stamp) : Except Failure (EnvironmentView × Database) := do
  let (r, _) ← guardValues c d setId envId
  write c d r expected (.restore versionId) db

/-- What `promote` reports: the change of the target's text and flags. -/
def promotedSummary (target : Environment) (p : Promotion) : ChangeSummary :=
  let text := (setValues target.text (p.keys.map fun k => (k, (Assoc.get p.values k).getD []))
    p.notes).getD []
  summarizeChange target.text text target.row.secretFlags
    (nextFlags target.row.secretFlags target.row.keys (keysOf text) (patchOf p.flags p.keys))

def promote (c : Caller) (d : Database) (setId targetId sourceId : Nat) (keys : List JsString)
    (expected : Expected) (db : Stamp) :
    Except Failure ((EnvironmentView × ChangeSummary) × Database) := do
  if sourceId = targetId then
    .error (.refused (.badRequest (js "Choose two different environments to promote between")))
  else if keys = [] then
    .error (.refused (.badRequest (js "Choose at least one variable to promote")))
  else
    let (source, _) ← guardValues c d setId sourceId
    let (target, _) ← guardValues c d setId targetId
    let values := envMap source.env.text
    let missing := keys.eraseDups.filter fun k => (Assoc.get values k).isNone
    if missing ≠ [] then
      .error (.refused (.badRequest
        (js "Not set in \"" ++ source.env.row.name ++ js "\": " ++ join missing (js ", "))))
    else
      let p : Promotion := ⟨source.id, source.env.row.name, source.env.row.secretFlags, values,
        extractNotes source.env.text, keys.eraseDups⟩
      let (saved, d') ← write c d target expected (.promote p) db
      .ok ((saved, promotedSummary target.env p), d')

/-! ## Requests -/

/-- The operations of a caller on the environments of one set. -/
inductive Operation where
  | detail
  | reveal (envId : Nat)
  | update (envId : Nat) (text : JsString) (expected : Expected) (patch : SecretFlags)
      (action : VersionAction)
  | listVersions (envId : Nat)
  | revealVersion (envId versionId : Nat)
  | restoreVersion (envId versionId : Nat) (expected : Expected)
  | diff (fromName toName : JsString)
  | promote (targetId sourceId : Nat) (keys : List JsString) (expected : Expected)

inductive Answer where
  | environments (views : List EnvironmentView)
  | revealed (view : RevealView)
  | saved (view : EnvironmentView)
  | versions (views : List VersionView)
  | revealedVersion (view : RevealedVersion)
  | compared (diff : EnvironmentDiff)
  | promoted (view : EnvironmentView) (summary : ChangeSummary)

/-- A write that is refused saves nothing. -/
def settle {α : Type} (d : Database) (answer : α → Answer) :
    Except Failure (α × Database) → Except Failure Answer × Database
  | .error failure => (.error failure, d)
  | .ok (a, d') => (.ok (answer a), d')

def run (c : Caller) (setId : Nat) (db : Stamp) (d : Database) :
    Operation → Except Failure Answer × Database
  | .detail => ((detail c d setId).map .environments, d)
  | .reveal envId => ((reveal c d setId envId).map .revealed, d)
  | .update envId text expected patch action =>
    settle d .saved (update c d setId envId text expected patch action db)
  | .listVersions envId => ((listVersions c d setId envId).map .versions, d)
  | .revealVersion envId versionId =>
    ((revealVersion c d setId envId versionId).map .revealedVersion, d)
  | .restoreVersion envId versionId expected =>
    settle d .saved (restoreVersion c d setId envId versionId expected db)
  | .diff fromName toName => ((diff c d setId fromName toName).map .compared, d)
  | .promote targetId sourceId keys expected =>
    settle d (fun a => .promoted a.1 a.2) (promote c d setId targetId sourceId keys expected db)

/-- The operations that are about the environment `e`. -/
def Concerns (d : Database) (setId e : Nat) : Operation → Prop
  | .detail => True
  | .reveal envId => envId = e
  | .update envId _ _ _ _ => envId = e
  | .listVersions envId => envId = e
  | .revealVersion envId _ => envId = e
  | .restoreVersion envId _ _ => envId = e
  | .diff fromName toName =>
    ∀ source target, findByName d setId fromName = .ok source →
      findByName d setId toName = .ok target → source.id = e ∨ target.id = e
  | .promote targetId sourceId _ _ => targetId = e ∨ sourceId = e

/-- The caller may not use the values of the environment `e` of the set. -/
def Hidden (c : Caller) (d : Database) (setId e : Nat) : Prop :=
  ∀ access, load c d setId = .ok access →
    ∀ r ∈ d.environments, r.id = e → r.variableSetId = setId → mayUseValues c access r = false

/-! ## What the texts do not touch -/

variable {r : EnvRecord}

variable {p : EnvRecord → Bool}

section Hide
variable (c : Caller) (d : Database) (e : Nat)

@[simp] theorem EnvRecord.hide_id (r : EnvRecord) : (r.hide e).id = r.id := by
  rw [EnvRecord.hide]
  split <;> rfl

@[simp] theorem EnvRecord.hide_variableSetId (r : EnvRecord) :
    (r.hide e).variableSetId = r.variableSetId := by
  rw [EnvRecord.hide]
  split <;> rfl

@[simp] theorem EnvRecord.hide_name (r : EnvRecord) : (r.hide e).env.row.name = r.env.row.name := by
  rw [EnvRecord.hide]
  split <;> rfl

@[simp] theorem EnvRecord.hide_keys (r : EnvRecord) : (r.hide e).env.row.keys = r.env.row.keys := by
  rw [EnvRecord.hide]
  split <;> rfl

theorem EnvRecord.hide_of_ne (h : r.id ≠ e) : r.hide e = r := if_neg h

theorem load_hide (setId : Nat) : load c (d.hide e) setId = load c d setId := rfl

theorem mayUseValues_hide (access : SetAccess) (r : EnvRecord) :
    mayUseValues c access (r.hide e) = mayUseValues c access r := by
  rw [EnvRecord.hide]
  split <;> rfl

theorem assertValues_hide (access : SetAccess) (r : EnvRecord) :
    assertValues c access (r.hide e) = assertValues c access r := by
  rw [EnvRecord.hide]
  split <;> rfl

/-- A query that reads no text finds the same row. -/
theorem find_hide (h : ∀ r, p (EnvRecord.hide e r) = p r) :
    (d.hide e).environments.find? p = (d.environments.find? p).map (EnvRecord.hide e) := by
  show (d.environments.map (EnvRecord.hide e)).find? p = _
  rw [List.find?_map, show p ∘ EnvRecord.hide e = p from funext h]

theorem findInSet_hide (envId setId : Nat) :
    findInSet (d.hide e) envId setId = (findInSet d envId setId).map (EnvRecord.hide e) := by
  rw [findInSet, findInSet, find_hide d e fun r => by
    rw [EnvRecord.hide_id, EnvRecord.hide_variableSetId]]
  cases d.environments.find? fun r => r.id = envId && r.variableSetId = setId <;> rfl

theorem findByName_hide (setId : Nat) (name : JsString) :
    findByName (d.hide e) setId name = (findByName d setId name).map (EnvRecord.hide e) := by
  rw [findByName, findByName, find_hide d e fun r => by
    rw [EnvRecord.hide_name, EnvRecord.hide_variableSetId]]
  cases d.environments.find? fun r => r.variableSetId = setId && r.env.row.name = name <;> rfl

theorem view_hide (ctx : ProjectRoles) (r : EnvRecord) :
    view (d.hide e) ctx (r.hide e) = view d ctx r := by
  rw [EnvRecord.hide]
  split <;> rfl

theorem detail_hide (setId : Nat) : detail c (d.hide e) setId = detail c d setId := by
  have hlist : listOf (d.hide e) setId = (listOf d setId).map (EnvRecord.hide e) := by
    rw [listOf, listOf, List.map_insertionSort _ (fun r r' : EnvRecord =>
      rank r.env.row.name ≤ rank r'.env.row.name) _ _ fun r _ r' _ => by
        rw [EnvRecord.hide_name, EnvRecord.hide_name]]
    show ((d.environments.map (EnvRecord.hide e)).filter _).insertionSort _ = _
    rw [List.filter_map]
    congr 3
    funext r
    exact congrArg (decide <| · = setId) (EnvRecord.hide_variableSetId e r)
  have hviews : (listOf (d.hide e) setId).map (view (d.hide e) c.ctx) =
      (listOf d setId).map (view d c.ctx) := by
    rw [hlist, List.map_map]
    exact List.map_congr_left fun r _ => view_hide d e c.ctx r
  show (load c d setId >>= fun _ => Except.ok ((listOf (d.hide e) setId).map _)) = _
  rw [hviews]
  rfl

/-- The history shows no text. -/
theorem listVersions_hide (setId envId : Nat) :
    listVersions c (d.hide e) setId envId = listVersions c d setId envId := by
  rw [listVersions, listVersions, load_hide, findInSet_hide]
  cases load c d setId with
  | error _ => rfl
  | ok access =>
    cases findInSet d envId setId with
    | error _ => rfl
    | ok r =>
      refine congrArg Except.ok ?_
      show ((newestFirst (r.hide e).env.versions).take ENV_VERSION_KEEP).mapIdx _ = _
      by_cases hr : r.id = e
      · have hsort : newestFirst (r.hide e).env.versions =
            (newestFirst r.env.versions).map Version.hide := by
          rw [EnvRecord.hide, if_pos hr, newestFirst, newestFirst]
          exact (List.map_insertionSort newerOrSame newerOrSame Version.hide r.env.versions
            fun _ _ _ _ => Iff.rfl).symm
        refine List.ext_getElem? fun i => ?_
        rw [hsort, ← List.map_take, List.getElem?_mapIdx, List.getElem?_mapIdx, List.getElem?_map,
          Option.map_map]
        rfl
      · rw [r.hide_of_ne e hr]

end Hide

/-! ## The guard -/

/-- **The two forms of the rule agree.** -/
theorem mayUseValues_iff (c : Caller) (access : SetAccess) (r : EnvRecord) :
    mayUseValues c access r = true ↔ assertValues c access r = .ok () := by
  rw [mayUseValues, assertValues]
  by_cases hv : access.role = .project .viewer
  · simp [hv]
  · by_cases ht : tokenMayUse c access r = true
    · by_cases hp : (r.isProtected && access.role ≠ .platform) = true
      · simp only [hv, ht, hp, if_true, if_false, Bool.not_true, false_eq_true, reduceCtorEq]
      · simp only [hv, ht, hp, if_false, Bool.not_true, false_eq_true]
    · rw [not_eq_true] at ht
      simp only [hv, ht, if_false, if_true, Bool.not_false, ite_self, false_eq_true, reduceCtorEq]

variable {c : Caller}

variable {access : SetAccess}

theorem exists_of_mayUseValues_eq_false (h : mayUseValues c access r = false) :
    ∃ failure, assertValues c access r = .error failure := by
  cases ha : assertValues c access r with
  | error failure => exact ⟨failure, rfl⟩
  | ok _ => rw [(mayUseValues_iff c access r).mpr ha] at h; cases h

variable {d : Database}

theorem find_ok (h : d.environments.find? p = some r) : r ∈ d.environments ∧ p r = true :=
  ⟨List.mem_of_find?_eq_some h, List.find?_some h⟩

variable {setId : Nat}

theorem findInSet_ok {envId : Nat} (h : findInSet d envId setId = .ok r) :
    r ∈ d.environments ∧ r.id = envId ∧ r.variableSetId = setId := by
  rw [findInSet] at h
  split at h
  · cases h
  · rename_i r' hr
    obtain rfl := Except.ok.inj h
    obtain ⟨hmem, hp⟩ := find_ok hr
    exact ⟨hmem, by simpa using hp⟩

theorem findByName_ok {name : JsString} (h : findByName d setId name = .ok r) :
    r ∈ d.environments ∧ r.variableSetId = setId := by
  rw [findByName] at h
  split at h
  · cases h
  · rename_i r' hr
    obtain rfl := Except.ok.inj h
    obtain ⟨hmem, hp⟩ := find_ok hr
    simp only [and_eq_true, decide_eq_true_eq] at hp
    exact ⟨hmem, hp.1⟩

variable {e : Nat}

/-- **The guard of every value operation refuses before a text is read.** -/
theorem guardValues_hidden
    (h : Hidden c d setId e) : ∃ failure, guardValues c d setId e = .error failure ∧
      guardValues c (d.hide e) setId e = .error failure := by
  rw [guardValues, guardValues, load_hide, findInSet_hide]
  cases hl : load c d setId with
  | error failure => exact ⟨failure, rfl, rfl⟩
  | ok access =>
    cases hf : findInSet d e setId with
    | error failure => exact ⟨failure, rfl, rfl⟩
    | ok r =>
      obtain ⟨hmem, hid, hset⟩ := findInSet_ok hf
      obtain ⟨failure, ha⟩ := exists_of_mayUseValues_eq_false (h access hl r hmem hid hset)
      refine ⟨failure, ?_, ?_⟩
      · show (assertValues c access r >>= fun _ => Except.ok (r, access)) = _
        rw [ha]
        rfl
      · show (assertValues c access (r.hide e) >>= fun _ => Except.ok (r.hide e, access)) = _
        rw [assertValues_hide, ha]
        rfl

theorem guardValues_hide (c : Caller) (d : Database) (e setId envId : Nat) :
    guardValues c (d.hide e) setId envId =
      (guardValues c d setId envId).map fun found => (found.1.hide e, found.2) := by
  rw [guardValues, guardValues, load_hide, findInSet_hide]
  cases load c d setId with
  | error _ => rfl
  | ok access =>
    cases findInSet d envId setId with
    | error _ => rfl
    | ok r =>
      show (assertValues c access (r.hide e) >>= fun _ => Except.ok (r.hide e, access)) =
        (assertValues c access r >>= fun _ => Except.ok (r, access)).map _
      rw [assertValues_hide]
      cases assertValues c access r <;> rfl

/-- A comparison that may not read one side reads the lists of names. -/
theorem diff_hidden {fromName toName : JsString} (h : Hidden c d setId e)
    (hc : Concerns d setId e (.diff fromName toName)) :
    diff c (d.hide e) setId fromName toName = diff c d setId fromName toName := by
  rw [diff, diff, load_hide, findByName_hide, findByName_hide]
  cases hl : load c d setId with
  | error _ => rfl
  | ok access =>
    cases hs : findByName d setId fromName with
    | error _ => rfl
    | ok source =>
      cases ht : findByName d setId toName with
      | error _ => rfl
      | ok target =>
        refine congrArg Except.ok ?_
        show compare c access (source.hide e) (target.hide e) = compare c access source target
        have hmay : (mayUseValues c access source && mayUseValues c access target) = false := by
          rcases hc source target hs ht with hid | hid
          · obtain ⟨hmem, hset⟩ := findByName_ok hs
            rw [h access hl source hmem hid hset, Bool.false_and]
          · obtain ⟨hmem, hset⟩ := findByName_ok ht
            rw [h access hl target hmem hid hset, Bool.and_false]
        rw [compare, compare, mayUseValues_hide, mayUseValues_hide, hmay]
        simp only [EnvRecord.hide_id, EnvRecord.hide_name, EnvRecord.hide_keys, false_eq_true,
          if_false]

variable {db : Stamp}

/-- **A promotion with a hidden side is refused for the same reason either way.** -/
theorem promote_hidden {targetId sourceId : Nat} {keys : List JsString} {expected : Expected}
    (h : Hidden c d setId e) (hc : targetId = e ∨ sourceId = e) :
    ∃ failure, promote c d setId targetId sourceId keys expected db = .error failure ∧
      promote c (d.hide e) setId targetId sourceId keys expected db = .error failure := by
  rw [promote, promote]
  by_cases hst : sourceId = targetId
  · exact ⟨_, if_pos hst, if_pos hst⟩
  · rw [if_neg hst, if_neg hst]
    by_cases hk : keys = []
    · exact ⟨_, if_pos hk, if_pos hk⟩
    · rw [if_neg hk, if_neg hk]
      obtain ⟨failure, hd, hd'⟩ := guardValues_hidden h
      by_cases hsource : sourceId = e
      · subst hsource
        rw [hd, hd']
        exact ⟨failure, rfl, rfl⟩
      · obtain rfl := hc.resolve_right hsource
        rw [hd, hd', guardValues_hide]
        cases guardValues c d setId sourceId with
        | error failure' => exact ⟨failure', rfl, rfl⟩
        | ok found => exact ⟨failure, rfl, rfl⟩

variable {op : Operation}

/-- **Without its texts a hidden environment answers as it does with them.** -/
theorem run_hidden (h : Hidden c d setId e) (hc : Concerns d setId e op) :
    ∃ answer, run c setId db d op = (answer, d) ∧
      run c setId db (d.hide e) op = (answer, d.hide e) := by
  obtain ⟨failure, hd, hd'⟩ := guardValues_hidden h
  cases op with
  | detail =>
    refine ⟨_, rfl, ?_⟩
    rw [run, detail_hide]
  | reveal envId =>
    obtain rfl : envId = e := hc
    refine ⟨.error failure, ?_, ?_⟩
    · rw [run, reveal, hd]
      rfl
    · rw [run, reveal, hd']
      rfl
  | update envId text expected patch action =>
    obtain rfl : envId = e := hc
    refine ⟨.error failure, ?_, ?_⟩
    · rw [run, update, hd]
      rfl
    · rw [run, update, hd']
      rfl
  | listVersions envId =>
    refine ⟨_, rfl, ?_⟩
    rw [run, listVersions_hide]
  | revealVersion envId versionId =>
    obtain rfl : envId = e := hc
    refine ⟨.error failure, ?_, ?_⟩
    · rw [run, revealVersion, hd]
      rfl
    · rw [run, revealVersion, hd']
      rfl
  | restoreVersion envId versionId expected =>
    obtain rfl : envId = e := hc
    refine ⟨.error failure, ?_, ?_⟩
    · rw [run, restoreVersion, hd]
      rfl
    · rw [run, restoreVersion, hd']
      rfl
  | diff fromName toName =>
    refine ⟨_, rfl, ?_⟩
    rw [run, diff_hidden h hc]
  | promote targetId sourceId keys expected =>
    obtain ⟨failure', hp, hp'⟩ := promote_hidden h hc
    refine ⟨.error failure', ?_, ?_⟩
    · rw [run, hp]
      rfl
    · rw [run, hp']
      rfl

/-- What is hidden, and what is about it, does not depend on the texts. -/
theorem Hidden.hide : Hidden c (d.hide e) setId e ↔ Hidden c d setId e := by
  have hmem : ∀ r, r ∈ (d.hide e).environments ↔ ∃ r' ∈ d.environments, r'.hide e = r :=
    fun _ => List.mem_map
  constructor
  · intro h access hl r hr hid hset
    rw [← mayUseValues_hide c e]
    exact h access hl _ ((hmem _).mpr ⟨r, hr, rfl⟩) (by rw [r.hide_id, hid])
      (by rw [r.hide_variableSetId, hset])
  · intro h access hl r hr hid hset
    obtain ⟨r', hr', rfl⟩ := (hmem r).mp hr
    rw [mayUseValues_hide]
    rw [EnvRecord.hide_id] at hid
    rw [EnvRecord.hide_variableSetId] at hset
    exact h access hl r' hr' hid hset

theorem concerns_hide : Concerns (d.hide e) setId e op ↔ Concerns d setId e op := by
  cases op with
  | diff fromName toName =>
    simp only [Concerns, findByName_hide]
    cases findByName d setId fromName with
    | error _ => simp [Except.map]
    | ok source =>
      cases findByName d setId toName with
      | error _ => simp [Except.map]
      | ok target => simp [Except.map]
  | _ => exact Iff.rfl

/-! ## Comparisons -/

/-- The names a comparison is about: those of the text, or the listed ones. -/
def keySet (comparable : Bool) (r : EnvRecord) : List JsString :=
  if comparable then keysOf r.env.text else r.env.row.keys

/-- The three lists split the names of the two sides. -/
structure Partitions (cmp : EnvironmentDiff) (fromKeys toKeys : List JsString) : Prop where
  union : ∀ k, (k ∈ cmp.onlyInFrom ∨ k ∈ cmp.onlyInTo ∨ k ∈ cmp.inBoth) ↔
    (k ∈ fromKeys ∨ k ∈ toKeys)
  fromTo : cmp.onlyInFrom.Disjoint cmp.onlyInTo
  fromBoth : cmp.onlyInFrom.Disjoint cmp.inBoth
  toBoth : cmp.onlyInTo.Disjoint cmp.inBoth

theorem partitions_of_mem {cmp : EnvironmentDiff} {fromKeys toKeys : List JsString}
    (hfrom : ∀ k, k ∈ cmp.onlyInFrom ↔ k ∈ fromKeys ∧ k ∉ toKeys)
    (hto : ∀ k, k ∈ cmp.onlyInTo ↔ k ∈ toKeys ∧ k ∉ fromKeys)
    (hboth : ∀ k, k ∈ cmp.inBoth ↔ k ∈ fromKeys ∧ k ∈ toKeys) :
    Partitions cmp fromKeys toKeys where
  union k := by
    rw [hfrom, hto, hboth]
    tauto
  fromTo k hk hk' := ((hfrom k).mp hk).2 ((hto k).mp hk').1
  fromBoth k hk hk' := ((hfrom k).mp hk).2 ((hboth k).mp hk').2
  toBoth k hk hk' := ((hto k).mp hk).2 ((hboth k).mp hk').1

variable {text k : JsString}

theorem mem_keysOf_iff : k ∈ keysOf text ↔ (Assoc.get (envMap text) k).isSome = true := by
  rw [envMap, Assoc.get_ofList, Assoc.get_isSome_iff, List.map_reverse, List.mem_reverse, keysOf,
    List.mem_eraseDups]

theorem nodup_envMap (text : JsString) : ((envMap text).map Prod.fst).Nodup :=
  Assoc.nodup_setAll (m := []) List.nodup_nil _

/-- The names of the entries of a map that pass a test. -/
theorem mem_names_filter {p : JsString × JsString → Bool} :
    k ∈ ((envMap text).filter p).map Prod.fst ↔
      ∃ v, Assoc.get (envMap text) k = some v ∧ p (k, v) = true := by
  rw [List.mem_map]
  constructor
  · rintro ⟨⟨k', v⟩, he, rfl⟩
    obtain ⟨hmem, hp⟩ := List.mem_filter.mp he
    exact ⟨v, Assoc.get_of_mem (nodup_envMap text) hmem, hp⟩
  · rintro ⟨v, hv, hp⟩
    exact ⟨(k, v), List.mem_filter.mpr ⟨Assoc.mem_of_get hv, hp⟩, rfl⟩

variable {source target : EnvRecord}

theorem compare_texts (h : (mayUseValues c access source && mayUseValues c access target) = true) :
    Partitions (compare c access source target) (keysOf source.env.text)
      (keysOf target.env.text) := by
  rw [compare, if_pos h]
  refine partitions_of_mem (fun k => ?_) (fun k => ?_) fun k => ?_
  · rw [mem_keysOf_iff, mem_keysOf_iff]
    refine mem_names_filter.trans ?_
    cases Assoc.get (envMap source.env.text) k <;>
      cases ht : Assoc.get (envMap target.env.text) k <;> simp [ht]
  · rw [mem_keysOf_iff, mem_keysOf_iff]
    refine mem_names_filter.trans ?_
    cases hs : Assoc.get (envMap source.env.text) k <;>
      cases Assoc.get (envMap target.env.text) k <;> simp [hs]
  · rw [mem_keysOf_iff, mem_keysOf_iff]
    refine List.mem_append.trans ((or_congr mem_names_filter mem_names_filter).trans ?_)
    -- a name of both sides is in `same` or in `different`
    cases hs : Assoc.get (envMap source.env.text) k with
    | none => simp
    | some v =>
      cases ht : Assoc.get (envMap target.env.text) k with
      | none => simp [ht]
      | some v' => by_cases hv : v' = v <;> simp [ht, hv]

theorem compare_names (h : (mayUseValues c access source && mayUseValues c access target) = false) :
    Partitions (compare c access source target) source.env.row.keys target.env.row.keys := by
  rw [compare, h]
  refine partitions_of_mem (fun k => ?_) (fun k => ?_) fun k => ?_
  · simp
  · simp
  · simp

theorem compare_partitions (c : Caller) (access : SetAccess) (source target : EnvRecord) :
    Partitions (compare c access source target)
      (keySet (compare c access source target).comparable source)
      (keySet (compare c access source target).comparable target) := by
  cases h : mayUseValues c access source && mayUseValues c access target with
  | true =>
    have hcmp : (compare c access source target).comparable = true := by
      rw [compare, if_pos h]
    rw [hcmp]
    exact compare_texts h
  | false =>
    have hcmp : (compare c access source target).comparable = false := by
      rw [compare, h]
      rfl
    rw [hcmp]
    exact compare_names h

/-- **Who may not use the values of an environment learns nothing about them**: two databases
that differ in its texts alone answer every operation on it alike and stay as they are, the two
forms of the rule agree, and a comparison splits the names of its two sides. -/
theorem hidden_values :
    (∀ (c : Caller) (setId e : Nat) (db : Stamp) (d d' : Database),
      d.hide e = d'.hide e → Hidden c d setId e →
      ∀ op, Concerns d setId e op →
        ∃ answer, run c setId db d op = (answer, d) ∧ run c setId db d' op = (answer, d')) ∧
    (∀ (c : Caller) (access : SetAccess) (r : EnvRecord),
      mayUseValues c access r = true ↔ assertValues c access r = .ok ()) ∧
    ∀ (c : Caller) (d : Database) (setId : Nat) (fromName toName : JsString)
      (cmp : EnvironmentDiff), diff c d setId fromName toName = .ok cmp →
      ∃ source target, findByName d setId fromName = .ok source ∧
        findByName d setId toName = .ok target ∧
        Partitions cmp (keySet cmp.comparable source) (keySet cmp.comparable target) := by
  refine ⟨fun c setId e db d d' hd h op hc => ?_, mayUseValues_iff, ?_⟩
  · have h' : Hidden c d' setId e := by
      rw [← Hidden.hide, ← hd, Hidden.hide]
      exact h
    have hc' : Concerns d' setId e op := by
      rw [← concerns_hide, ← hd, concerns_hide]
      exact hc
    obtain ⟨answer, hrun, hhide⟩ := @run_hidden _ _ _ _ db _ h hc
    obtain ⟨answer', hrun', hhide'⟩ := @run_hidden _ _ _ _ db _ h' hc'
    rw [← hd, hhide] at hhide'
    obtain rfl := congrArg Prod.fst hhide'
    exact ⟨answer, hrun, hrun'⟩
  · intro c d setId fromName toName cmp h
    rw [diff] at h
    cases hl : load c d setId with
    | error _ => rw [hl] at h; cases h
    | ok access =>
      cases hs : findByName d setId fromName with
      | error _ => rw [hl, hs] at h; cases h
      | ok source =>
        cases ht : findByName d setId toName with
        | error _ => rw [hl, hs, ht] at h; cases h
        | ok target =>
          rw [hl, hs, ht] at h
          obtain rfl := Except.ok.inj h
          exact ⟨source, target, rfl, rfl, compare_partitions c access source target⟩

/-- A developer of a project and a set shared with it, with a protected environment. -/
def developer : Caller := ⟨⟨js "u", none, .session⟩, ⟨false, some [(1, .developer)]⟩, none⟩

def staging : EnvRecord :=
  ⟨1, 7, false, ⟨⟨js "staging", some (js "PORT=80"), [js "PORT"], [], [], 0⟩, []⟩⟩

def production (password : JsString) : EnvRecord :=
  ⟨2, 7, true,
    ⟨⟨js "production", some (js "PASSWORD=" ++ password), [js "PASSWORD"], [], [], 0⟩, []⟩⟩

def shop (password : JsString) : Database :=
  ⟨fun _ => some ⟨js "shop", false, [1]⟩, [staging, production password], []⟩

theorem hidden_shop (password : JsString) : Hidden developer (shop password) 7 2 := by
  intro access hl r hr hid _
  obtain rfl := Except.ok.inj hl
  rcases List.mem_pair.mp hr with rfl | rfl
  · cases hid
  · rfl

/-- **A developer compares staging with a protected production.** -/
theorem hidden_values_shop :
    ∃ answer, run developer 7 ⟨0, 0, 0, 0⟩ (shop (js "a")) (.diff (js "staging") (js "production")) =
        (answer, shop (js "a")) ∧
      run developer 7 ⟨0, 0, 0, 0⟩ (shop (js "b")) (.diff (js "staging") (js "production")) =
        (answer, shop (js "b")) := by
  refine hidden_values.1 developer 7 2 ⟨0, 0, 0, 0⟩ (shop (js "a")) (shop (js "b")) rfl
    (hidden_shop _) (.diff (js "staging") (js "production")) ?_
  intro source target _ ht
  right
  obtain rfl := Except.ok.inj ht
  rfl

end Aoox.EnvironmentAccess
