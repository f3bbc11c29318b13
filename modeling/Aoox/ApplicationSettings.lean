import Aoox.PreviousDaemons

/-! # The settings of an application

A row of `applications` as the settings request sees it: the columns of its DTO,
those the deployment runner owns, and the two others it reads.  `prepare` is what
`UpdateApplicationService.execute` does to the copy it loaded before it asks
anybody else: fields are trimmed or take their defaults, a new image reference
drops the digest, `autoUpdate` and `autoUpdateFollowTags` fall with what they rest
on, and the combinations that make no sense are refused.  What the request asks
of others meanwhile (credentials, servers, the swarm, free ports) decides only
whether it goes on.
-/
namespace Aoox.Settings

open JsString

/-- The fields of `UpdateApplicationDto`. -/
inductive Setting where
  | name | sourceType | gitUrl | imageRef | imageRegistryId
  | autoUpdate | autoUpdateIntervalMinutes | autoUpdateFollowTags
  | gitBranch | dockerfilePath | rootDirectory | watchRootOnly | gitCredentialId
  | containerPort | hostPort | hostPortBind | cpuMillicores | deploymentKeep | memoryMb
  | healthcheckPath | ignoreErrorLogs | env | buildArgs | buildType
  | staticBuildCommand | staticOutputDir | staticSpa
  | previewsEnabled | previewDomain | previewWildcardCert | serverId
  | deployMode | replicas | swarmNodeId | swarmConstraint
  | updateParallelism | updateDelaySeconds | updateOrder
  deriving DecidableEq, Repr

inductive Column where
  | setting (s : Setting)
  | status | currentImage | imageDigest | imageCheckedAt | previousDaemons
  | maintenanceEnabled
  deriving DecidableEq, Repr

/-- What a column holds. -/
inductive Cell where
  | null
  | text (t : JsString)
  | num (n : Nat)
  | bool (b : Bool)
  | list (l : List JsString)
  deriving DecidableEq, Repr

abbrev Row := Column → Cell

/-- A request: `none` is a field that was left out. -/
abbrev Dto := Setting → Option Cell

def Cell.truthy : Cell → Bool
  | .null => false
  | .text t => t ≠ []
  | .num n => n ≠ 0
  | .bool b => b
  | .list _ => true

/-- `value || fallback`. -/
def Cell.or (value fallback : Cell) : Cell := if value.truthy then value else fallback

inductive PatchError where
  | badRequest (message : JsString)
  | conflict (message : JsString)
  /-- A method called on `null`. -/
  | typeError
  deriving Repr

/-- `if (dto.s !== undefined) app.s = dto.s`. -/
def plain (dto : Dto) (s : Setting) (app : Row) : Row :=
  match dto s with
  | none => app
  | some v => Function.update app (.setting s) v

/-- `if (dto.s !== undefined) app.s = dto.s.trim() || fallback`. -/
def trimmed (dto : Dto) (s : Setting) (fallback : Cell) (app : Row) : Except PatchError Row :=
  match dto s with
  | none => .ok app
  | some (.text t) =>
    .ok (Function.update app (.setting s) ((Cell.text (trim t)).or fallback))
  | some _ => .error .typeError

/-- `if (dto.s !== undefined) app.s = dto.s?.trim() || null`. -/
def trimmedOrNull (dto : Dto) (s : Setting) (app : Row) : Except PatchError Row :=
  match dto s with
  | some .null => .ok (Function.update app (.setting s) .null)
  | _ => trimmed dto s .null app

def normalizeBind (bind : Cell) : Cell :=
  if bind = .text (js "loopback") then bind else .text (js "public")

/-- `if (dto.hostPortBind) app.hostPortBind = normalizeBind(dto.hostPortBind)`. -/
def bindHostPort (dto : Dto) (app : Row) : Row :=
  match dto .hostPortBind with
  | none => app
  | some v => if v.truthy then Function.update app (.setting .hostPortBind) (normalizeBind v) else app

/-- The reference the request asks for differs from the one in the copy. -/
def digestReset (dto : Dto) (app : Row) : Bool :=
  match dto .imageRef with
  | some (.text t) => (Cell.text (trim t)).or .null ≠ app (.setting .imageRef)
  | _ => false

/-- Moving a server under maintenance is refused. -/
def checkMaintenance (dto : Dto) (app : Row) : Except PatchError Unit :=
  match dto .serverId with
  | none => .ok ()
  | some v =>
    if (app .maintenanceEnabled).truthy && v.or .null ≠ app (.setting .serverId) then
      .error (.conflict
        (js "Turn maintenance mode off before moving the application to another server"))
    else .ok ()

/-- `autoUpdate` is for images only, and following tags for auto-updates only. -/
def coupleUpdates (app : Row) : Row :=
  let app :=
    if app (.setting .sourceType) ≠ .text (js "image") then
      Function.update app (.setting .autoUpdate) (.bool false)
    else app
  if (app (.setting .autoUpdate)).truthy then app
  else Function.update app (.setting .autoUpdateFollowTags) (.bool false)

def checkSource (app : Row) : Except PatchError Unit :=
  if app (.setting .sourceType) = .text (js "image") && !(app (.setting .imageRef)).truthy then
    .error (.badRequest (js "imageRef is required for the image source"))
  else if app (.setting .sourceType) = .text (js "git") && !(app (.setting .gitUrl)).truthy then
    .error (.badRequest (js "gitUrl is required for the git source"))
  else .ok ()

def checkService (app : Row) : Except PatchError Unit :=
  if app (.setting .deployMode) ≠ .text (js "service") then .ok ()
  else if (app (.setting .serverId)).truthy then
    .error (.badRequest (js "Swarm services run on the aoox host only"))
  else if app (.setting .hostPort) ≠ .null &&
      app (.setting .hostPortBind) = .text (js "loopback") then
    .error (.badRequest
      (js ("A Swarm service cannot publish its host port on 127.0.0.1 only; " ++
        "use a public port or container mode")))
  else .ok ()

/-- What the request does to the part of the copy that says where the code comes from. -/
def prepareSource (dto : Dto) (row : Row) : Except PatchError Row := do
  let app ← trimmed dto .name (.text []) row
  let app := plain dto .sourceType app
  let app ← trimmed dto .gitUrl .null app
  -- a new reference needs a fresh baseline
  let reset := digestReset dto app
  let app ← trimmed dto .imageRef .null app
  let app := if reset then Function.update app .imageDigest .null else app
  let app := plain dto .imageRegistryId app
  let app := plain dto .autoUpdate app
  let app := plain dto .autoUpdateIntervalMinutes app
  let app := plain dto .autoUpdateFollowTags app
  let app := coupleUpdates app
  checkSource app
  return app

/-- What it does to the build and runtime settings. -/
def prepareBuild (dto : Dto) (app : Row) : Except PatchError Row := do
  let app ← trimmed dto .gitBranch (.text (js "main")) app
  let app ← trimmed dto .dockerfilePath (.text (js "Dockerfile")) app
  let app ← trimmedOrNull dto .rootDirectory app
  let app := plain dto .watchRootOnly app
  let app := plain dto .gitCredentialId app
  let app := plain dto .containerPort app
  let app := plain dto .hostPort app
  let app := bindHostPort dto app
  let app := plain dto .cpuMillicores app
  let app := plain dto .deploymentKeep app
  let app := plain dto .memoryMb app
  let app ← trimmedOrNull dto .healthcheckPath app
  let app := plain dto .ignoreErrorLogs app
  let app := plain dto .env app
  let app := plain dto .buildArgs app
  let app := plain dto .buildType app
  let app ← trimmedOrNull dto .staticBuildCommand app
  let app ← trimmed dto .staticOutputDir (.text (js "dist")) app
  return plain dto .staticSpa app

/-- What it does to the previews, the server and the swarm settings. -/
def preparePlacement (dto : Dto) (app : Row) : Except PatchError Row := do
  let app := plain dto .previewsEnabled app
  let app ← trimmedOrNull dto .previewDomain app
  let app := plain dto .previewWildcardCert app
  let app := plain dto .serverId app
  let app := plain dto .deployMode app
  let app := plain dto .replicas app
  let app := plain dto .swarmNodeId app
  let app ← trimmedOrNull dto .swarmConstraint app
  let app := plain dto .updateParallelism app
  let app := plain dto .updateDelaySeconds app
  let app := plain dto .updateOrder app
  checkService app
  return app

/-- The copy as the request leaves it before it saves. -/
def prepare (dto : Dto) (row : Row) : Except PatchError Row := do
  checkMaintenance dto row
  let app ← prepareSource dto row
  let app ← prepareBuild dto app
  preparePlacement dto app

def names (dto : Dto) : Column → Bool
  | .setting .hostPortBind => ((dto .hostPortBind).map Cell.truthy).getD false
  | .setting s => (dto s).isSome
  | _ => false

/-- The columns a request sets: those it names, the digest it resets, and those
that change with them. -/
def sets (dto : Dto) (row app : Row) : Column → Bool
  | .imageDigest => digestReset dto row
  | c => names dto c || decide (app c ≠ row c)

/-- The columns `refreshRunnerColumns` reads again. -/
def refreshed (reset : Bool) : Column → Bool
  | .previousDaemons => true
  | .status => true
  | .currentImage => true
  | .imageCheckedAt => true
  | .imageDigest => !reset
  | _ => false

def Cell.serverId : Cell → PreviousDaemons.ServerId
  | .text t => some t
  | _ => none

def Cell.daemons : Cell → List JsString
  | .list l => l
  | _ => []

/-- The saved ports differ from the ones before and are applied right away. -/
def appliesHostPort (before saved : Row) : Bool :=
  (saved .currentImage).truthy &&
  -- a change of mode, replicas or placement is queued as a deployment instead
  ([Setting.deployMode, .replicas, .swarmNodeId].all fun s =>
    before (.setting s) = saved (.setting s)) &&
  saved (.setting .deployMode) ≠ .text (js "service") &&
  (saved (.setting .hostPort) ≠ before (.setting .hostPort) ||
    (saved (.setting .hostPort) ≠ .null &&
      saved (.setting .hostPortBind) ≠ before (.setting .hostPortBind)) ||
    saved (.setting .containerPort) ≠ before (.setting .containerPort)) &&
  saved .status = .text (js "running")

/-- The columns a failed host port puts back. -/
def ports : Column → Bool
  | .setting .hostPort => true
  | .setting .hostPortBind => true
  | .setting .containerPort => true
  | _ => false

end Aoox.Settings
