import Aoox.FieldChecks
import Aoox.ProjectFile
import Aoox.VariableSetSharing

/-! # Importing a project

An import creates a new project from a file.  Nothing in the file is trusted: what is
malformed falls back to a default or is left out, with a warning; a reference is looked up
by name, and one that is not found is left empty.  A host port, a slug or a host that is
taken is not taken over.  The resources are created one after the other, and each lookup
sees those created before it.
-/
namespace Aoox.Transfer

open JsString ImportedMounts FieldChecks

/-! ## What the import runs on -/

/-- What the code calls and this development does not contain. -/
structure Runtime where
  /-- Whether the scheduler accepts an expression. -/
  isValidCron : JsString → Bool
  /-- What PostgreSQL makes of a text where an `integer` is expected. -/
  integerInput : JsString → Option Nat
  /-- `toLowerCase`, for any text. -/
  lower : JsString → JsString
  /-- A slug with a random suffix: at most 40 units of the name, a dash and 6 more. -/
  slugify : JsString → Volumes.Slug
  slugify_length : ∀ name, (slugify name).text.length ≤ 47
  /-- A generated password: 18 random bytes in base64. -/
  password : JsString → JsString
  password_length : ∀ name, (password name).length = 24
  /-- Creating a variable set of the file; `none` when it has no environment to create. -/
  createSet : ExportedVariableSet → Option VariableSet

structure Instance where
  directories : Directories
  /-- Whether the proxy of a server has DNS-01 enabled; `none` is the local one. -/
  dnsBound : Option Id → Bool
  sets : List VariableSet
  applications : List Application
  databases : List Database
  composeApps : List ComposeApp

structure Importer where
  role : JsString
  /-- Owner or admin of the instance, as variable sets see it. -/
  platform : Bool

/-- A value with the warnings about it. -/
structure Noted (α : Type) where
  value : α
  warnings : List JsString

/-- `place: message` -/
def note (place : JsString) (message : JsString) : JsString := place ++ js ": " ++ message

def quoted (text : JsString) : JsString := js "\"" ++ text ++ js "\""

/-- `text || fallback` -/
def orText (text fallback : JsString) : JsString := (given (some text)).getD fallback

/-! ## Single fields -/

def resolve (kind : JsString) (d : Directory) (name : Option JsString) (place : JsString) :
    Noted (Option Id) :=
  match given name with
  | none => ⟨none, []⟩
  | some n =>
    match d.idOf n with
    | some id => ⟨some id, []⟩
    | none => ⟨none, [note place (kind ++ js " " ++ quoted n ++ js " not found, left empty")]⟩

def isSlugText (text : JsString) : Bool :=
  text.length ≤ 64 && text ≠ [] && text.all Volumes.isSlugUnit

/-- The slug of the file when it is free, else a new one. -/
def importSlug (R : Runtime) (column : JsString) (taken : Bool) (wanted name : JsString)
    (place : JsString) : Noted Volumes.Slug where
  value := freeSlug (some wanted) taken (R.slugify name)
  warnings :=
    if isSlugText wanted && taken then
      [note place (column ++ js " " ++ quoted wanted ++ js " already exists, renamed to " ++
        quoted (R.slugify name).text)]
    else []

/-- The rows the check of a host port asks for; it reads no id. -/
def Instance.portRows (T : Instance) : HostPorts.Rows where
  applications := T.applications.map fun a => ⟨a.settings.appName.text, a.settings.appName.text,
    a.serverId, a.settings.hostPort⟩
  databases := T.databases.map fun x => ⟨x.settings.slug.text, x.settings.name, x.settings.hostPort⟩
  companions := []
  composeApps := T.composeApps.map fun c => ⟨c.settings.slug.text, c.settings.name, c.settings.slug.text,
    c.settings.servicePorts.map fun p => ⟨p.service, p.port, p.hostPort⟩⟩

/-- The port an imported application or database gets; `none` when a query fails. -/
def importHostPort (R : Runtime) (T : Instance) (port : Option HostPorts.PortValue) (place : JsString) :
    Option (Noted (Option Nat)) :=
  (HostPorts.freeHostPort R.integerInput T.portRows port place).map fun r =>
    ⟨r.1.bind (HostPorts.asInteger R.integerInput), r.2⟩

/-- A taken port of a stack is dropped. -/
def importServicePorts (R : Runtime) (T : Instance) : List ServicePort → JsString →
    Option (Noted (List ServicePort))
  | [], _ => some ⟨[], []⟩
  | p :: ps, place => do
    let r ← HostPorts.freeHostPort R.integerInput T.portRows (some p.hostPort) place
    let rest ← importServicePorts R T ps place
    return ⟨if r.1.isSome then p :: rest.value else rest.value, r.2 ++ rest.warnings⟩

def normalizeBind (bind : Option HostPortBind) : HostPortBind :=
  if bind = some .loopback then .loopback else .anywhere

/-- The minutes between image checks: 5 to 1440, else 60. -/
def validInterval (minutes : Option Nat) : Nat :=
  match minutes with
  | some n => if 5 ≤ n ∧ n ≤ 1440 then n else 60
  | none => 60

def validCron (R : Runtime) (cron : Option JsString) (place : JsString) : Noted (Option JsString) :=
  match given cron with
  | none => ⟨none, []⟩
  | some c =>
    if R.isValidCron c then ⟨some c, []⟩
    else ⟨none, [note place (js "invalid backup cron " ++ quoted c ++ js " ignored")]⟩

/-- An invalid folder is dropped. -/
def importRootDirectory (value : Option JsString) (place : JsString) : Noted (Option JsString) :=
  match normalizeRootDirectory value with
  | none => ⟨none, []⟩
  | some r =>
    if isValidRootDirectory r then ⟨some r, []⟩
    else ⟨none, [note place (js "invalid root directory " ++ quoted r ++ js " ignored")]⟩

def noSecretSource : SecretColumns := ⟨none, none, none, js "/", false⟩

/-- The connection by name, the location checked like a request. -/
def importedSecretSource (d : Directory) (source : Option SecretSource) (place : JsString) :
    Noted SecretColumns :=
  match source with
  | none => ⟨noSecretSource, []⟩
  | some s =>
    match d.idOf s.connection with
    | none =>
      ⟨noSecretSource, [note place (js "secret connection " ++ quoted s.connection ++
        js " not found, secret source left empty")]⟩
    | some id =>
      let path := orText s.path (js "/")
      if isSecretName 100 s.projectId && isSecretName 64 s.environment && isValidSecretPath path then
        ⟨⟨some id, some s.projectId, some s.environment, path, s.sync⟩, []⟩
      else ⟨noSecretSource, [note place (js "invalid secret source location ignored")]⟩

/-! ## Monitors and alert rules -/

def inRange (n lo hi fallback : Nat) : Nat := if lo ≤ n ∧ n ≤ hi then n else fallback

/-- The new application has no monitor yet. -/
def importMonitor (raw : Option Monitor.Config) (place : JsString) : Noted (Option Monitor.Config) :=
  match raw with
  | none => ⟨none, []⟩
  | some m =>
    let pathError := validateMonitorPath m.path
    let codesFit := (parseExpectedCodes m.expectedCodes).isSome
    let input : Monitor.ConfigPatch :=
      { enabled := some m.enabled
        path := some (if pathError.isSome then Monitor.defaultConfig.path else m.path)
        intervalMinutes := some (inRange m.intervalMinutes 1 60 Monitor.defaultConfig.intervalMinutes)
        timeoutSeconds := some (inRange m.timeoutSeconds 1 30 Monitor.defaultConfig.timeoutSeconds)
        expectedCodes := some (if codesFit then m.expectedCodes else Monitor.defaultConfig.expectedCodes)
        failureThreshold := some (inRange m.failureThreshold 1 10 Monitor.defaultConfig.failureThreshold)
        useInternal := some m.useInternal }
    { value := some (Monitor.saveRow none input).1.config
      warnings :=
        (pathError.map fun e => note place (js "monitor path ignored (" ++ e ++ js ")")).toList ++
          if codesFit then [] else [note place (js "monitor expectedCodes ignored")] }

def metricText : Alerts.Metric → JsString
  | .cpu => js "cpu"
  | .memory => js "memory"

/-- One rule; its threshold is a percentage of a limit, or of one core. -/
def importRule (metric : Alerts.Metric) (r : Alerts.RuleConfig) (place : JsString) :
    Noted (Option Alerts.RuleConfig) :=
  let most := if metric = .memory then 100 else 1000
  let input : Alerts.RuleInput :=
    { enabled := some r.enabled
      thresholdPercent := some (inRange r.thresholdPercent 1 most Alerts.defaultRule.thresholdPercent)
      durationMinutes := some (inRange r.durationMinutes 1 120 Alerts.defaultRule.durationMinutes) }
  { value := (Alerts.saveRule metric (none : Option (Alerts.Rule Nat)) input).toOption.map fun x => x.1.config
    warnings :=
      (if 1 ≤ r.thresholdPercent ∧ r.thresholdPercent ≤ most then []
        else [note place (metricText metric ++ js " alert threshold ignored")]) ++
      if 1 ≤ r.durationMinutes ∧ r.durationMinutes ≤ 120 then []
        else [note place (metricText metric ++ js " alert duration ignored")] }

def importRules (raw : Option ExportedAlerts) (place : JsString) : Noted Rules :=
  match raw with
  | none => ⟨⟨none, none⟩, []⟩
  | some r =>
    let cpu := importRule .cpu r.cpu place
    let memory := importRule .memory r.memory place
    ⟨⟨cpu.value, memory.value⟩, cpu.warnings ++ memory.warnings⟩

/-! ## Domains and jobs -/

/-- DNS-01 needs https and a proxy that has it enabled. -/
def importDomain (T : Instance) (serverId : Option Id) (x : ExportedDomain) (place : JsString) :
    Noted Domain :=
  let wanted := ((x.dns.map DnsSettings.connection).bind fun n => given (some n))
  let connectionId := wanted.bind T.directories.dnsConnections.idOf
  let mode := x.certMode.getD .http
  let allowed := mode = .http || (x.https && T.dnsBound serverId)
  { value :=
      { host := x.host
        https := x.https
        certMode := if allowed then mode else .http
        dnsConnectionId := connectionId
        dnsProxied := connectionId.isSome && ((x.dns.map DnsSettings.proxied).getD false) }
    warnings :=
      (match wanted, connectionId with
        | some n, none =>
          [note place (js "DNS connection " ++ quoted n ++ js " not found for " ++ x.host ++
            js ", DNS left unmanaged")]
        | _, _ => []) ++
      if allowed then []
      else [note place (js "DNS-01 certificate for " ++ x.host ++
        js " needs https and DNS-01 enabled on the proxy, using the automatic certificate")] }

/-- A host that is in use is skipped; each domain is saved before the next is looked at. -/
def importDomains (T : Instance) (serverId : Option Id) (place : JsString) :
    List JsString → List ExportedDomain → Noted (List Domain)
  | _, [] => ⟨[], []⟩
  | hosts, x :: xs =>
    if x.host ∈ hosts then
      let rest := importDomains T serverId place hosts xs
      ⟨rest.value, note place (js "domain " ++ x.host ++ js " already in use, skipped") :: rest.warnings⟩
    else
      let d := importDomain T serverId x place
      let rest := importDomains T serverId place (hosts ++ [x.host]) xs
      ⟨d.value :: rest.value, d.warnings ++ rest.warnings⟩

def Instance.hosts (T : Instance) : List JsString :=
    T.applications.flatMap fun a => a.domains.map Domain.host

/-- `build`: the row of a job, for a service of a stack if there is one. -/
def buildJob (R : Runtime) (j : ExportedJob) (service : Option JsString) : Except JsString Job :=
  let cron := given (j.cron.map trim)
  if cron.any fun c => !R.isValidCron c then .error (js "cron is not a valid expression")
  else .ok
    { name := trim j.name
      cron := cron
      command := j.command
      target := j.target
      enabled := j.enabled
      timeoutSeconds := j.timeoutSeconds
      service := service }

def importJob (R : Runtime) (compose : Bool) (j : ExportedJob) (place : JsString) : Noted (Option Job) :=
  if j.name = [] ∨ j.command = [] then ⟨none, [note place (js "job without name/command skipped")]⟩
  else
    match buildJob R j (if compose then j.service else none) with
    | .ok job => ⟨some job, []⟩
    | .error e => ⟨none, [note place (js "job " ++ quoted j.name ++ js " skipped (" ++ e ++ js ")")]⟩

def importJobs (R : Runtime) (compose : Bool) (jobs : List ExportedJob) (place : JsString) :
    Noted (List Job) where
  value := jobs.filterMap fun j => (importJob R compose j place).value
  warnings := jobs.flatMap fun j => (importJob R compose j place).warnings

/-! ## Variable sets -/

/-- The sets an import may link to: those it created, under the name of the file, and those
that were there. -/
structure SetIndex where
  created : List (JsString × VariableSet)
  existing : List VariableSet

def SetIndex.all (x : SetIndex) : List VariableSet := x.existing ++ x.created.map Prod.snd

def SetIndex.find (R : Runtime) (x : SetIndex) (name : JsString) : Option (VariableSet × Bool) :=
  match x.created.reverse.find? fun e => R.lower e.1 = R.lower name with
  | some e => some (e.2, true)
  | none => (x.existing.reverse.find? fun s => R.lower s.name = R.lower name).map fun s => (s, false)

/-- A set that is there is used as it is; another is created. -/
def importSets (R : Runtime) (existing : List VariableSet) :
    List ExportedVariableSet → Noted (List (JsString × VariableSet))
  | [] => ⟨[], []⟩
  | s :: ss =>
    let rest := importSets R existing ss
    let name := trim s.name
    let place := js "variable set " ++ quoted (sliceTo name 60)
    if name = [] then ⟨rest.value, js "variable set without a name skipped" :: rest.warnings⟩
    else if existing.any fun e => R.lower e.name = R.lower name then
      ⟨rest.value, note place (js "already exists on this instance, linked as it is (not overwritten from the file)") ::
        rest.warnings⟩
    else ⟨((R.createSet s).map fun c => (name, c)).toList ++ rest.value, rest.warnings⟩

/-- One link: a set that was there must be shared with all, or the importer shares it. -/
def importLink (R : Runtime) (u : Importer) (x : SetIndex) (l : ExportedLink) (place : JsString) :
    Noted (Option Id) :=
  match x.find R l.set with
  | none => ⟨none, [note place (js "variable set " ++ quoted l.set ++ js " not found, not linked")]⟩
  | some (s, created) =>
    if s.sharedWithAll || created || u.platform then
      match idByName s.environments l.environment with
      | some id => ⟨some id, []⟩
      | none => ⟨none, [note place (js "environment " ++ quoted l.environment ++ js " of variable set " ++
          quoted s.name ++ js " not found, not linked")]⟩
    else ⟨none, [note place (js "variable set " ++ quoted s.name ++
      js " is not shared with this project, not linked")]⟩

/-- At most ten links. -/
def linksFor (R : Runtime) (u : Importer) (x : SetIndex) (links : Option (List ExportedLink))
    (place : JsString) : Noted (List Id) :=
  let found := ((links.getD []).filterMap fun l => (importLink R u x l place).value).eraseDups
  { value := found.take Sharing.maxLinks
    warnings := ((links.getD []).flatMap fun l => (importLink R u x l place).warnings) ++
      if Sharing.maxLinks < found.length then
        [note place (js "only the first 10 variable set links were kept")]
      else [] }

/-! ## Resources -/

/-- The columns of an imported application, from those that are looked up. -/
def importedSettings (a : ExportedApplication) (appName : Volumes.Slug) (root : Option JsString)
    (hostPort : Option Nat) (cron : Option JsString) : AppSettings :=
  let updates := a.sourceType = .image && a.autoUpdate = some true
  { name := a.name
    appName := appName
    sourceType := a.sourceType
    gitUrl := a.gitUrl
    gitBranch := orText a.gitBranch (js "main")
    imageRef := a.imageRef
    autoUpdate := updates
    autoUpdateIntervalMinutes := validInterval a.autoUpdateIntervalMinutes
    autoUpdateFollowTags := updates && a.autoUpdateFollowTags = some true
    dockerfilePath := orText a.dockerfilePath (js "Dockerfile")
    rootDirectory := root
    watchRootOnly := root.isSome && a.watchRootOnly.getD false
    buildType := a.buildType
    staticBuildCommand := a.staticBuildCommand
    staticOutputDir := orText a.staticOutputDir (js "dist")
    staticSpa := a.staticSpa
    containerPort := a.containerPort
    hostPort := hostPort
    hostPortBind := normalizeBind a.hostPortBind
    env := rewriteProjectReferences a.env
    buildArgs := a.buildArgs
    healthcheckPath := a.healthcheckPath
    ignoreErrorLogs := a.ignoreErrorLogs.getD false
    deploymentKeep := a.deploymentKeep
    backupCron := cron
    backupKeep := a.backupKeep
    cpuMillicores := a.cpuMillicores
    memoryMb := a.memoryMb
    previewsEnabled := a.previewsEnabled
    previewDomain := a.previewDomain
    -- enabled again by hand, once DNS-01 is set up on the proxy
    previewWildcardCert := false }

def importApplication (R : Runtime) (u : Importer) (x : SetIndex) (T : Instance)
    (a : ExportedApplication) : Option (Noted Application) := do
  let place := js "application " ++ quoted a.name
  let d := T.directories
  let root := importRootDirectory a.rootDirectory place
  let taken := T.applications.any fun b => b.settings.appName.text = a.appName
  let appName := importSlug R (js "appName") taken a.appName a.name place
  let registry := resolve (js "registry") d.registries a.references.imageRegistry place
  let hostPort ← importHostPort R T a.hostPort place
  let cron := validCron R a.backupCron place
  let secrets := importedSecretSource d.secretConnections a.secretSource place
  let credential := resolve (js "git credential") d.credentials a.references.gitCredential place
  let destination := resolve (js "backup destination") d.destinations a.references.backupDestination place
  let server := resolve (js "server") d.servers a.references.server place
  let links := linksFor R u x a.variableSets place
  let monitor := importMonitor a.httpMonitor place
  let rules := importRules a.resourceAlerts place
  let domains := importDomains T server.value place T.hosts a.domains
  let mounts := importMounts u.role place [] a.mounts
  let jobs := importJobs R false a.jobs place
  if mounts.failed then none
  else
    some
      { value :=
          { settings := importedSettings a appName.value root.value hostPort.value cron.value
            secrets := secrets.value
            gitCredentialId := credential.value
            imageRegistryId := registry.value
            backupDestinationId := destination.value
            serverId := server.value
            links := links.value
            monitor := monitor.value
            rules := rules.value
            domains := domains.value
            mounts := mounts.saved
            jobs := jobs.value }
        warnings := root.warnings ++ appName.warnings ++ registry.warnings ++ hostPort.warnings ++
          cron.warnings ++ secrets.warnings ++ credential.warnings ++ destination.warnings ++
          server.warnings ++ links.warnings ++ monitor.warnings ++ rules.warnings ++
          (if a.previewWildcardCert = some true then
            [note place (js "wildcard preview certificate is not imported; enable it again after DNS-01 is set up on the proxy")]
          else []) ++
          domains.warnings ++ mounts.warnings ++ jobs.warnings }

def hasDatabase : Engine → Bool
  | .postgres | .mysql | .mariadb | .mongodb => true
  | .redis | .valkey => false

/-- Variants are PostgreSQL images. -/
def variantFor (e : Engine) (v : Option Variant) : Option Variant := if e = .postgres then v else none

def defaultTagFor (e : Engine) (v : Option Variant) : JsString :=
  match e, v with
  | .postgres, some .pgvector => js "pg16"
  | .postgres, some .postgis => js "16-3.4"
  | .postgres, some .timescaledb => js "latest-pg16"
  | .postgres, none => js "16-alpine"
  | .mysql, _ => js "8"
  | .mariadb, _ => js "11"
  | .redis, _ => js "7-alpine"
  | .valkey, _ => js "8-alpine"
  | .mongodb, _ => js "7"

def importedDatabaseSettings (R : Runtime) (x : ExportedDatabase) (slug : Volumes.Slug)
    (hostPort : Option Nat) (cron : Option JsString) : DatabaseSettings where
  name := x.name
  slug := slug
  engine := x.engine
  variant := variantFor x.engine x.variant
  imageTag := orText x.imageTag (defaultTagFor x.engine (variantFor x.engine x.variant))
  databaseName := if hasDatabase x.engine then orText x.databaseName (Volumes.underscored slug.text) else []
  username := orText x.username (if hasDatabase x.engine then js "app" else js "default")
  password := (given x.password).getD (R.password x.name)
  hostPort := hostPort
  hostPortBind := normalizeBind x.hostPortBind
  cpuMillicores := x.cpuMillicores
  memoryMb := x.memoryMb
  backupCron := cron
  backupKeep := x.backupKeep
  backupAllDatabases := x.backupAllDatabases

def importDatabase (R : Runtime) (u : Importer) (T : Instance) (x : ExportedDatabase) :
    Option (Noted Database) := do
  let place := js "database " ++ quoted x.name
  let taken := T.databases.any fun b => b.settings.slug.text = x.slug
  let slug := importSlug R (js "slug") taken x.slug x.name place
  let hostPort ← importHostPort R T x.hostPort place
  let cron := validCron R x.backupCron place
  let destination := resolve (js "backup destination") T.directories.destinations x.backupDestination place
  let rules := importRules x.resourceAlerts place
  let mounts := importMounts u.role place [] x.mounts
  let jobs := importJobs R false x.jobs place
  if mounts.failed then none
  else
    some
      { value :=
          { settings := importedDatabaseSettings R x slug.value hostPort.value cron.value
            backupDestinationId := destination.value
            rules := rules.value
            mounts := mounts.saved
            jobs := jobs.value }
        warnings := slug.warnings ++
          (if given x.password = none then [note place (js "no password in file, a new one was generated")]
          else []) ++
          hostPort.warnings ++ cron.warnings ++ destination.warnings ++ rules.warnings ++
          mounts.warnings ++ jobs.warnings }

def importedStackSettings (c : ExportedComposeApp) (slug : Volumes.Slug) (ports : List ServicePort) :
    StackSettings where
  name := c.name
  slug := slug
  source := c.source
  templateId := c.templateId
  composeContent := c.composeContent
  gitUrl := c.gitUrl
  gitBranch := orText c.gitBranch (js "main")
  composePath := orText c.composePath (js "docker-compose.yml")
  env := rewriteProjectReferences c.env
  serviceDomains := c.serviceDomains
  servicePorts := ports

def importComposeApp (R : Runtime) (u : Importer) (x : SetIndex) (T : Instance)
    (c : ExportedComposeApp) : Option (Noted ComposeApp) := do
  let place := js "compose " ++ quoted c.name
  let taken := T.composeApps.any fun b => b.settings.slug.text = c.slug
  let slug := importSlug R (js "slug") taken c.slug c.name place
  let credential := resolve (js "git credential") T.directories.credentials c.gitCredential place
  let ports ← importServicePorts R T (c.servicePorts.getD []) place
  let links := linksFor R u x c.variableSets place
  let jobs := importJobs R true c.jobs place
  some
    { value :=
        { settings := importedStackSettings c slug.value ports.value
          gitCredentialId := credential.value
          links := links.value
          jobs := jobs.value
          mounts := []
          serviceResources := [] }
      warnings := slug.warnings ++ credential.warnings ++ ports.warnings ++ links.warnings ++ jobs.warnings }

/-! ## The project -/

/-- Entries are imported one after the other, each into the instance the one before left. -/
def importAll {β γ : Type} (one : Instance → β → Option (Noted γ)) (add : Instance → γ → Instance) :
    Instance → List β → Option (Instance × Noted (List γ))
  | T, [] => some (T, ⟨[], []⟩)
  | T, x :: xs => do
    let y ← one T x
    let (T', rest) ← importAll one add (add T y.value) xs
    return (T', ⟨y.value :: rest.value, y.warnings ++ rest.warnings⟩)

def Instance.addApplication (T : Instance) (a : Application) : Instance :=
  { T with applications := T.applications ++ [a] }

def Instance.addDatabase (T : Instance) (x : Database) : Instance :=
  { T with databases := T.databases ++ [x] }

def Instance.addComposeApp (T : Instance) (c : ComposeApp) : Instance :=
  { T with composeApps := T.composeApps ++ [c] }

inductive Failure where
  | badRequest (message : JsString)
  | queryFailed

def blank (text : JsString) : Bool := trim text = []

/-- Checks before anything is written. -/
def validateShape (file : ProjectExport) : Except Failure Unit :=
  if file.format ≠ exportFormat then
    .error (.badRequest (js "Unknown format; expected " ++ quoted exportFormat))
  else if file.version ≠ exportVersion then
    .error (.badRequest (js "Unsupported version " ++ js (toString file.version) ++
      js "; this instance reads version " ++ js (toString exportVersion)))
  else if blank file.name then .error (.badRequest (js "project.name is required"))
  else if file.applications.any fun a => blank a.name then
    .error (.badRequest (js "every entry in applications needs a name"))
  else if file.databases.any fun x => blank x.name then
    .error (.badRequest (js "every entry in databases needs a name"))
  else if file.composeApps.any fun c => blank c.name then
    .error (.badRequest (js "every entry in composeApps needs a name"))
  else .ok ()

/-- The new project, with the sets its links refer to. -/
structure Imported where
  name : JsString
  description : Option JsString
  sets : List VariableSet
  applications : List Application
  databases : List Database
  composeApps : List ComposeApp
  warnings : List JsString

/-- The resources of a file whose shape is right; `none` when a query fails. -/
def importResources (R : Runtime) (u : Importer) (T : Instance) (file : ProjectExport)
    (name : Option JsString) : Option Imported := do
  let sets := importSets R T.sets (file.variableSets.getD [])
  let x : SetIndex := ⟨sets.value, T.sets⟩
  let (T₁, applications) ← importAll (importApplication R u x) Instance.addApplication T file.applications
  let (T₂, databases) ← importAll (importDatabase R u) Instance.addDatabase T₁ file.databases
  let (_, composeApps) ← importAll (importComposeApp R u x) Instance.addComposeApp T₂ file.composeApps
  some
    { name := trim (name.getD file.name)
      description := file.description
      sets := x.all
      applications := applications.value
      databases := databases.value
      composeApps := composeApps.value
      warnings := sets.warnings ++ applications.warnings ++ databases.warnings ++ composeApps.warnings }

def importProject (R : Runtime) (u : Importer) (T : Instance) (file : ProjectExport)
    (name : Option JsString) : Except Failure Imported :=
  match validateShape file with
  | .error e => .error e
  | .ok () =>
    match importResources R u T file name with
    | some p => .ok p
    | none => .error .queryFailed

end Aoox.Transfer
