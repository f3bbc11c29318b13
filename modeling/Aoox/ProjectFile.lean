import Aoox.HostPorts
import Aoox.HttpMonitor
import Aoox.ImportedMounts
import Aoox.ResourceAlerts

/-! # Exporting a project

A project's applications, managed databases and compose stacks, with the rows that belong
to each of them, and the portable file an export writes.  Ids never travel: a reference to
an object of the platform (a registry, a server, a variable set) goes into the file by
name.  What the export types have a place for is listed here field by field, in the order
of the source.
-/
namespace Aoox.Transfer

open JsString

/-! ## Objects of the platform -/

abbrev Id := JsString

/-- A row that is referred to by name in a file. -/
structure Named where
  id : Id
  name : JsString

/-- A table of such rows. -/
structure Directory where
  rows : List Named
  ids : (rows.map Named.id).Nodup

/-- `nameOf`: a map from ids to names. -/
def Directory.nameOf (d : Directory) (id : Id) : Option JsString :=
    (Table.get Named.id d.rows id).map Named.name

/-- The name a reference goes into the file by. -/
def Directory.ref (d : Directory) (id : Option Id) : Option JsString := id.bind d.nameOf

/-- A map from names to ids, in which a later row of a name replaces an earlier one. -/
def idByName (rows : List Named) (name : JsString) : Option Id :=
  (rows.reverse.find? fun r => r.name = name).map Named.id

def Directory.idOf (d : Directory) (name : JsString) : Option Id := idByName d.rows name

/-- The tables an export reads and an import resolves names in. -/
structure Directories where
  (registries credentials destinations servers secretConnections dnsConnections : Directory)

structure VariableSet where
  name : JsString
  sharedWithAll : Bool
  environments : List Named

/-! ## Rows -/

inductive SourceType where
  | git | image
  deriving DecidableEq, Repr

inductive BuildType where
  | dockerfile | nixpacks | railpack | static
  deriving DecidableEq, Repr

/-- The interface a host port listens on; `anywhere` is `public`. -/
inductive HostPortBind where
  | anywhere | loopback
  deriving DecidableEq, Repr

inductive CertMode where
  | http | dns | dnsWildcard
  deriving DecidableEq, Repr

inductive JobTarget where
  | container | run
  deriving DecidableEq, Repr

/-- The columns of an application that go into a file as they are. -/
@[ext] structure AppSettings where
  name : JsString
  appName : Volumes.Slug
  sourceType : SourceType
  gitUrl : Option JsString
  gitBranch : JsString
  imageRef : Option JsString
  autoUpdate : Bool
  autoUpdateIntervalMinutes : Nat
  autoUpdateFollowTags : Bool
  dockerfilePath : JsString
  rootDirectory : Option JsString
  watchRootOnly : Bool
  buildType : BuildType
  staticBuildCommand : Option JsString
  staticOutputDir : JsString
  staticSpa : Bool
  containerPort : Nat
  hostPort : Option Nat
  hostPortBind : HostPortBind
  env : JsString
  buildArgs : JsString
  healthcheckPath : Option JsString
  ignoreErrorLogs : Bool
  deploymentKeep : Nat
  backupCron : Option JsString
  backupKeep : Nat
  cpuMillicores : Option Nat
  memoryMb : Option Nat
  previewsEnabled : Bool
  previewDomain : Option JsString
  previewWildcardCert : Bool
  deriving DecidableEq

structure SecretColumns where
  connectionId : Option Id
  (projectId environment : Option JsString)
  path : JsString
  sync : Bool
  deriving DecidableEq

structure Domain where
  host : JsString
  https : Bool
  certMode : CertMode
  dnsConnectionId : Option Id
  dnsProxied : Bool
  deriving DecidableEq

structure Job where
  name : JsString
  cron : Option JsString
  command : JsString
  target : JobTarget
  enabled : Bool
  timeoutSeconds : Nat
  /-- The service of a stack the job runs in. -/
  service : Option JsString
  deriving DecidableEq

/-- The alert rules of one owner. -/
structure Rules where
  (cpu memory : Option Alerts.RuleConfig)
  deriving DecidableEq

/-- An application with the rows that belong to it, each list in the order of creation. -/
structure Application where
  settings : AppSettings
  secrets : SecretColumns
  (gitCredentialId imageRegistryId backupDestinationId serverId : Option Id)
  /-- The linked environments, in merge order. -/
  links : List Id
  monitor : Option Monitor.Config
  rules : Rules
  domains : List Domain
  mounts : List ImportedMounts.Mount
  jobs : List Job
  deriving DecidableEq

inductive Engine where
  | postgres | mysql | mariadb | redis | valkey | mongodb
  deriving DecidableEq, Repr

inductive Variant where
  | pgvector | postgis | timescaledb
  deriving Repr

@[ext] structure DatabaseSettings where
  name : JsString
  slug : Volumes.Slug
  engine : Engine
  variant : Option Variant
  imageTag : JsString
  databaseName : JsString
  username : JsString
  /-- What the encrypted column holds. -/
  password : JsString
  hostPort : Option Nat
  hostPortBind : HostPortBind
  cpuMillicores : Option Nat
  memoryMb : Option Nat
  backupCron : Option JsString
  backupKeep : Nat
  backupAllDatabases : Bool

structure Database where
  settings : DatabaseSettings
  backupDestinationId : Option Id
  rules : Rules
  mounts : List ImportedMounts.Mount
  jobs : List Job

inductive ComposeSource where
  | git | template
  deriving Repr

/-- A service of a stack behind the proxy. -/
structure ServiceDomain where
  service : JsString
  port : Nat
  host : JsString
  https : Bool

structure ServicePort where
  service : JsString
  port : Nat
  hostPort : HostPorts.PortValue
  bind : Option HostPortBind
  deriving DecidableEq

/-- The limits of a service of a stack. -/
structure ServiceResources where
  service : JsString
  (cpuMillicores memoryMb : Option Nat)

@[ext] structure StackSettings where
  name : JsString
  slug : Volumes.Slug
  source : ComposeSource
  templateId : Option JsString
  composeContent : Option JsString
  gitUrl : Option JsString
  gitBranch : JsString
  composePath : JsString
  env : JsString
  serviceDomains : List ServiceDomain
  servicePorts : List ServicePort

structure ComposeApp where
  settings : StackSettings
  gitCredentialId : Option Id
  links : List Id
  jobs : List Job
  mounts : List ImportedMounts.Mount
  serviceResources : List ServiceResources

structure Project where
  name : JsString
  description : Option JsString
  applications : List Application
  databases : List Database
  composeApps : List ComposeApp
  /-- The names of the variable sets that are shared with the project. -/
  sharedSets : List JsString

/-! ## The file -/

/-- A link by the name of the set and of the environment. -/
structure ExportedLink where
  (set environment : JsString)
  deriving DecidableEq

/-- A whole set, here without its values. -/
structure ExportedVariableSet where
  name : JsString
  environments : List JsString

structure ExportedJob where
  name : JsString
  cron : Option JsString
  command : JsString
  target : JobTarget
  enabled : Bool
  timeoutSeconds : Nat
  service : Option JsString

structure ExportedAlerts where
  (cpu memory : Alerts.RuleConfig)

structure SecretSource where
  (connection projectId environment path : JsString)
  sync : Bool

structure DnsSettings where
  connection : JsString
  proxied : Bool

structure ExportedDomain where
  host : JsString
  https : Bool
  certMode : Option CertMode
  dns : Option DnsSettings

structure AppReferences where
  (gitCredential imageRegistry backupDestination server : Option JsString)

/-- Fields that older files lack are optional. -/
structure ExportedApplication where
  (name appName : JsString)
  sourceType : SourceType
  gitUrl : Option JsString
  gitBranch : JsString
  imageRef : Option JsString
  autoUpdate : Option Bool
  autoUpdateIntervalMinutes : Option Nat
  autoUpdateFollowTags : Option Bool
  dockerfilePath : JsString
  rootDirectory : Option JsString
  watchRootOnly : Option Bool
  buildType : BuildType
  staticBuildCommand : Option JsString
  staticOutputDir : JsString
  staticSpa : Bool
  containerPort : Nat
  hostPort : Option HostPorts.PortValue
  hostPortBind : Option HostPortBind
  env : JsString
  variableSets : Option (List ExportedLink)
  buildArgs : JsString
  healthcheckPath : Option JsString
  ignoreErrorLogs : Option Bool
  httpMonitor : Option Monitor.Config
  resourceAlerts : Option ExportedAlerts
  deploymentKeep : Nat
  backupCron : Option JsString
  backupKeep : Nat
  (cpuMillicores memoryMb : Option Nat)
  previewsEnabled : Bool
  previewDomain : Option JsString
  previewWildcardCert : Option Bool
  secretSource : Option SecretSource
  references : AppReferences
  domains : List ExportedDomain
  mounts : List ImportedMounts.ExportedMount
  jobs : List ExportedJob

structure ExportedDatabase where
  (name slug : JsString)
  engine : Engine
  variant : Option Variant
  (imageTag databaseName username : JsString)
  password : Option JsString
  hostPort : Option HostPorts.PortValue
  hostPortBind : Option HostPortBind
  (cpuMillicores memoryMb : Option Nat)
  backupCron : Option JsString
  backupKeep : Nat
  backupAllDatabases : Bool
  resourceAlerts : Option ExportedAlerts
  backupDestination : Option JsString
  mounts : List ImportedMounts.ExportedMount
  jobs : List ExportedJob

structure ExportedComposeApp where
  (name slug : JsString)
  source : ComposeSource
  (templateId composeContent gitUrl : Option JsString)
  (gitBranch composePath env : JsString)
  variableSets : Option (List ExportedLink)
  serviceDomains : List ServiceDomain
  servicePorts : Option (List ServicePort)
  gitCredential : Option JsString
  jobs : List ExportedJob

structure ProjectExport where
  format : JsString
  version : Nat
  includesSecrets : Bool
  name : JsString
  description : Option JsString
  variableSets : Option (List ExportedVariableSet)
  applications : List ExportedApplication
  databases : List ExportedDatabase
  composeApps : List ExportedComposeApp

def exportFormat : JsString := js "aoox-project"

def exportVersion : Nat := 1

/-! ## The export -/

def mountTypeText : ImportedMounts.MountType → JsString
  | .volume => js "volume"
  | .bind => js "bind"
  | .file => js "file"

def exportMount (m : ImportedMounts.Mount) : ImportedMounts.ExportedMount where
  type := mountTypeText m.type
  containerPath := some m.containerPath
  hostPath := m.hostPath
  name := m.name
  content := m.content
  readOnly := some m.readOnly

/-- An empty service is left out of the file. -/
def exportJob (j : Job) : ExportedJob where
  name := j.name
  cron := j.cron
  command := j.command
  target := j.target
  enabled := j.enabled
  timeoutSeconds := j.timeoutSeconds
  service := ImportedMounts.given j.service

/-- Nothing when the owner has no rule, else both rules, a missing one with the defaults. -/
def exportRules (r : Rules) : Option ExportedAlerts :=
  if r.cpu.isNone && r.memory.isNone then none
  else some ⟨r.cpu.getD Alerts.defaultRule, r.memory.getD Alerts.defaultRule⟩

/-- A link whose environment is gone is left out. -/
def linkOf (sets : List VariableSet) (environmentId : Id) : Option ExportedLink :=
  sets.findSome? fun s =>
    (Table.get Named.id s.environments environmentId).map fun e => ⟨s.name, e.name⟩

def exportLinks (sets : List VariableSet) (links : List Id) : List ExportedLink :=
    links.filterMap (linkOf sets)

def exportSecretSource (d : Directories) (s : SecretColumns) : Option SecretSource :=
  match d.secretConnections.ref s.connectionId, ImportedMounts.given s.projectId with
  | some connection, some projectId =>
    some ⟨connection, projectId, s.environment.getD [],
      (ImportedMounts.given (some s.path)).getD (js "/"), s.sync⟩
  | _, _ => none

def exportDomain (d : Directories) (x : Domain) : ExportedDomain where
  host := x.host
  https := x.https
  certMode := some x.certMode
  dns := (d.dnsConnections.ref x.dnsConnectionId).map fun connection => ⟨connection, x.dnsProxied⟩

def exportApplication (d : Directories) (sets : List VariableSet) (a : Application) :
    ExportedApplication where
  name := a.settings.name
  appName := a.settings.appName.text
  sourceType := a.settings.sourceType
  gitUrl := a.settings.gitUrl
  gitBranch := a.settings.gitBranch
  imageRef := a.settings.imageRef
  autoUpdate := some a.settings.autoUpdate
  autoUpdateIntervalMinutes := some a.settings.autoUpdateIntervalMinutes
  autoUpdateFollowTags := some a.settings.autoUpdateFollowTags
  dockerfilePath := a.settings.dockerfilePath
  rootDirectory := a.settings.rootDirectory
  watchRootOnly := some a.settings.watchRootOnly
  buildType := a.settings.buildType
  staticBuildCommand := a.settings.staticBuildCommand
  staticOutputDir := a.settings.staticOutputDir
  staticSpa := a.settings.staticSpa
  containerPort := a.settings.containerPort
  hostPort := a.settings.hostPort.map .number
  hostPortBind := some a.settings.hostPortBind
  env := a.settings.env
  variableSets := some (exportLinks sets a.links)
  buildArgs := a.settings.buildArgs
  healthcheckPath := a.settings.healthcheckPath
  ignoreErrorLogs := some a.settings.ignoreErrorLogs
  httpMonitor := a.monitor
  resourceAlerts := exportRules a.rules
  deploymentKeep := a.settings.deploymentKeep
  backupCron := a.settings.backupCron
  backupKeep := a.settings.backupKeep
  cpuMillicores := a.settings.cpuMillicores
  memoryMb := a.settings.memoryMb
  previewsEnabled := a.settings.previewsEnabled
  previewDomain := a.settings.previewDomain
  previewWildcardCert := some a.settings.previewWildcardCert
  secretSource := exportSecretSource d a.secrets
  references :=
    { gitCredential := d.credentials.ref a.gitCredentialId
      imageRegistry := d.registries.ref a.imageRegistryId
      backupDestination := d.destinations.ref a.backupDestinationId
      server := d.servers.ref a.serverId }
  domains := a.domains.map (exportDomain d)
  mounts := a.mounts.map exportMount
  jobs := a.jobs.map exportJob

def exportDatabase (d : Directories) (includeSecrets : Bool) (x : Database) : ExportedDatabase where
  name := x.settings.name
  slug := x.settings.slug.text
  engine := x.settings.engine
  variant := x.settings.variant
  imageTag := x.settings.imageTag
  databaseName := x.settings.databaseName
  username := x.settings.username
  password := if includeSecrets then some x.settings.password else none
  hostPort := x.settings.hostPort.map .number
  hostPortBind := some x.settings.hostPortBind
  cpuMillicores := x.settings.cpuMillicores
  memoryMb := x.settings.memoryMb
  backupCron := x.settings.backupCron
  backupKeep := x.settings.backupKeep
  backupAllDatabases := x.settings.backupAllDatabases
  resourceAlerts := exportRules x.rules
  backupDestination := d.destinations.ref x.backupDestinationId
  mounts := x.mounts.map exportMount
  jobs := x.jobs.map exportJob

/-- A stack's mounts and the limits of its services have no place in the file. -/
def exportComposeApp (d : Directories) (sets : List VariableSet) (c : ComposeApp) :
    ExportedComposeApp where
  name := c.settings.name
  slug := c.settings.slug.text
  source := c.settings.source
  templateId := c.settings.templateId
  composeContent := c.settings.composeContent
  gitUrl := c.settings.gitUrl
  gitBranch := c.settings.gitBranch
  composePath := c.settings.composePath
  env := c.settings.env
  variableSets := some (exportLinks sets c.links)
  serviceDomains := c.settings.serviceDomains
  servicePorts := some c.settings.servicePorts
  gitCredential := d.credentials.ref c.gitCredentialId
  jobs := c.jobs.map exportJob

/-- The sets a file carries whole: those shared with the project and those linked. -/
def exportedSets (sets : List VariableSet) (p : Project) : List ExportedVariableSet :=
  let linked := (p.applications.flatMap fun a => exportLinks sets a.links) ++
    p.composeApps.flatMap fun c => exportLinks sets c.links
  (sets.filter fun s => s.name ∈ p.sharedSets || linked.any fun l => l.set = s.name).map fun s =>
    ⟨s.name, s.environments.map Named.name⟩

def exportProject (d : Directories) (sets : List VariableSet) (p : Project) (includeSecrets : Bool) :
    ProjectExport where
  format := exportFormat
  version := exportVersion
  includesSecrets := includeSecrets
  name := p.name
  description := p.description
  variableSets := if includeSecrets then some (exportedSets sets p) else none
  applications := p.applications.map (exportApplication d sets)
  databases := p.databases.map (exportDatabase d includeSecrets)
  composeApps := p.composeApps.map (exportComposeApp d sets)

end Aoox.Transfer
