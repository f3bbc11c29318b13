import Aoox.CarriedFields

/-! # What a resource goes through

The configuration of an application, a database and a stack is put together from its
columns and rows.  An import that meets no conflict keeps it exactly when each of them meets
its condition (`importApplication_iff`, `importDatabase_iff`, `importComposeApp_iff`).
-/
open List Option
namespace Aoox.Transfer

open JsString ImportedMounts FieldChecks

/-! ## Columns -/

/-- The columns an import takes over when nothing looks them up. -/
structure SettingsPortable (s : AppSettings) : Prop where
  gitBranch : s.gitBranch ≠ []
  dockerfilePath : s.dockerfilePath ≠ []
  staticOutputDir : s.staticOutputDir ≠ []
  /-- Only images update themselves, and only those that do follow tags. -/
  autoUpdate : s.autoUpdate = true → s.sourceType = .image
  followTags : s.autoUpdateFollowTags = true → s.autoUpdate = true
  interval : 5 ≤ s.autoUpdateIntervalMinutes ∧ s.autoUpdateIntervalMinutes ≤ 1440
  watchRootOnly : s.watchRootOnly = true → s.rootDirectory.isSome = true
  env : hasOldReference s.env = false
  wildcard : s.previewWildcardCert = false

theorem importedSettings_eq_iff (d : Directories) (sets : List VariableSet) (a : Application)
    (appName : Volumes.Slug) (root : Option JsString) (port : Option Nat) (cron : Option JsString) :
    importedSettings (exportApplication d sets a) appName root port cron = a.settings ↔
      appName = a.settings.appName ∧ root = a.settings.rootDirectory ∧ port = a.settings.hostPort ∧
        cron = a.settings.backupCron ∧ SettingsPortable a.settings := by
  have hmain : js "main" ≠ [] := nofun
  have hfile : js "Dockerfile" ≠ [] := nofun
  have hdist : js "dist" ≠ [] := nofun
  rw [AppSettings.ext_iff]
  simp only [importedSettings, exportApplication, orText_eq_self_iff hmain, orText_eq_self_iff hfile,
    orText_eq_self_iff hdist, validInterval_eq_self_iff, normalizeBind_some, getD_some, some.injEq,
    Bool.decide_eq_true, true_and]
  constructor
  · rintro ⟨rfl, hbranch, hupdate, hinterval, hfollow, hdocker, rfl, hwatch, hstatic, rfl, henv, rfl, hwildcard⟩
    refine ⟨rfl, rfl, rfl, rfl, ⟨hbranch, hdocker, hstatic, ?_, ?_, hinterval, ?_,
      (rewriteProjectReferences_eq_self_iff _).mp henv, hwildcard.symm⟩⟩
    · intro h
      rw [h, Bool.and_true] at hupdate
      exact of_decide_eq_true hupdate
    · intro h
      rw [h] at hfollow
      simp only [Bool.and_eq_true] at hfollow
      exact hfollow.1.2
    · intro h
      rw [h] at hwatch
      simpa using hwatch
  · rintro ⟨rfl, rfl, rfl, rfl, h⟩
    refine ⟨rfl, h.gitBranch, ?_, h.interval, ?_, h.dockerfilePath, rfl, ?_, h.staticOutputDir, rfl,
      (rewriteProjectReferences_eq_self_iff _).mpr h.env, rfl, h.wildcard.symm⟩
    · cases hupdate : a.settings.autoUpdate with
      | false => simp
      | true => simp [h.autoUpdate hupdate]
    · cases hfollow : a.settings.autoUpdateFollowTags with
      | false => simp
      | true => simp [h.followTags hfollow, h.autoUpdate (h.followTags hfollow)]
    · cases hwatch : a.settings.watchRootOnly with
      | false => simp
      | true => simp [h.watchRootOnly hwatch]

structure DatabaseSettingsPortable (s : DatabaseSettings) : Prop where
  /-- Only PostgreSQL has variants. -/
  variant : s.variant.isSome = true → s.engine = .postgres
  imageTag : s.imageTag ≠ []
  databaseName : if hasDatabase s.engine then s.databaseName ≠ [] else s.databaseName = []
  username : s.username ≠ []
  password : s.password ≠ []

theorem importedDatabaseSettings_eq_iff (R : Runtime) (d : Directories) (x : Database)
    (slug : Volumes.Slug)
    (port : Option Nat) (cron : Option JsString) :
    importedDatabaseSettings R (exportDatabase d true x) slug port cron = x.settings ↔
      slug = x.settings.slug ∧ port = x.settings.hostPort ∧ cron = x.settings.backupCron ∧
        DatabaseSettingsPortable x.settings := by
  have htag : defaultTagFor x.settings.engine (variantFor x.settings.engine x.settings.variant) ≠ [] := by
    unfold defaultTagFor
    split <;> nofun
  have huser : (if hasDatabase x.settings.engine = true then js "app" else js "default") ≠ [] := by
    split <;> nofun
  have hslug : Volumes.underscored slug.text ≠ [] := by
    intro h
    exact slug.valid.1 (map_eq_nil_iff.mp h)
  have hpassword : R.password x.settings.name ≠ [] := by
    intro h
    have := R.password_length x.settings.name
    rw [h] at this
    cases this
  have hvariant : variantFor x.settings.engine x.settings.variant = x.settings.variant ↔
      (x.settings.variant.isSome = true → x.settings.engine = .postgres) := by
    unfold variantFor
    split
    · rename_i h
      exact iff_of_true rfl fun _ => h
    · rename_i h
      cases x.settings.variant <;> simp [h]
  have hname : (if hasDatabase x.settings.engine = true then
        orText x.settings.databaseName (Volumes.underscored slug.text) else []) =
          x.settings.databaseName ↔
      if hasDatabase x.settings.engine = true then x.settings.databaseName ≠ [] else x.settings.databaseName = [] := by
    split
    · exact orText_eq_self_iff hslug
    · exact eq_comm
  have hpass : (given (some x.settings.password)).getD (R.password x.settings.name) =
      x.settings.password ↔
      x.settings.password ≠ [] := orText_eq_self_iff hpassword
  rw [DatabaseSettings.ext_iff]
  simp only [importedDatabaseSettings, exportDatabase, if_true, hname, hpass, hvariant,
    orText_eq_self_iff htag,
    orText_eq_self_iff huser, normalizeBind_some, true_and, and_true]
  constructor
  · rintro ⟨rfl, hv, ht, hn, hu, hp, rfl, rfl⟩
    exact ⟨rfl, rfl, rfl, hv, ht, hn, hu, hp⟩
  · rintro ⟨rfl, rfl, rfl, hv, ht, hn, hu, hp⟩
    exact ⟨rfl, hv, ht, hn, hu, hp, rfl, rfl⟩

structure StackSettingsPortable (s : StackSettings) : Prop where
  gitBranch : s.gitBranch ≠ []
  composePath : s.composePath ≠ []
  env : hasOldReference s.env = false

theorem importedStackSettings_eq_iff (d : Directories) (sets : List VariableSet) (c : ComposeApp)
    (slug : Volumes.Slug)
    (ports : List ServicePort) :
    importedStackSettings (exportComposeApp d sets c) slug ports = c.settings ↔
      slug = c.settings.slug ∧ ports = c.settings.servicePorts ∧ StackSettingsPortable c.settings := by
  have hmain : js "main" ≠ [] := nofun
  have hfile : js "docker-compose.yml" ≠ [] := nofun
  rw [StackSettings.ext_iff]
  simp only [importedStackSettings, exportComposeApp, orText_eq_self_iff hmain,
    orText_eq_self_iff hfile, true_and]
  constructor
  · rintro ⟨rfl, hbranch, hpath, henv, rfl⟩
    exact ⟨rfl, rfl, hbranch, hpath, (rewriteProjectReferences_eq_self_iff _).mp henv⟩
  · rintro ⟨rfl, rfl, h⟩
    exact ⟨rfl, h.gitBranch, h.composePath, (rewriteProjectReferences_eq_self_iff _).mpr h.env, rfl⟩

/-! ## Names, hosts and ports -/

def appPorts (a : Application) : List Nat := a.settings.hostPort.toList

def databasePorts (x : Database) : List Nat := x.settings.hostPort.toList

def stackPorts (R : Runtime) (c : ComposeApp) : List Nat := portNumbers R c.settings.servicePorts

def hostsOf (as : List Application) : List JsString := as.flatMap fun a => a.domains.map Domain.host

/-- No name, host or port of the resources is taken on the instance or by another of them. -/
structure Free (R : Runtime) (T : Instance) (as : List Application) (ds : List Database)
    (cs : List ComposeApp) :
    Prop where
  appNames : ((T.applications ++ as).map fun a => a.settings.appName.text).Nodup
  slugs : ((T.databases ++ ds).map fun x => x.settings.slug.text).Nodup
  stackSlugs : ((T.composeApps ++ cs).map fun c => c.settings.slug.text).Nodup
  hosts : (hostsOf (T.applications ++ as)).Nodup
  ports : (T.claimed R :: (as.map appPorts ++ (ds.map databasePorts ++ cs.map (stackPorts R)))).Pairwise List.Disjoint

/-- The name of the first row to come is taken by none that is there. -/
theorem not_taken_of_nodup {α : Type} {key : α → JsString} {rows : List α} {x : α} {xs : List α}
    (h : ((rows ++ x :: xs).map key).Nodup) : (rows.any fun r => key r = key x) = false := by
  rw [List.any_eq_false]
  intro r hr heq
  rw [map_append, map_cons] at h
  exact (nodup_append.mp h).2.2 _ (mem_map_of_mem hr) _ mem_cons_self (of_decide_eq_true heq)

variable {R : Runtime} {T : Instance} {a : Application} {as : List Application} {ds : List Database}
  {cs : List ComposeApp}

theorem Free.app_port (free : Free R T (a :: as) ds cs) :
      ∀ n ∈ a.settings.hostPort, n ∉ T.claimed R := by
  intro n hn hclaimed
  have hdisjoint := (pairwise_cons.mp free.ports).1 (appPorts a) mem_cons_self
  exact hdisjoint hclaimed (mem_toList.mpr hn)

theorem Free.database_port {x : Database}
    (free : Free R T [] (x :: ds) cs) : ∀ n ∈ x.settings.hostPort, n ∉ T.claimed R := by
  intro n hn hclaimed
  have hdisjoint := (pairwise_cons.mp free.ports).1 (databasePorts x) mem_cons_self
  exact hdisjoint hclaimed (mem_toList.mpr hn)

theorem Free.stack_ports {c : ComposeApp} (free : Free R T [] [] (c :: cs)) :
      List.Disjoint (T.claimed R) (portNumbers R c.settings.servicePorts) :=
  (pairwise_cons.mp free.ports).1 (stackPorts R c) mem_cons_self

theorem Free.app_hosts (free : Free R T (a :: as) ds cs) :
      (T.hosts ++ a.domains.map Domain.host).Nodup := by
  have hhosts := free.hosts
  unfold hostsOf at hhosts
  rw [flatMap_append, flatMap_cons, ← append_assoc] at hhosts
  exact (nodup_append.mp hhosts).1

/-! ## Applications -/

structure AppConfig where
  settings : AppSettings
  secretSource : Option SecretConfig
  references : AppReferences
  variableSets : List ExportedLink
  httpMonitor : Option Monitor.Config
  resourceAlerts : RulesConfig
  domains : List DomainConfig
  mounts : List Mount
  jobs : List Job

/-- What an application is set up to be, on an instance with these objects. -/
def appConfig (d : Directories) (sets : List VariableSet) (a : Application) : AppConfig where
  settings := a.settings
  secretSource := secretConfig d a.secrets
  references :=
    { gitCredential := d.credentials.ref a.gitCredentialId
      imageRegistry := d.registries.ref a.imageRegistryId
      backupDestination := d.destinations.ref a.backupDestinationId
      server := d.servers.ref a.serverId }
  variableSets := exportLinks sets a.links
  httpMonitor := a.monitor
  resourceAlerts := rulesConfig a.rules
  domains := a.domains.map (domainConfig d)
  mounts := a.mounts
  jobs := a.jobs

/-- What an import reads and does not change. -/
structure Platform where
  directories : Directories
  dnsBound : Option Id → Bool
  sets : List VariableSet

def Instance.platform (T : Instance) : Platform := ⟨T.directories, T.dnsBound, T.sets⟩

/-- What an application refers to is known on the instance, under the same names. -/
structure AppHeld (e : Platform) (d : Directories) (sets : List VariableSet)
    (a : Application) : Prop where
  gitCredential : Resolves d.credentials e.directories.credentials a.gitCredentialId
  imageRegistry : Resolves d.registries e.directories.registries a.imageRegistryId
  backupDestination : Resolves d.destinations e.directories.destinations a.backupDestinationId
  server : Resolves d.servers e.directories.servers a.serverId
  secretConnection : Resolves d.secretConnections e.directories.secretConnections a.secrets.connectionId
  dnsConnections : ∀ x ∈ a.domains, Resolves d.dnsConnections e.directories.dnsConnections x.dnsConnectionId
  links : ∀ l ∈ exportLinks sets a.links, LinkHeld e.sets l

def serverIn (e : Platform) (d : Directories) (a : Application) : Option Id :=
  (given (d.servers.ref a.serverId)).bind e.directories.servers.idOf

/-- The condition on an application. -/
structure AppPortable (R : Runtime) (u : Importer) (e : Platform) (d : Directories)
    (sets : List VariableSet)
    (a : Application) : Prop where
  appName : a.settings.appName.text.length ≤ 64
  rootDirectory : ∀ r ∈ a.settings.rootDirectory, isValidRootDirectory r = true
  hostPort : PortFits a.settings.hostPort
  backupCron : ∀ c ∈ a.settings.backupCron, c ≠ [] ∧ R.isValidCron c = true
  settings : SettingsPortable a.settings
  secrets : SecretPortable d a.secrets
  gitCredential : d.credentials.ref a.gitCredentialId ≠ some []
  imageRegistry : d.registries.ref a.imageRegistryId ≠ some []
  backupDestination : d.destinations.ref a.backupDestinationId ≠ some []
  server : d.servers.ref a.serverId ≠ some []
  links : LinksPortable u e.sets (exportLinks sets a.links)
  monitor : ∀ m ∈ a.monitor, MonitorPortable m
  rules : RulesPortable a.rules
  domains : ∀ x ∈ a.domains, DomainPortable d (e.dnsBound (serverIn e d a)) x
  paths : (a.mounts.map Mount.containerPath).Nodup
  mounts : ∀ m ∈ a.mounts, MountPortable u.role m
  jobs : ∀ j ∈ a.jobs, JobPortable R false j

/-- A row that needs a lookup first, and is given up when something else fails. -/
theorem exists_imported_iff {α β : Type} {found : Option (Noted α)} {failed : Bool} (row : α → β)
    {warnings : Noted α → List JsString} (P : β → Prop) :
    (∃ y, (found.bind fun v => if failed = true then none else some ⟨row v.value, warnings v⟩) = some y ∧
        P (Noted.value y)) ↔
      ∃ v, found = some v ∧ failed = false ∧ P (row v.value) := by
  cases found with
  | none => simp
  | some v =>
    cases failed with
    | true => simp
    | false => simp

section Resources
variable {R : Runtime} {u : Importer} {x : SetIndex} {T : Instance} {d : Directories}
    {sets : List VariableSet}

variable (R u x T) in
/-- The application an import builds once its host port is known. -/
def importedApplication (a : ExportedApplication) (port : Option Nat) : Application :=
  let place := js "application " ++ quoted a.name
  let d := T.directories
  let taken := T.applications.any fun b => b.settings.appName.text = a.appName
  let server := (resolve (js "server") d.servers a.references.server place).value
  { settings := importedSettings a (importSlug R (js "appName") taken a.appName a.name place).value
      (importRootDirectory a.rootDirectory place).value port (validCron R a.backupCron place).value
    secrets := (importedSecretSource d.secretConnections a.secretSource place).value
    gitCredentialId := (resolve (js "git credential") d.credentials a.references.gitCredential place).value
    imageRegistryId := (resolve (js "registry") d.registries a.references.imageRegistry place).value
    backupDestinationId :=
      (resolve (js "backup destination") d.destinations a.references.backupDestination place).value
    serverId := server
    links := (linksFor R u x a.variableSets place).value
    monitor := (importMonitor a.httpMonitor place).value
    rules := (importRules a.resourceAlerts place).value
    domains := (importDomains T server place T.hosts a.domains).value
    mounts := (importMounts u.role place [] a.mounts).saved
    jobs := (importJobs R false a.jobs place).value }

/-- An application is imported when its port can be asked for and no mount is refused. -/
theorem importApplication_eq (a : ExportedApplication) : ∃ warnings : Noted (Option Nat) → List JsString,
    importApplication R u x T a =
    (importHostPort R T a.hostPort (js "application " ++ quoted a.name)).bind fun port =>
      if (importMounts u.role (js "application " ++ quoted a.name) [] a.mounts).failed = true then none
      else some ⟨importedApplication R u x T a port.value, warnings port⟩ := ⟨_, rfl⟩

/-- **An application keeps its configuration exactly when it is portable.** -/
theorem importApplication_iff (hsets : SetsDistinct R T.platform.sets)
    (hx : x.existing = T.platform.sets) (hfresh : x.Fresh R) (held : AppHeld T.platform d sets a)
    (free : Free R T (a :: as) ds cs) :
    (∃ y, importApplication R u x T (exportApplication d sets a) = some y ∧
        appConfig T.directories x.all y.value = appConfig d sets a) ↔
      AppPortable R u T.platform d sets a := by
  obtain ⟨warnings, heq⟩ := importApplication_eq (exportApplication d sets a)
  rw [heq]
  refine (exists_imported_iff (importedApplication R u x T (exportApplication d sets a))
    fun b => appConfig T.directories x.all b = appConfig d sets a).trans ?_
  generalize hplace : js "application " ++ quoted (exportApplication d sets a).name = place
  have hslug := importSlug_iff R (not_taken_of_nodup free.appNames) (js "appName") a.settings.appName a.settings.name place
  have hroot := importRootDirectory_eq_self_iff a.settings.rootDirectory place
  have hport := importHostPort_iff free.app_port place
  have hcron := validCron_eq_self_iff R a.settings.backupCron place
  have hsecrets := secretConfig_iff held.secretConnection place
  have hcredential := ref_resolve_iff held.gitCredential (js "git credential") place
  have hregistry := ref_resolve_iff held.imageRegistry (js "registry") place
  have hdestination := ref_resolve_iff held.backupDestination (js "backup destination") place
  have hserver := ref_resolve_iff held.server (js "server") place
  have hlinks := @exportLinks_linksFor_iff R u x (hx ▸ hsets) hfresh _ (hx ▸ held.links) place
  have hmonitor := importMonitor_eq_self_iff a.monitor place
  have hrules := rulesConfig_iff a.rules place
  have hdomains : (importDomains T (resolve (js "server") T.directories.servers (d.servers.ref a.serverId) place).value
      place T.hosts (a.domains.map (exportDomain d))).value.map (domainConfig T.directories) =
      a.domains.map (domainConfig d) ↔
        ∀ y ∈ a.domains, DomainPortable d (T.dnsBound (serverIn T.platform d a)) y := by
    rw [resolve_value]
    exact importDomains_iff held.dnsConnections free.app_hosts (serverIn T.platform d a) place
  have hmounts := @importMounts_iff u.role place [] nodup_nil a.mounts
  have hjobs := importJobs_iff R false a.jobs place
  constructor
  · rintro ⟨port, hfound, hfailed, hcfg⟩
    obtain ⟨hsettings, hsecret, hrefs, hlink, hmon, hrule, hdomain, hmount, hjob⟩ := AppConfig.mk.inj hcfg
    obtain ⟨hcred, hreg, hdest, hserv⟩ := AppReferences.mk.inj hrefs
    obtain ⟨hname, hfolder, hvalue, hschedule, hkept⟩ := (importedSettings_eq_iff ..).mp hsettings
    subst hplace
    obtain ⟨hpaths, hbinds⟩ := hmounts.mp ⟨hfailed, hmount⟩
    exact
      { appName := hslug.mp hname
        rootDirectory := hroot.mp hfolder
        hostPort := hport.mp ⟨port, hfound, hvalue⟩
        backupCron := hcron.mp hschedule
        settings := hkept
        secrets := hsecrets.mp hsecret
        gitCredential := hcredential.mp hcred
        imageRegistry := hregistry.mp hreg
        backupDestination := hdestination.mp hdest
        server := hserver.mp hserv
        links := hx ▸ hlinks.mp hlink
        monitor := hmonitor.mp hmon
        rules := hrules.mp hrule
        domains := hdomains.mp hdomain
        paths := hpaths
        mounts := hbinds
        jobs := hjobs.mp hjob }
  · intro h
    obtain ⟨port, hfound, hvalue⟩ := hport.mpr h.hostPort
    obtain ⟨hfailed, hsaved⟩ := hmounts.mpr ⟨h.paths, h.mounts⟩
    refine ⟨port, hfound, hfailed, ?_⟩
    have hsettings := (importedSettings_eq_iff d sets a _ _ _ _).mpr
      ⟨hslug.mpr h.appName, hroot.mpr h.rootDirectory, hvalue, hcron.mpr h.backupCron, h.settings⟩
    subst hplace
    rw [appConfig, appConfig, AppConfig.mk.injEq, AppReferences.mk.injEq]
    refine ⟨hsettings, hsecrets.mpr h.secrets, ?_, hlinks.mpr (hx ▸ h.links), hmonitor.mpr h.monitor,
      hrules.mpr h.rules, hdomains.mpr h.domains, hsaved, hjobs.mpr h.jobs⟩
    exact ⟨hcredential.mpr h.gitCredential, hregistry.mpr h.imageRegistry, hdestination.mpr h.backupDestination,
      hserver.mpr h.server⟩

end Resources

/-! ## Databases -/

structure DatabaseConfig where
  settings : DatabaseSettings
  backupDestination : Option JsString
  resourceAlerts : RulesConfig
  mounts : List Mount
  jobs : List Job

def databaseConfig (d : Directories) (x : Database) : DatabaseConfig where
  settings := x.settings
  backupDestination := d.destinations.ref x.backupDestinationId
  resourceAlerts := rulesConfig x.rules
  mounts := x.mounts
  jobs := x.jobs

def DatabaseHeld (e : Platform) (d : Directories) (x : Database) : Prop :=
  Resolves d.destinations e.directories.destinations x.backupDestinationId

structure DatabasePortable (R : Runtime) (u : Importer) (d : Directories) (x : Database) : Prop where
  slug : x.settings.slug.text.length ≤ 64
  hostPort : PortFits x.settings.hostPort
  backupCron : ∀ c ∈ x.settings.backupCron, c ≠ [] ∧ R.isValidCron c = true
  settings : DatabaseSettingsPortable x.settings
  backupDestination : d.destinations.ref x.backupDestinationId ≠ some []
  rules : RulesPortable x.rules
  paths : (x.mounts.map Mount.containerPath).Nodup
  mounts : ∀ m ∈ x.mounts, MountPortable u.role m
  jobs : ∀ j ∈ x.jobs, JobPortable R false j

section Databases
variable {R : Runtime} {u : Importer} {T : Instance} {d : Directories}

variable (R u T) in
def importedDatabase (x : ExportedDatabase) (port : Option Nat) : Database :=
  let place := js "database " ++ quoted x.name
  let taken := T.databases.any fun b => b.settings.slug.text = x.slug
  { settings := importedDatabaseSettings R x (importSlug R (js "slug") taken x.slug x.name place).value port
      (validCron R x.backupCron place).value
    backupDestinationId :=
      (resolve (js "backup destination") T.directories.destinations x.backupDestination place).value
    rules := (importRules x.resourceAlerts place).value
    mounts := (importMounts u.role place [] x.mounts).saved
    jobs := (importJobs R false x.jobs place).value }

theorem importDatabase_eq (x : ExportedDatabase) : ∃ warnings : Noted (Option Nat) → List JsString,
    importDatabase R u T x =
    (importHostPort R T x.hostPort (js "database " ++ quoted x.name)).bind fun port =>
      if (importMounts u.role (js "database " ++ quoted x.name) [] x.mounts).failed = true then none
      else some ⟨importedDatabase R u T x port.value, warnings port⟩ := ⟨_, rfl⟩

/-- **A database keeps its configuration exactly when it is portable.** -/
theorem importDatabase_iff {x : Database} (held : DatabaseHeld T.platform d x)
    (free : Free R T [] (x :: ds) cs) :
    (∃ y, importDatabase R u T (exportDatabase d true x) = some y ∧
        databaseConfig T.directories y.value = databaseConfig d x) ↔
      DatabasePortable R u d x := by
  obtain ⟨warnings, heq⟩ := importDatabase_eq (exportDatabase d true x)
  rw [heq]
  refine (exists_imported_iff (importedDatabase R u T (exportDatabase d true x))
    fun b => databaseConfig T.directories b = databaseConfig d x).trans ?_
  generalize hplace : js "database " ++ quoted (exportDatabase d true x).name = place
  have hslug := importSlug_iff R (not_taken_of_nodup free.slugs) (js "slug") x.settings.slug x.settings.name place
  have hport := importHostPort_iff free.database_port place
  have hcron := validCron_eq_self_iff R x.settings.backupCron place
  have hdestination := ref_resolve_iff held (js "backup destination") place
  have hrules := rulesConfig_iff x.rules place
  have hmounts := @importMounts_iff u.role place [] nodup_nil x.mounts
  have hjobs := importJobs_iff R false x.jobs place
  constructor
  · rintro ⟨port, hfound, hfailed, hcfg⟩
    obtain ⟨hsettings, hdest, hrule, hmount, hjob⟩ := DatabaseConfig.mk.inj hcfg
    obtain ⟨hname, hvalue, hschedule, hkept⟩ := (importedDatabaseSettings_eq_iff ..).mp hsettings
    subst hplace
    obtain ⟨hpaths, hbinds⟩ := hmounts.mp ⟨hfailed, hmount⟩
    exact
      { slug := hslug.mp hname
        hostPort := hport.mp ⟨port, hfound, hvalue⟩
        backupCron := hcron.mp hschedule
        settings := hkept
        backupDestination := hdestination.mp hdest
        rules := hrules.mp hrule
        paths := hpaths
        mounts := hbinds
        jobs := hjobs.mp hjob }
  · intro h
    obtain ⟨port, hfound, hvalue⟩ := hport.mpr h.hostPort
    obtain ⟨hfailed, hsaved⟩ := hmounts.mpr ⟨h.paths, h.mounts⟩
    refine ⟨port, hfound, hfailed, ?_⟩
    have hsettings := (importedDatabaseSettings_eq_iff R d x _ _ _).mpr
      ⟨hslug.mpr h.slug, hvalue, hcron.mpr h.backupCron, h.settings⟩
    subst hplace
    rw [databaseConfig, databaseConfig, DatabaseConfig.mk.injEq]
    exact ⟨hsettings, hdestination.mpr h.backupDestination, hrules.mpr h.rules, hsaved, hjobs.mpr h.jobs⟩

end Databases

/-! ## Stacks -/

/-- A stack's configuration as far as it goes into a file. -/
structure StackConfig where
  settings : StackSettings
  gitCredential : Option JsString
  variableSets : List ExportedLink
  jobs : List Job

def stackConfig (d : Directories) (sets : List VariableSet) (c : ComposeApp) : StackConfig where
  settings := c.settings
  gitCredential := d.credentials.ref c.gitCredentialId
  variableSets := exportLinks sets c.links
  jobs := c.jobs

structure StackHeld (e : Platform) (d : Directories) (sets : List VariableSet)
    (c : ComposeApp) : Prop where
  gitCredential : Resolves d.credentials e.directories.credentials c.gitCredentialId
  links : ∀ l ∈ exportLinks sets c.links, LinkHeld e.sets l

structure StackPortable (R : Runtime) (u : Importer) (e : Platform) (d : Directories)
    (sets : List VariableSet)
    (c : ComposeApp) : Prop where
  slug : c.settings.slug.text.length ≤ 64
  servicePorts : PortsFit R c.settings.servicePorts
  settings : StackSettingsPortable c.settings
  gitCredential : d.credentials.ref c.gitCredentialId ≠ some []
  links : LinksPortable u e.sets (exportLinks sets c.links)
  jobs : ∀ j ∈ c.jobs, JobPortable R true j

section Stacks
variable {R : Runtime} {u : Importer} {x : SetIndex} {T : Instance} {d : Directories}
    {sets : List VariableSet}

variable (R u x T) in
def importedStack (c : ExportedComposeApp) (ports : List ServicePort) : ComposeApp :=
  let place := js "compose " ++ quoted c.name
  let taken := T.composeApps.any fun b => b.settings.slug.text = c.slug
  { settings := importedStackSettings c (importSlug R (js "slug") taken c.slug c.name place).value ports
    gitCredentialId := (resolve (js "git credential") T.directories.credentials c.gitCredential place).value
    links := (linksFor R u x c.variableSets place).value
    jobs := (importJobs R true c.jobs place).value
    mounts := []
    serviceResources := [] }

theorem importComposeApp_eq (c : ExportedComposeApp) :
    ∃ warnings : Noted (List ServicePort) → List JsString,
    importComposeApp R u x T c =
    (importServicePorts R T (c.servicePorts.getD []) (js "compose " ++ quoted c.name)).bind fun ports =>
      if false = true then none else some ⟨importedStack R u x T c ports.value, warnings ports⟩ :=
        ⟨_, rfl⟩

/-- **A stack keeps what goes into a file exactly when it is portable.** -/
theorem importComposeApp_iff (hsets : SetsDistinct R T.platform.sets)
    (hx : x.existing = T.platform.sets) (hfresh : x.Fresh R) {c : ComposeApp}
    (held : StackHeld T.platform d sets c) (free : Free R T [] [] (c :: cs)) :
    (∃ y, importComposeApp R u x T (exportComposeApp d sets c) = some y ∧
        stackConfig T.directories x.all y.value = stackConfig d sets c) ↔
      StackPortable R u T.platform d sets c := by
  obtain ⟨warnings, heq⟩ := importComposeApp_eq (exportComposeApp d sets c)
  rw [heq]
  refine (exists_imported_iff (importedStack R u x T (exportComposeApp d sets c))
    fun b => stackConfig T.directories x.all b = stackConfig d sets c).trans ?_
  generalize hplace : js "compose " ++ quoted (exportComposeApp d sets c).name = place
  have hslug := importSlug_iff R (not_taken_of_nodup free.stackSlugs) (js "slug") c.settings.slug c.settings.name place
  have hports := importServicePorts_iff free.stack_ports place
  have hcredential := ref_resolve_iff held.gitCredential (js "git credential") place
  have hlinks := @exportLinks_linksFor_iff R u x (hx ▸ hsets) hfresh _ (hx ▸ held.links) place
  have hjobs := importJobs_iff R true c.jobs place
  constructor
  · rintro ⟨ports, hfound, -, hcfg⟩
    obtain ⟨hsettings, hcred, hlink, hjob⟩ := StackConfig.mk.inj hcfg
    obtain ⟨hname, hvalue, hkept⟩ := (importedStackSettings_eq_iff ..).mp hsettings
    subst hplace
    exact
      { slug := hslug.mp hname
        servicePorts := hports.mp ⟨ports, hfound, hvalue⟩
        settings := hkept
        gitCredential := hcredential.mp hcred
        links := hx ▸ hlinks.mp hlink
        jobs := hjobs.mp hjob }
  · intro h
    obtain ⟨ports, hfound, hvalue⟩ := hports.mpr h.servicePorts
    refine ⟨ports, hfound, rfl, ?_⟩
    have hsettings := (importedStackSettings_eq_iff d sets c _ _).mpr ⟨hslug.mpr h.slug, hvalue, h.settings⟩
    subst hplace
    rw [stackConfig, stackConfig, StackConfig.mk.injEq]
    exact ⟨hsettings, hcredential.mpr h.gitCredential, hlinks.mpr (hx ▸ h.links), hjobs.mpr h.jobs⟩

end Stacks

end Aoox.Transfer
