import Aoox.JsString
import Aoox.Runs
import Aoox.Table

/-! # Who publishes a host port

Applications, managed databases, their admin apps ("companions") and the services of
compose stacks all publish host ports, and Docker notices a clash only when a container
starts.  So every operation checks first: creating and updating go through `assertFree`,
which asks every kind of row and the daemon; an import goes through `freeHostPort`, which
asks the rows only, and not the companions.

The invariant carried through a run is stronger than what a daemon needs: no host port
is claimed twice anywhere (`Distinct`), since the checks do not look at the daemon of a
row.  `assertFree` keeps it at every step (`free_of_assertFree`).  An import keeps it
under a condition on the imported port (`ImportedFree`, `ImportedStackFree`): it is not a
companion's, it is a number where a stack is compared with `===`, and a stack does not
list it twice.  A run whose imports meet the condition never publishes a port twice
(`published_nodup`).
-/
open List Option
namespace Aoox.HostPorts

open JsString

/-! ## Rows -/

/-- A host port as JSON holds it: a number, or the text of one. -/
inductive PortValue where
  | number (n : Nat)
  | text (s : JsString)
  deriving DecidableEq

structure Application where
  (id appName : JsString)
  /-- The server the application runs on; `none` is the local daemon. -/
  serverId : Option JsString
  hostPort : Option Nat
  deriving DecidableEq

structure Database where
  (id name : JsString)
  hostPort : Option Nat
  deriving DecidableEq

structure Companion where
  databaseId : JsString
  hostPort : Option Nat
  deriving DecidableEq

/-- A published port of a service.  The column is `jsonb`, so an imported value is kept as
the file spells it. -/
structure ServicePort where
  service : JsString
  port : Nat
  hostPort : PortValue
  deriving DecidableEq

structure Stack where
  (id name slug : JsString)
  servicePorts : List ServicePort
  deriving DecidableEq

/-- The four tables. -/
structure Rows where
  applications : List Application
  databases : List Database
  companions : List Companion
  composeApps : List Stack
  deriving DecidableEq

/-- A container of the daemon's listing. -/
structure Container where
  names : List JsString
  id : JsString
  publicPorts : List (Option Nat)
  (applicationLabel composeProjectLabel : Option JsString)

/-! ## The check of creating and updating -/

structure ConflictData where
  /-- Id, name and port of each application. -/
  apps : List (JsString × JsString × Nat)
  (dbs companions : List (JsString × Nat))
  composeApps : List Stack
  containers : List Container

/-- What the caller knows to be its own. -/
structure Options where
  (excludeApplicationId excludeComposeAppId : Option JsString)
  isOwnContainer : Container → Bool

/-- The caller has no row and no container yet. -/
def nothingOwn : Options := ⟨none, none, fun _ => false⟩

/-- One leading slash less. -/
def withoutSlash (name : JsString) : JsString :=
  if name.head? = some (cu '/') then name.tail else name

def containerName (c : Container) : JsString :=
  match c.names with
  | n :: _ => withoutSlash n
  | [] => sliceTo c.id 12

def conflict (n : Nat) (kind : String) (name : JsString) : JsString :=
  js (toString n) ++ js " (" ++ js kind ++ js " " ++ name ++ js ")"

def conflictsOf (ports : List Nat) (kind : String) (claims : List (JsString × Nat)) :
    List JsString :=
  (claims.filter fun c => c.2 ∈ ports).map fun c => conflict c.2 kind c.1

/-- The numbers a stack's row compares equal to: `Set.has` never finds a text. -/
def numericPorts (st : Stack) : List Nat :=
  st.servicePorts.filterMap fun p =>
    match p.hostPort with
    | .number n => some n
    | .text _ => none

def hostPortConflicts (ports : List Nat) (data : ConflictData) (o : Options) : List JsString :=
  if ports = [] then [] else
    (conflictsOf ports "application"
        ((data.apps.filter fun a => some a.1 ≠ o.excludeApplicationId).map Prod.snd) ++
      conflictsOf ports "database" data.dbs ++
      conflictsOf ports "admin database" data.companions ++
      conflictsOf ports "stack" ((data.composeApps.filter fun st => some st.id ≠ o.excludeComposeAppId).flatMap
        fun st => (numericPorts st).map fun n => (st.name, n)) ++
      conflictsOf ports "container" ((data.containers.filter fun c => !o.isOwnContainer c).flatMap
        fun c => (c.publicPorts.filterMap fun p => p.filter (· ≠ 0)).map
          fun n => (containerName c, n))).eraseDups

def databaseName (s : Rows) (c : Companion) : JsString :=
  ((Table.get Database.id s.databases c.databaseId).map Database.name).getD []

/-- The rows `assertFree` reads, each table restricted to the ports asked for. -/
def conflictData (s : Rows) (ports : List Nat) (running : List Container) : ConflictData where
  apps := s.applications.filterMap fun a =>
    (a.hostPort.filter (· ∈ ports)).map fun n => (a.id, a.appName, n)
  dbs := s.databases.filterMap fun d => (d.hostPort.filter (· ∈ ports)).map fun n => (d.name, n)
  companions := s.companions.filterMap fun c =>
    (c.hostPort.filter (· ∈ ports)).map fun n => (databaseName s c, n)
  composeApps := s.composeApps
  containers := running

def assertFree (s : Rows) (ports : List Nat) (running : List Container) (o : Options) :
    Except JsString Unit :=
  if ports = [] then .ok () else
    let conflicts := hostPortConflicts ports.eraseDups (conflictData s ports.eraseDups running) o
    if conflicts = [] then .ok ()
    else .error (js "Host port already in use: " ++ join conflicts (js ", "))

/-! ## Creating and updating -/

/-- The range the requests allow. -/
def validPort (n : Nat) : Bool := 1 ≤ n && n ≤ 65535

/-- The check of one optional port. -/
def assertPortFree (s : Rows) (hostPort : Option Nat) (running : List Container) (o : Options) :
    Except JsString Unit :=
  match hostPort with
  | none => .ok ()
  | some n => assertFree s [n] running o

def createApplication (s : Rows) (id appName : JsString) (serverId : Option JsString)
    (hostPort : Option Nat) (running : List Container) : Except JsString Rows := do
  assertPortFree s hostPort running nothingOwn
  return { s with applications := s.applications ++ [⟨id, appName, serverId, hostPort⟩] }

/-- The two settings that decide where a port is published.  Outside is "not given"; a port
may be given as `null`. -/
structure ApplicationPatch where
  hostPort : Option (Option Nat)
  serverId : Option (Option JsString)

def containerNameFor (app : Application) : JsString := js "aoox-app-" ++ app.appName

def isOwnContainer (app : Application) (c : Container) : Bool :=
  c.applicationLabel = some app.id ||
    ((c.names.head?.map withoutSlash) = some (containerNameFor app) ||
      (c.names.head?.map withoutSlash) = some (containerNameFor app ++ js "-next"))

/-- `applied` is how recreating the running container ended: when it failed the port from
before is saved again, and the new server stays. -/
def updateApplication (s : Rows) (id : JsString) (patch : ApplicationPatch)
    (running : List Container) (applied : Bool) : Except JsString Rows :=
  match Table.get Application.id s.applications id with
  | none => .error (js "Application not found")
  | some app => do
    let hostPort := patch.hostPort.getD app.hostPort
    let serverId := patch.serverId.getD app.serverId
    if hostPort ≠ app.hostPort ∨ serverId ≠ app.serverId then
      assertPortFree s hostPort running ⟨some app.id, none, isOwnContainer app⟩
    return { s with
      applications := Table.save Application.id s.applications
        { app with serverId, hostPort := if applied then hostPort else app.hostPort } }

def createDatabase (s : Rows) (id name : JsString) (hostPort : Option Nat)
    (running : List Container) : Except JsString Rows := do
  assertPortFree s hostPort running nothingOwn
  return { s with databases := s.databases ++ [⟨id, name, hostPort⟩] }

/-- `if (hostPort)`: a port of 0 would not be checked, but no request holds one. -/
def createCompanion (s : Rows) (databaseId : JsString) (hostPort : Option Nat)
    (running : List Container) : Except JsString Rows := do
  if s.companions.any fun c => c.databaseId = databaseId then
    throw (js "This database already has an admin app")
  assertPortFree s (hostPort.filter (· ≠ 0)) running nothingOwn
  return { s with companions := s.companions ++ [⟨databaseId, hostPort⟩] }

/-- A published port as a request gives it. -/
structure ServicePortDto where
  service : JsString
  (port hostPort : Nat)

def ServicePortDto.row (p : ServicePortDto) : ServicePort := ⟨p.service, p.port, .number p.hostPort⟩

def firstRepeated : List Nat → List Nat → Option Nat
  | _, [] => none
  | seen, n :: ns => if n ∈ seen then some n else firstRepeated (seen ++ [n]) ns

def composeProjectFor (slug : JsString) : JsString := js "aoox-" ++ slug

/-- A stack that is not saved yet has no id. -/
def assertHostPortsFree (s : Rows) (id : Option JsString) (slug : JsString) (ports : List Nat)
    (running : List Container) : Except JsString Unit :=
  match firstRepeated [] ports with
  | some n => .error (js "Host port " ++ js (toString n) ++ js " is listed more than once")
  | none =>
    assertFree s ports running
      ⟨none, id, fun c => c.composeProjectLabel = some (composeProjectFor slug)⟩

/-- A stack from a repository: its ports are set by a later update. -/
def createComposeApp (s : Rows) (id name slug : JsString) : Rows :=
  { s with composeApps := s.composeApps ++ [⟨id, name, slug, []⟩] }

def createFromTemplate (s : Rows) (id name slug : JsString) (servicePorts : List ServicePortDto)
    (running : List Container) : Except JsString Rows := do
  assertHostPortsFree s none slug (servicePorts.map ServicePortDto.hostPort) running
  return { s with composeApps := s.composeApps ++ [⟨id, name, slug, servicePorts.map ServicePortDto.row⟩] }

def updateComposeApp (s : Rows) (id : JsString) (servicePorts : Option (List ServicePortDto))
    (running : List Container) : Except JsString Rows :=
  match Table.get Stack.id s.composeApps id, servicePorts with
  | none, _ => .error (js "Compose app not found")
  | some _, none => .ok s
  | some st, some ports => do
    assertHostPortsFree s (some st.id) st.slug (ports.map ServicePortDto.hostPort) running
    return { s with
      composeApps := Table.save Stack.id s.composeApps { st with servicePorts := ports.map ServicePortDto.row } }

/-! ## Importing -/

section Import

-- What PostgreSQL makes of a text where an `integer` is expected; `none` is an error.
variable (integerInput : JsString → Option Nat)

/-- The value of an `integer` column or parameter. -/
def asInteger : PortValue → Option Nat
  | .number n => if n < 2147483648 then some n else none
  | .text s => integerInput s

def PortValue.falsy : PortValue → Bool
  | .number n => n = 0
  | .text s => s = []

def PortValue.shown : PortValue → JsString
  | .number n => js (toString n)
  | .text s => s

/-- The rows an import looks at.  The tables are asked in SQL, where a text is read as the
number it spells; the ports of a stack are compared with `===`, where it is not. -/
def taken (s : Rows) (p : PortValue) (n : Nat) : Bool :=
  (s.applications.any fun a => a.hostPort = some n) || (s.databases.any fun d => d.hostPort = some n) ||
    s.composeApps.any fun st => st.servicePorts.any fun q => q.hostPort = p

/-- The port an imported row gets, with the warnings; `none` when a query fails. -/
def freeHostPort (s : Rows) (port : Option PortValue) (place : JsString) :
    Option (Option PortValue × List JsString) :=
  match port with
  | none => some (none, [])
  | some p =>
    if p.falsy then some (none, []) else
      match asInteger integerInput p with
      | none => none
      | some n =>
        if taken s p n then
          some (none, [place ++ js ": host port " ++ p.shown ++ js " already in use, left empty"])
        else some (some p, [])

/-- Each port of a stack is asked for on its own, before the stack is saved. -/
def freeServicePorts (s : Rows) : List ServicePort → JsString → Option (List ServicePort × List JsString)
  | [], _ => some ([], [])
  | p :: ps, place => do
    let (free, warnings) ← freeHostPort integerInput s (some p.hostPort) place
    let (kept, rest) ← freeServicePorts s ps place
    return ((if free.isSome then p :: kept else kept), warnings ++ rest)

def importApplication (s : Rows) (id appName : JsString) (serverId : Option JsString)
    (hostPort : Option PortValue) (place : JsString) : Option (Rows × List JsString) := do
  let (port, warnings) ← freeHostPort integerInput s hostPort place
  return ({ s with
    applications := s.applications ++ [⟨id, appName, serverId, port.bind (asInteger integerInput)⟩] }, warnings)

def importDatabase (s : Rows) (id name : JsString) (hostPort : Option PortValue) (place : JsString) :
    Option (Rows × List JsString) := do
  let (port, warnings) ← freeHostPort integerInput s hostPort place
  return ({ s with databases := s.databases ++ [⟨id, name, port.bind (asInteger integerInput)⟩] }, warnings)

def importStack (s : Rows) (id name slug : JsString) (servicePorts : List ServicePort)
    (place : JsString) :
    Option (Rows × List JsString) := do
  let (kept, warnings) ← freeServicePorts integerInput s servicePorts place
  return ({ s with composeApps := s.composeApps ++ [⟨id, name, slug, kept⟩] }, warnings)

/-! ## Runs -/

/-- One operation that passes, with what it met: the id of the new row and the containers
the daemon listed. -/
inductive Action where
  | createApplication (id appName : JsString) (serverId : Option JsString) (hostPort : Option Nat)
      (running : List Container)
  | updateApplication (id : JsString) (patch : ApplicationPatch) (running : List Container)
      (applied : Bool)
  | createDatabase (id name : JsString) (hostPort : Option Nat) (running : List Container)
  | createCompanion (databaseId : JsString) (hostPort : Option Nat) (running : List Container)
  | createComposeApp (id name slug : JsString)
  | createFromTemplate (id name slug : JsString) (servicePorts : List ServicePortDto)
      (running : List Container)
  | updateComposeApp (id : JsString) (servicePorts : Option (List ServicePortDto))
      (running : List Container)
  | importApplication (id appName : JsString) (serverId : Option JsString)
      (hostPort : Option PortValue) (place : JsString)
  | importDatabase (id name : JsString) (hostPort : Option PortValue) (place : JsString)
  | importStack (id name slug : JsString) (servicePorts : List ServicePort) (place : JsString)

/-- Ids are made by the database: a new row gets one no row of its table has. -/
def freshApplication (s : Rows) (id : JsString) : Bool := id ∉ s.applications.map Application.id

def freshStack (s : Rows) (id : JsString) : Bool := id ∉ s.composeApps.map Stack.id

/-- Whether the request passes the validation of its fields. -/
def validRequest (s : Rows) : Action → Bool
  | .createApplication id _ _ hostPort _ => freshApplication s id && hostPort.all validPort
  | .updateApplication _ patch _ _ => patch.hostPort.all fun p => p.all validPort
  | .createDatabase _ _ hostPort _ => hostPort.all validPort
  | .createCompanion databaseId hostPort _ =>
    (s.databases.any fun d => d.id = databaseId) && hostPort.all validPort
  | .createComposeApp id _ _ => freshStack s id
  | .createFromTemplate id _ _ ports _ => freshStack s id && ports.all fun p => validPort p.hostPort
  | .updateComposeApp _ ports _ => ports.all fun ps => ps.all fun p => validPort p.hostPort
  | .importApplication id _ _ _ _ => freshApplication s id
  | .importDatabase _ _ _ _ => true
  | .importStack id _ _ _ _ => freshStack s id

/-- What the operation makes of the tables. -/
def perform (s : Rows) : Action → Option Rows
  | .createApplication id appName serverId hostPort running =>
    (createApplication s id appName serverId hostPort running).toOption
  | .updateApplication id patch running applied =>
    (updateApplication s id patch running applied).toOption
  | .createDatabase id name hostPort running => (createDatabase s id name hostPort running).toOption
  | .createCompanion databaseId hostPort running =>
    (createCompanion s databaseId hostPort running).toOption
  | .createComposeApp id name slug => some (createComposeApp s id name slug)
  | .createFromTemplate id name slug ports running =>
    (createFromTemplate s id name slug ports running).toOption
  | .updateComposeApp id ports running => (updateComposeApp s id ports running).toOption
  | .importApplication id appName serverId hostPort place =>
    (importApplication integerInput s id appName serverId hostPort place).map Prod.fst
  | .importDatabase id name hostPort place =>
    (importDatabase integerInput s id name hostPort place).map Prod.fst
  | .importStack id name slug ports place =>
    (importStack integerInput s id name slug ports place).map Prod.fst

def step (s : Rows) (a : Action) : Option Rows :=
  if validRequest s a then perform integerInput s a else none

/-- An instance with nothing on it. -/
def empty : Rows := ⟨[], [], [], []⟩

/-- Every host port a row claims, with the daemon it is published on.  Databases, their
admin apps and stacks run on the local daemon. -/
def published (s : Rows) : List (Option JsString × Nat) :=
  (s.applications.filterMap fun a => a.hostPort.map fun n => (a.serverId, n)) ++
    (s.databases.filterMap fun d => d.hostPort.map fun n => (none, n)) ++
    (s.companions.filterMap fun c => c.hostPort.map fun n => (none, n)) ++
    s.composeApps.flatMap fun st => st.servicePorts.filterMap fun p =>
      (asInteger integerInput p.hostPort).map fun n => (none, n)

/-! ## No port twice -/

def appPorts (s : Rows) : List Nat := s.applications.filterMap Application.hostPort

def dbPorts (s : Rows) : List Nat := s.databases.filterMap Database.hostPort

def companionPorts (s : Rows) : List Nat := s.companions.filterMap Companion.hostPort

/-- The numbers Docker makes of a stack's ports. -/
def portsOf (st : Stack) : List Nat :=
  st.servicePorts.filterMap fun p => asInteger integerInput p.hostPort

def stackPorts (s : Rows) : List Nat := s.composeApps.flatMap (portsOf integerInput)

/-- Every host port a row claims, on whatever daemon. -/
def claimed (s : Rows) : List Nat :=
  appPorts s ++ dbPorts s ++ companionPorts s ++ stackPorts integerInput s

theorem map_snd_published (s : Rows) :
    (published integerInput s).map Prod.snd = claimed integerInput s := by
  have hmap : ∀ {R : Type} (rows : List R) (f : R → Option Nat) (d : R → Option JsString),
      (rows.filterMap fun r => (f r).map fun n => (d r, n)).map Prod.snd = rows.filterMap f := by
    intro R rows f d
    rw [map_filterMap]
    congr 1
    funext r
    cases f r <;> rfl
  unfold published claimed appPorts dbPorts companionPorts stackPorts
  rw [map_append, map_append, map_append, map_flatMap]
  rw [hmap _ Application.hostPort Application.serverId, hmap _ Database.hostPort fun _ => none,
    hmap _ Companion.hostPort fun _ => none]
  congr 2
  funext st
  exact hmap st.servicePorts (fun p => asInteger integerInput p.hostPort) fun _ => none

/-- A port that `Set.has` and `===` see. -/
def Numeric (p : ServicePort) : Prop := ∃ n, p.hostPort = .number n ∧ n < 2147483648

/-- The invariant: no host port is claimed twice, ids are keys, and every port of a stack is
a number. -/
structure Distinct (s : Rows) : Prop where
  ports : (claimed integerInput s).Nodup
  applicationIds : (s.applications.map Application.id).Nodup
  stackIds : (s.composeApps.map Stack.id).Nodup
  numeric : ∀ st ∈ s.composeApps, ∀ p ∈ st.servicePorts, Numeric p

theorem empty_distinct : Distinct integerInput empty := by
  constructor <;> simp [empty, claimed, appPorts, dbPorts, companionPorts, stackPorts]

variable {integerInput}

/-! ### Adding and replacing one row -/

variable {A p B : List Nat}

theorem nodup_insert (h : (A ++ B).Nodup) (hp : p.Nodup)
    (hfree : ∀ n ∈ p, n ∉ A ++ B) : (A ++ p ++ B).Nodup := by
  have hperm : (A ++ p ++ B).Perm (p ++ (A ++ B)) := by
    rw [append_assoc]
    exact perm_append_comm_assoc A p B
  refine hperm.nodup_iff.mpr (nodup_append.mpr ⟨hp, h, ?_⟩)
  rintro n hn m hm rfl
  exact hfree n hn hm

theorem nodup_drop (h : (A ++ p ++ B).Nodup) : (A ++ B).Nodup := by
  refine h.sublist ?_
  exact (sublist_append_left A p).append (Sublist.refl B)

variable {s : Rows}

theorem distinct_addApplication (h : Distinct integerInput s) {a : Application}
    (hid : a.id ∉ s.applications.map Application.id)
    (hfree : ∀ n, a.hostPort = some n → n ∉ claimed integerInput s) :
    Distinct integerInput { s with applications := s.applications ++ [a] } where
  ports := by
    have hsplit : claimed integerInput { s with applications := s.applications ++ [a] } =
        appPorts s ++ a.hostPort.toList ++
          (dbPorts s ++ companionPorts s ++ stackPorts integerInput s) := by
      cases hp : a.hostPort <;> simp [claimed, appPorts, dbPorts, companionPorts, stackPorts, hp]
    have hs : claimed integerInput s =
        appPorts s ++ (dbPorts s ++ companionPorts s ++ stackPorts integerInput s) := by
      simp [claimed]
    rw [hsplit]
    refine nodup_insert (hs ▸ h.ports) (by cases a.hostPort <;> simp) ?_
    intro n hn
    exact hs ▸ hfree n (by simpa using hn)
  applicationIds := Table.concat_keys_nodup h.applicationIds hid
  stackIds := h.stackIds
  numeric := h.numeric

theorem distinct_addDatabase (h : Distinct integerInput s) {d : Database}
    (hfree : ∀ n, d.hostPort = some n → n ∉ claimed integerInput s) :
    Distinct integerInput { s with databases := s.databases ++ [d] } where
  ports := by
    have hsplit : claimed integerInput { s with databases := s.databases ++ [d] } =
        (appPorts s ++ dbPorts s) ++ d.hostPort.toList ++
          (companionPorts s ++ stackPorts integerInput s) := by
      cases hp : d.hostPort <;> simp [claimed, appPorts, dbPorts, companionPorts, stackPorts, hp]
    have hs : claimed integerInput s =
        (appPorts s ++ dbPorts s) ++ (companionPorts s ++ stackPorts integerInput s) := by
      simp [claimed]
    rw [hsplit]
    refine nodup_insert (hs ▸ h.ports) (by cases d.hostPort <;> simp) ?_
    intro n hn
    exact hs ▸ hfree n (by simpa using hn)
  applicationIds := h.applicationIds
  stackIds := h.stackIds
  numeric := h.numeric

theorem distinct_addCompanion (h : Distinct integerInput s) {c : Companion}
    (hfree : ∀ n, c.hostPort = some n → n ∉ claimed integerInput s) :
    Distinct integerInput { s with companions := s.companions ++ [c] } where
  ports := by
    have hsplit : claimed integerInput { s with companions := s.companions ++ [c] } =
        (appPorts s ++ dbPorts s ++ companionPorts s) ++ c.hostPort.toList ++
          stackPorts integerInput s := by
      cases hp : c.hostPort <;> simp [claimed, appPorts, dbPorts, companionPorts, stackPorts, hp]
    rw [hsplit]
    refine nodup_insert h.ports (by cases c.hostPort <;> simp) ?_
    intro n hn
    exact hfree n (by simpa using hn)
  applicationIds := h.applicationIds
  stackIds := h.stackIds
  numeric := h.numeric

variable {st : Stack}

theorem distinct_addStack (h : Distinct integerInput s) (hid : st.id ∉ s.composeApps.map Stack.id)
    (hnumeric : ∀ p ∈ st.servicePorts, Numeric p) (hnodup : (portsOf integerInput st).Nodup)
    (hfree : ∀ n ∈ portsOf integerInput st, n ∉ claimed integerInput s) :
    Distinct integerInput { s with composeApps := s.composeApps ++ [st] } where
  ports := by
    have hsplit : claimed integerInput { s with composeApps := s.composeApps ++ [st] } =
        claimed integerInput s ++ portsOf integerInput st ++ [] := by
      simp [claimed, appPorts, dbPorts, companionPorts, stackPorts]
    rw [hsplit]
    exact nodup_insert (by simpa using h.ports) hnodup (by simpa using hfree)
  applicationIds := h.applicationIds
  stackIds := Table.concat_keys_nodup h.stackIds hid
  numeric := by
    intro st' hst'
    rcases mem_append.mp hst' with hold | hnew
    · exact h.numeric st' hold
    · exact mem_singleton.mp hnew ▸ hnumeric

/-- Saving an application keeps the invariant when its port is its old one or no other row's. -/
theorem distinct_saveApplication (h : Distinct integerInput s) {a a' : Application}
    (ha : a ∈ s.applications) (hid : a'.id = a.id)
    (hfree : ∀ n, a'.hostPort = some n → a.hostPort = some n ∨
      ((∀ b ∈ s.applications, b.hostPort = some n → b.id = a.id) ∧
        n ∉ dbPorts s ++ companionPorts s ++ stackPorts integerInput s)) :
    Distinct integerInput { s with applications := Table.save Application.id s.applications a' } where
  ports := by
    obtain ⟨pre, post, happs, hothers⟩ := Table.exists_split h.applicationIds ha
    have hsave : Table.save Application.id s.applications a' = pre ++ a' :: post := by
      rw [happs]
      exact Table.save_split hid hothers
    have hsplit : ∀ b : Application,
        claimed integerInput { s with applications := pre ++ b :: post } =
          pre.filterMap Application.hostPort ++ b.hostPort.toList ++
            (post.filterMap Application.hostPort ++
              (dbPorts s ++ companionPorts s ++ stackPorts integerInput s)) := by
      intro b
      cases hp : b.hostPort <;> simp [claimed, appPorts, dbPorts, companionPorts, stackPorts, hp]
    have hbefore : (claimed integerInput { s with applications := pre ++ a :: post }).Nodup := by
      rw [← happs]
      exact h.ports
    rw [hsave, hsplit a']
    rw [hsplit a] at hbefore
    refine nodup_insert (nodup_drop hbefore) (by cases a'.hostPort <;> simp) ?_
    intro n hn hmem
    have hn' : a'.hostPort = some n := by simpa using hn
    rcases hfree n hn' with hold | ⟨happ, hrest⟩
    · rw [hold, toList_some, append_assoc, singleton_append, nodup_middle] at hbefore
      exact (nodup_cons.mp hbefore).1 hmem
    · have hother : ∀ b ∈ pre ++ post, b.hostPort ≠ some n := by
        intro b hb hbn
        refine hothers b hb (happ b ?_ hbn)
        rw [happs]
        rcases mem_append.mp hb with hb | hb
        · exact mem_append_left _ hb
        · exact mem_append_right _ (mem_cons_of_mem _ hb)
      rcases mem_append.mp hmem with hpre | hpost
      · obtain ⟨b, hb, hbn⟩ := mem_filterMap.mp hpre
        exact hother b (mem_append_left _ hb) hbn
      · rcases mem_append.mp hpost with hpost | hpost
        · obtain ⟨b, hb, hbn⟩ := mem_filterMap.mp hpost
          exact hother b (mem_append_right _ hb) hbn
        · exact hrest hpost
  applicationIds := by
    rw [Table.save_keys]
    exact h.applicationIds
  stackIds := h.stackIds
  numeric := h.numeric

/-- Saving a stack keeps the invariant when no other row has one of its ports. -/
theorem distinct_saveStack (h : Distinct integerInput s) {st' : Stack} (hst : st ∈ s.composeApps)
    (hid : st'.id = st.id) (hnumeric : ∀ p ∈ st'.servicePorts, Numeric p)
    (hnodup : (portsOf integerInput st').Nodup)
    (hfree : ∀ n ∈ portsOf integerInput st', n ∉ appPorts s ++ dbPorts s ++ companionPorts s ∧
      ∀ x ∈ s.composeApps, n ∈ portsOf integerInput x → x.id = st.id) :
    Distinct integerInput { s with composeApps := Table.save Stack.id s.composeApps st' } where
  ports := by
    obtain ⟨pre, post, hstacks, hothers⟩ := Table.exists_split h.stackIds hst
    have hsave : Table.save Stack.id s.composeApps st' = pre ++ st' :: post := by
      rw [hstacks]
      exact Table.save_split hid hothers
    have hsplit : ∀ x : Stack, claimed integerInput { s with composeApps := pre ++ x :: post } =
          (appPorts s ++ dbPorts s ++ companionPorts s ++ pre.flatMap (portsOf integerInput)) ++
            portsOf integerInput x ++ post.flatMap (portsOf integerInput) := by
      intro x
      simp [claimed, appPorts, dbPorts, companionPorts, stackPorts]
    have hbefore : (claimed integerInput { s with composeApps := pre ++ st :: post }).Nodup := by
      rw [← hstacks]
      exact h.ports
    rw [hsave, hsplit st']
    rw [hsplit st] at hbefore
    refine nodup_insert (nodup_drop hbefore) hnodup ?_
    intro n hn hmem
    obtain ⟨hrows, hstack⟩ := hfree n hn
    have hother : ∀ x ∈ pre ++ post, n ∉ portsOf integerInput x := by
      intro x hx hxn
      refine hothers x hx (hstack x ?_ hxn)
      rw [hstacks]
      rcases mem_append.mp hx with hx | hx
      · exact mem_append_left _ hx
      · exact mem_append_right _ (mem_cons_of_mem _ hx)
    rcases mem_append.mp hmem with hleft | hpost
    · rcases mem_append.mp hleft with hleft | hpre
      · exact hrows hleft
      · obtain ⟨x, hx, hxn⟩ := mem_flatMap.mp hpre
        exact hother x (mem_append_left _ hx) hxn
    · obtain ⟨x, hx, hxn⟩ := mem_flatMap.mp hpost
      exact hother x (mem_append_right _ hx) hxn
  applicationIds := h.applicationIds
  stackIds := by
    rw [Table.save_keys]
    exact h.stackIds
  numeric := by
    intro x hx
    obtain ⟨y, hy, hxy⟩ := mem_map.mp hx
    by_cases hkey : y.id = st'.id
    · rw [if_pos hkey] at hxy
      exact hxy ▸ hnumeric
    · rw [if_neg hkey] at hxy
      exact hxy ▸ h.numeric y hy

/-! ### What the checks find out -/

variable {ports : List Nat} {n : Nat}

theorem conflictsOf_eq_nil {kind : String} {claims : List (JsString × Nat)}
    (h : conflictsOf ports kind claims = []) {x : JsString} (hx : (x, n) ∈ claims) : n ∉ ports := by
  intro hn
  have hmem : (x, n) ∈ claims.filter fun c => c.2 ∈ ports := by simp [hx, hn]
  have hconflict : conflict n kind x ∈ conflictsOf ports kind claims :=
    mem_map.mpr ⟨(x, n), hmem, rfl⟩
  rw [h] at hconflict
  exact not_mem_nil hconflict

/-- A port is free for the caller: every row that has it is the caller's own. -/
structure Free (s : Rows) (o : Options) (n : Nat) : Prop where
  applications : ∀ a ∈ s.applications, a.hostPort = some n → some a.id = o.excludeApplicationId
  databases : n ∉ dbPorts s
  companions : n ∉ companionPorts s
  composeApps : ∀ st ∈ s.composeApps, n ∈ numericPorts st → some st.id = o.excludeComposeAppId

variable {running : List Container}

variable {o : Options}

/-- **The shared check asks every kind of row.** -/
theorem free_of_assertFree (h : assertFree s ports running o = .ok ())
    (hn : n ∈ ports) : Free s o n := by
  have hports : ports ≠ [] := ne_nil_of_mem hn
  have hn' : n ∈ ports.eraseDups := mem_eraseDups.mpr hn
  have hports' : ports.eraseDups ≠ [] := ne_nil_of_mem hn'
  simp only [assertFree, hports, if_false] at h
  split at h
  case isFalse => cases h
  rename_i hnone
  simp only [hostPortConflicts, hports', if_false] at hnone
  have hempty : ∀ {l : List JsString}, l.eraseDups = [] → l = [] := by
    intro l hl
    refine eq_nil_iff_forall_not_mem.mpr fun x hx => ?_
    rw [← mem_eraseDups, hl] at hx
    cases hx
  replace hnone := hempty hnone
  simp only [append_eq_nil_iff] at hnone
  obtain ⟨⟨⟨⟨happs, hdbs⟩, hcompanions⟩, hstacks⟩, -⟩ := hnone
  refine ⟨?_, ?_, ?_, ?_⟩
  · intro a ha hp
    by_contra hown
    refine conflictsOf_eq_nil happs (x := a.appName) ?_ hn'
    refine mem_map.mpr ⟨(a.id, a.appName, n), ?_, rfl⟩
    refine mem_filter.mpr ⟨mem_filterMap.mpr ⟨a, ha, ?_⟩, by simpa using hown⟩
    simp [hp, hn]
  · intro hmem
    obtain ⟨d, hd, hp⟩ := mem_filterMap.mp hmem
    refine conflictsOf_eq_nil hdbs (x := d.name) ?_ hn'
    exact mem_filterMap.mpr ⟨d, hd, by simp [hp, hn]⟩
  · intro hmem
    obtain ⟨c, hc, hp⟩ := mem_filterMap.mp hmem
    refine conflictsOf_eq_nil hcompanions (x := databaseName s c) ?_ hn'
    exact mem_filterMap.mpr ⟨c, hc, by simp [hp, hn]⟩
  · intro st hst hp
    by_contra hown
    refine conflictsOf_eq_nil hstacks (x := st.name) ?_ hn'
    refine mem_flatMap.mpr ⟨st, mem_filter.mpr ⟨hst, by simpa using hown⟩, ?_⟩
    exact mem_map_of_mem hp

variable {p : PortValue}

theorem asInteger_number (hp : p = .number n) (hn : n < 2147483648) :
    asInteger integerInput p = some n := by
  rw [hp]
  exact if_pos hn

/-- Where all ports of a stack are numbers, the check sees what Docker will. -/
theorem numericPorts_eq (h : ∀ p ∈ st.servicePorts, Numeric p) :
    numericPorts st = portsOf integerInput st := by
  refine filterMap_congr fun p hp => ?_
  obtain ⟨n, hn, hlt⟩ := h p hp
  rw [asInteger_number hn hlt, hn]

theorem map_number_portsOf (h : ∀ p ∈ st.servicePorts, Numeric p) :
    (portsOf integerInput st).map PortValue.number = st.servicePorts.map ServicePort.hostPort := by
  unfold portsOf
  rw [map_filterMap, ← filterMap_eq_map]
  refine filterMap_congr fun p hp => ?_
  obtain ⟨n, hn, hlt⟩ := h p hp
  rw [asInteger_number hn hlt, map_some, ← hn]
  rfl

theorem mem_stackPorts (h : Distinct integerInput s) :
    n ∈ stackPorts integerInput s ↔ ∃ st ∈ s.composeApps, n ∈ numericPorts st := by
  unfold stackPorts
  rw [mem_flatMap]
  refine exists_congr fun st => and_congr_right fun hst => ?_
  rw [numericPorts_eq (h.numeric st hst)]

/-- A caller that owns nothing yet gets a port no row has. -/
theorem Free.not_claimed (h : Distinct integerInput s)
    (ho : o.excludeApplicationId = none ∧ o.excludeComposeAppId = none) (hfree : Free s o n) :
    n ∉ claimed integerInput s := by
  intro hmem
  simp only [claimed, mem_append] at hmem
  rcases hmem with ((happ | hdb) | hcompanion) | hstack
  · obtain ⟨a, ha, hp⟩ := mem_filterMap.mp happ
    have := hfree.applications a ha hp
    rw [ho.1] at this
    cases this
  · exact hfree.databases hdb
  · exact hfree.companions hcompanion
  · obtain ⟨st, hst, hp⟩ := (mem_stackPorts h).mp hstack
    have := hfree.composeApps st hst hp
    rw [ho.2] at this
    cases this

variable {hostPort : Option Nat}

theorem free_of_assertPortFree (h : assertPortFree s hostPort running o = .ok ())
    (hn : hostPort = some n) : Free s o n := by
  subst hn
  exact free_of_assertFree h (mem_singleton_self n)

theorem nodup_of_firstRepeated {seen : List Nat} (h : firstRepeated seen ports = none)
    (hseen : seen.Nodup) : (seen ++ ports).Nodup := by
  induction ports generalizing seen with
  | nil => simpa using hseen
  | cons n ns ih =>
    simp only [firstRepeated] at h
    split at h
    case isTrue => cases h
    rename_i hn
    have hnext : (seen ++ [n]).Nodup := by
      refine nodup_append.mpr ⟨hseen, by simp, ?_⟩
      rintro a ha b hb rfl
      exact hn (mem_singleton.mp hb ▸ ha)
    have := ih h hnext
    rwa [append_assoc, singleton_append] at this

variable {slug : JsString}

theorem free_of_assertHostPortsFree {id : Option JsString}
    (h : assertHostPortsFree s id slug ports running = .ok ()) :
    ports.Nodup ∧ ∃ own, ∀ n ∈ ports, Free s ⟨none, id, own⟩ n := by
  unfold assertHostPortsFree at h
  split at h
  case h_1 => cases h
  rename_i hrepeat
  exact ⟨by simpa using nodup_of_firstRepeated hrepeat nodup_nil, _,
    fun n hn => free_of_assertFree h hn⟩

variable {ports : List ServicePortDto}

theorem numeric_rows (hvalid : ∀ p ∈ ports, validPort p.hostPort) :
    ∀ q ∈ ports.map ServicePortDto.row, Numeric q := by
  intro q hq
  obtain ⟨p, hp, rfl⟩ := mem_map.mp hq
  have := hvalid p hp
  simp only [validPort, Bool.and_eq_true, decide_eq_true_eq] at this
  exact ⟨p.hostPort, rfl, by omega⟩

theorem portsOf_rows (hvalid : ∀ p ∈ ports, validPort p.hostPort)
    (hst : st.servicePorts = ports.map ServicePortDto.row) :
    portsOf integerInput st = ports.map ServicePortDto.hostPort := by
  rw [← numericPorts_eq (hst ▸ numeric_rows hvalid), numericPorts, hst, filterMap_map]
  exact congrFun filterMap_eq_map ports

variable (integerInput)

/-- Whether an imported port is kept. -/
def keeps (s : Rows) (p : PortValue) : Bool :=
  !p.falsy && match asInteger integerInput p with
    | none => false
    | some n => !taken s p n

variable {integerInput}

theorem keeps_iff : keeps integerInput s p = true ↔
    p.falsy = false ∧ ∃ n, asInteger integerInput p = some n ∧ taken s p n = false := by
  unfold keeps
  cases asInteger integerInput p <;> simp

variable {place : JsString} {warnings : List JsString}

variable {port : Option PortValue}

theorem freeHostPort_some (h : freeHostPort integerInput s (some p) place = some (port, warnings)) :
    port = if keeps integerInput s p then some p else none := by
  simp only [freeHostPort] at h
  unfold keeps
  cases hf : p.falsy with
  | true =>
    simp only [hf, if_true, some.injEq, Prod.mk.injEq] at h
    simp [h.1.symm]
  | false =>
    simp only [hf, Bool.false_eq_true, if_false] at h
    cases hn : asInteger integerInput p with
    | none => simp [hn] at h
    | some n =>
      simp only [hn] at h
      cases ht : taken s p n with
      | true =>
        simp only [ht, if_true, some.injEq, Prod.mk.injEq] at h
        simp [ht, h.1.symm]
      | false =>
        simp only [ht, Bool.false_eq_true, if_false, some.injEq, Prod.mk.injEq] at h
        simp [ht, h.1.symm]

/-- An imported stack keeps the ports that pass on their own. -/
theorem freeServicePorts_eq {ports kept : List ServicePort}
    (h : freeServicePorts integerInput s ports place = some (kept, warnings)) :
    kept = ports.filter fun q => keeps integerInput s q.hostPort := by
  induction ports generalizing kept warnings with
  | nil =>
    simp only [freeServicePorts, some.injEq, Prod.mk.injEq] at h
    simp [h.1.symm]
  | cons q qs ih =>
    simp only [freeServicePorts, bind_eq_bind, bind_eq_some_iff] at h
    obtain ⟨⟨port, w⟩, hq, ⟨rest, w'⟩, hqs, hout⟩ := h
    simp only [Option.pure_def, Option.some.injEq, Prod.mk.injEq] at hout
    have hport := freeHostPort_some hq
    have hrest := ih hqs
    rw [List.filter_cons, ← hrest, ← hout.1, hport]
    cases keeps integerInput s q.hostPort <;> simp

/-- A port that is kept is no application's and no database's, and no stack spells it so. -/
theorem not_taken (h : taken s p n = false) :
    n ∉ appPorts s ∧ n ∉ dbPorts s ∧ ∀ st ∈ s.composeApps, ∀ q ∈ st.servicePorts, q.hostPort ≠ p := by
  simp only [taken, Bool.or_eq_false_iff, List.any_eq_false, decide_eq_true_eq] at h
  obtain ⟨⟨happs, hdbs⟩, hstacks⟩ := h
  refine ⟨?_, ?_, ?_⟩
  · intro hmem
    obtain ⟨a, ha, hp⟩ := mem_filterMap.mp hmem
    exact happs a ha hp
  · intro hmem
    obtain ⟨d, hd, hp⟩ := mem_filterMap.mp hmem
    exact hdbs d hd hp
  · intro st hst q hq he
    exact hstacks st hst (List.any_eq_true.mpr ⟨q, hq, by simpa using he⟩)

def PortValue.isText : PortValue → Bool
  | .number _ => false
  | .text _ => true

theorem not_stackPorts (h : Distinct integerInput s) (hp : asInteger integerInput p = some n)
    (htaken : taken s p n = false) (hnum : p.isText = false) : n ∉ stackPorts integerInput s := by
  intro hmem
  cases p with
  | text t => cases hnum
  | number m =>
    have hm : m = n := by
      simp only [asInteger] at hp
      split at hp
      · exact some.inj hp
      · cases hp
    subst hm
    obtain ⟨st, hst, hmem⟩ := mem_flatMap.mp hmem
    obtain ⟨q, hq, hqn⟩ := mem_filterMap.mp hmem
    obtain ⟨k, hk, hlt⟩ := h.numeric st hst q hq
    have hkm : k = m := some.inj ((asInteger_number hk hlt).symm.trans hqn)
    exact (not_taken htaken).2.2 st hst q hq (hkm ▸ hk)

variable (integerInput)

/-- The condition on an imported port: unless it is dropped, it is no companion's, and where
it is a text no stack publishes the number it spells. -/
def ImportedFree (s : Rows) (port : Option PortValue) : Prop :=
  ∀ p, port = some p → keeps integerInput s p = true → ∀ n, asInteger integerInput p = some n →
    n ∉ companionPorts s ∧ (p.isText = true → n ∉ stackPorts integerInput s)

/-- The condition on the ports of an imported stack: those that are not dropped are numbers,
no companion's, and listed once. -/
def ImportedStackFree (s : Rows) (ports : List ServicePort) : Prop :=
  (∀ q ∈ ports, keeps integerInput s q.hostPort = true → q.hostPort.isText = false ∧
    ∀ n, asInteger integerInput q.hostPort = some n → n ∉ companionPorts s) ∧
  ((ports.filter fun q => keeps integerInput s q.hostPort).map ServicePort.hostPort).Nodup

/-- The condition on a step: creating and updating need none. -/
def ImportsFree (s : Rows) : Action → Prop
  | .importApplication _ _ _ hostPort _ => ImportedFree integerInput s hostPort
  | .importDatabase _ _ hostPort _ => ImportedFree integerInput s hostPort
  | .importStack _ _ _ ports _ => ImportedStackFree integerInput s ports
  | _ => True

instance (s : Rows) (port : Option PortValue) : Decidable (ImportedFree integerInput s port) :=
  inferInstanceAs (Decidable (∀ p, port = some p → keeps integerInput s p = true →
    ∀ n, asInteger integerInput p = some n → n ∉ companionPorts s ∧
      (p.isText = true → n ∉ stackPorts integerInput s)))

instance (s : Rows) (ports : List ServicePort) : Decidable (ImportedStackFree integerInput s ports) :=
  inferInstanceAs (Decidable ((∀ q ∈ ports, keeps integerInput s q.hostPort = true →
    q.hostPort.isText = false ∧ ∀ n, asInteger integerInput q.hostPort = some n → n ∉ companionPorts s) ∧
      ((ports.filter fun q => keeps integerInput s q.hostPort).map ServicePort.hostPort).Nodup))

instance (s : Rows) : ∀ a : Action, Decidable (ImportsFree integerInput s a)
  | .importApplication _ _ _ hostPort _ => inferInstanceAs (Decidable (ImportedFree integerInput s hostPort))
  | .importDatabase _ _ hostPort _ => inferInstanceAs (Decidable (ImportedFree integerInput s hostPort))
  | .importStack _ _ _ ports _ => inferInstanceAs (Decidable (ImportedStackFree integerInput s ports))
  | .createApplication .. | .updateApplication .. | .createDatabase .. | .createCompanion ..
  | .createComposeApp .. | .createFromTemplate .. | .updateComposeApp .. => isTrue trivial

variable {integerInput}

/-! ### Every operation keeps the invariant -/

theorem bind_ok {α β : Type} {x : Except JsString α} {f : α → Except JsString β} {b : β}
    (h : (x >>= f) = .ok b) : ∃ a, x = .ok a ∧ f a = .ok b := by
  cases x with
  | error e => cases h
  | ok a => exact ⟨a, rfl, h⟩

variable {id : JsString} {s' : Rows}

variable {appName : JsString} {serverId : Option JsString}

theorem createApplication_distinct (hs : Distinct integerInput s)
    (hid : freshApplication s id = true)
    (h : createApplication s id appName serverId hostPort running = .ok s') :
    Distinct integerInput s' := by
  obtain ⟨_, hcheck, h⟩ := bind_ok h
  cases h
  refine distinct_addApplication hs (by simpa [freshApplication] using hid) ?_
  intro n hn
  exact (free_of_assertPortFree hcheck hn).not_claimed hs ⟨rfl, rfl⟩

variable {name : JsString}

theorem createDatabase_distinct (hs : Distinct integerInput s)
    (h : createDatabase s id name hostPort running = .ok s') : Distinct integerInput s' := by
  obtain ⟨_, hcheck, h⟩ := bind_ok h
  cases h
  refine distinct_addDatabase hs ?_
  intro n hn
  exact (free_of_assertPortFree hcheck hn).not_claimed hs ⟨rfl, rfl⟩

theorem createCompanion_distinct (hs : Distinct integerInput s) {databaseId : JsString}
    (hvalid : hostPort.all validPort = true)
    (h : createCompanion s databaseId hostPort running = .ok s') : Distinct integerInput s' := by
  unfold createCompanion at h
  split at h
  case isTrue => cases h
  obtain ⟨_, hcheck, h⟩ := bind_ok h
  cases h
  refine distinct_addCompanion hs ?_
  intro n hn
  have hn : hostPort = some n := hn
  have hpos : n ≠ 0 := by
    rw [hn] at hvalid
    simp only [all_some, validPort, Bool.and_eq_true, decide_eq_true_eq] at hvalid
    omega
  refine (free_of_assertPortFree hcheck (n := n) ?_).not_claimed hs ⟨rfl, rfl⟩
  simp [hn, hpos]

/-- The branches of an update: nothing is checked when port and server stay; a failed
application of the new port leaves the old one. -/
theorem updateApplication_distinct (hs : Distinct integerInput s) {patch : ApplicationPatch}
    {applied : Bool}
    (h : updateApplication s id patch running applied = .ok s') : Distinct integerInput s' := by
  unfold updateApplication at h
  split at h
  case h_1 => cases h
  rename_i app happ
  obtain ⟨hmem, -⟩ := Table.mem_of_get happ
  have hcheck : (∀ n, patch.hostPort.getD app.hostPort = some n →
      app.hostPort = some n ∨ Free s ⟨some app.id, none, isOwnContainer app⟩ n) ∧
      s' = { s with
        applications := Table.save Application.id s.applications { app with
            serverId := patch.serverId.getD app.serverId,
            hostPort := if applied then patch.hostPort.getD app.hostPort else app.hostPort } } := by
    by_cases hchanged : patch.hostPort.getD app.hostPort ≠ app.hostPort ∨
        patch.serverId.getD app.serverId ≠ app.serverId
    · simp only [if_pos hchanged] at h
      obtain ⟨_, hcheck, h⟩ := bind_ok h
      cases h
      exact ⟨fun n hn => Or.inr (free_of_assertPortFree hcheck hn), rfl⟩
    · simp only [if_neg hchanged] at h
      cases h
      have hsame : patch.hostPort.getD app.hostPort = app.hostPort := by
        by_contra hne
        exact hchanged (Or.inl hne)
      exact ⟨fun n hn => Or.inl (hsame ▸ hn), rfl⟩
  obtain ⟨hfree, rfl⟩ := hcheck
  refine distinct_saveApplication hs hmem rfl ?_
  intro n hn
  cases applied with
  | false => exact Or.inl (by simpa using hn)
  | true =>
    rcases hfree n (by simpa using hn) with hold | hfree
    · exact Or.inl hold
    · refine Or.inr ⟨fun b hb hbn => some.inj (hfree.applications b hb hbn), ?_⟩
      simp only [mem_append, not_or]
      refine ⟨⟨hfree.databases, hfree.companions⟩, ?_⟩
      intro hstack
      obtain ⟨st, hst, hp⟩ := (mem_stackPorts hs).mp hstack
      cases hfree.composeApps st hst hp

theorem createComposeApp_distinct (hs : Distinct integerInput s)
    (hid : freshStack s id = true) : Distinct integerInput (createComposeApp s id name slug) := by
  refine distinct_addStack hs (by simpa [freshStack] using hid) ?_ ?_ ?_
  · simp
  · simp [portsOf]
  · simp [portsOf]

theorem createFromTemplate_distinct (hs : Distinct integerInput s) (hid : freshStack s id = true)
    (hvalid : ∀ p ∈ ports, validPort p.hostPort)
    (h : createFromTemplate s id name slug ports running = .ok s') : Distinct integerInput s' := by
  obtain ⟨_, hcheck, h⟩ := bind_ok h
  cases h
  obtain ⟨hnodup, own, hfree⟩ := free_of_assertHostPortsFree hcheck
  refine distinct_addStack hs (by simpa [freshStack] using hid) (numeric_rows hvalid) ?_ ?_
  · rw [portsOf_rows hvalid rfl]
    exact hnodup
  · rw [portsOf_rows hvalid rfl]
    intro n hn
    exact (hfree n hn).not_claimed hs ⟨rfl, rfl⟩

theorem updateComposeApp_distinct (hs : Distinct integerInput s)
    {servicePorts : Option (List ServicePortDto)}
    (hvalid : ∀ ports, servicePorts = some ports → ∀ p ∈ ports, validPort p.hostPort)
    (h : updateComposeApp s id servicePorts running = .ok s') : Distinct integerInput s' := by
  unfold updateComposeApp at h
  split at h
  · cases h
  · cases h
    exact hs
  · rename_i st ports hst
    have hvalid := hvalid ports rfl
    obtain ⟨hmem, -⟩ := Table.mem_of_get hst
    obtain ⟨_, hcheck, h⟩ := bind_ok h
    cases h
    obtain ⟨hnodup, own, hfree⟩ := free_of_assertHostPortsFree hcheck
    refine distinct_saveStack hs hmem rfl (numeric_rows hvalid) ?_ ?_
    · rw [portsOf_rows hvalid rfl]
      exact hnodup
    · rw [portsOf_rows hvalid rfl]
      intro n hn
      have hfree := hfree n hn
      refine ⟨?_, ?_⟩
      · simp only [mem_append, not_or]
        refine ⟨⟨?_, hfree.databases⟩, hfree.companions⟩
        intro happ
        obtain ⟨a, ha, hp⟩ := mem_filterMap.mp happ
        cases hfree.applications a ha hp
      · intro x hx hxn
        rw [← numericPorts_eq (hs.numeric x hx)] at hxn
        exact some.inj (hfree.composeApps x hx hxn)

variable {hostPort : Option PortValue}

/-- An imported port that meets the condition is no row's. -/
theorem ImportedFree.not_claimed (hs : Distinct integerInput s)
    (hfree : ImportedFree integerInput s hostPort)
    (h : freeHostPort integerInput s hostPort place = some (port, warnings))
    (hn : port.bind (asInteger integerInput) = some n) : n ∉ claimed integerInput s := by
  obtain ⟨p, hp, hpn⟩ := bind_eq_some_iff.mp hn
  cases hostPort with
  | none =>
    simp only [freeHostPort, some.injEq, Prod.mk.injEq] at h
    rw [← h.1] at hp
    cases hp
  | some q =>
    have hport := freeHostPort_some h
    split at hport
    case isFalse => rw [hport] at hp; cases hp
    rename_i hkeeps
    rw [hport] at hp
    obtain rfl : q = p := some.inj hp
    obtain ⟨hcompanion, hstack⟩ := hfree q rfl hkeeps n hpn
    obtain ⟨-, m, hm, htaken⟩ := keeps_iff.mp hkeeps
    obtain rfl : n = m := some.inj (hpn.symm.trans hm)
    obtain ⟨happ, hdb, -⟩ := not_taken htaken
    simp only [claimed, mem_append, not_or]
    refine ⟨⟨⟨happ, hdb⟩, hcompanion⟩, ?_⟩
    cases htext : q.isText with
    | true => exact hstack htext
    | false => exact not_stackPorts hs hpn htaken htext

variable {out : Rows × List JsString}

theorem importApplication_distinct (hs : Distinct integerInput s)
    (hid : freshApplication s id = true) (hfree : ImportedFree integerInput s hostPort)
    (h : importApplication integerInput s id appName serverId hostPort place = some out) :
    Distinct integerInput out.1 := by
  obtain ⟨⟨port, warnings⟩, hport, hout⟩ := bind_eq_some_iff.mp h
  cases hout
  refine distinct_addApplication hs (by simpa [freshApplication] using hid) ?_
  intro n hn
  exact hfree.not_claimed hs hport hn

theorem importDatabase_distinct (hs : Distinct integerInput s)
    (hfree : ImportedFree integerInput s hostPort)
    (h : importDatabase integerInput s id name hostPort place = some out) :
    Distinct integerInput out.1 := by
  obtain ⟨⟨port, warnings⟩, hport, hout⟩ := bind_eq_some_iff.mp h
  cases hout
  refine distinct_addDatabase hs ?_
  intro n hn
  exact hfree.not_claimed hs hport hn

theorem importStack_distinct (hs : Distinct integerInput s) {ports : List ServicePort}
    (hid : freshStack s id = true) (hfree : ImportedStackFree integerInput s ports)
    (h : importStack integerInput s id name slug ports place = some out) :
    Distinct integerInput out.1 := by
  obtain ⟨⟨kept, warnings⟩, hkept, hout⟩ := bind_eq_some_iff.mp h
  cases hout
  have hkept := freeServicePorts_eq hkept
  obtain ⟨hports, hnodup⟩ := hfree
  have hmem : ∀ q ∈ kept, keeps integerInput s q.hostPort = true ∧ q.hostPort.isText = false ∧
      ∀ n, asInteger integerInput q.hostPort = some n → n ∉ companionPorts s := by
    intro q hq
    rw [hkept] at hq
    obtain ⟨hq, hk⟩ := mem_filter.mp hq
    exact ⟨hk, hports q hq hk⟩
  have hnumeric : ∀ q ∈ kept, Numeric q := by
    intro q hq
    obtain ⟨hk, hnum, -⟩ := hmem q hq
    obtain ⟨-, n, hn, -⟩ := keeps_iff.mp hk
    cases hv : q.hostPort with
    | text t => rw [hv] at hnum; cases hnum
    | number m =>
      rw [hv] at hn
      simp only [asInteger] at hn
      split at hn
      case isFalse => cases hn
      exact ⟨m, hv, ‹_›⟩
  refine distinct_addStack hs (by simpa [freshStack] using hid) hnumeric ?_ ?_
  · rw [← hkept] at hnodup
    refine Nodup.of_map PortValue.number ?_
    rw [map_number_portsOf hnumeric]
    exact hnodup
  · intro n hn
    obtain ⟨q, hq, hqn⟩ := mem_filterMap.mp hn
    obtain ⟨hk, hnum, hcompanion⟩ := hmem q hq
    obtain ⟨-, m, hm, htaken⟩ := keeps_iff.mp hk
    obtain rfl : n = m := some.inj (hqn.symm.trans hm)
    obtain ⟨happ, hdb, -⟩ := not_taken htaken
    simp only [claimed, mem_append, not_or]
    exact ⟨⟨⟨happ, hdb⟩, hcompanion n hqn⟩, not_stackPorts hs hqn htaken hnum⟩

theorem ok_of_toOption {α : Type} {x : Except JsString α} {a : α} (h : x.toOption = some a) :
    x = .ok a := by
  cases x with
  | error e => cases h
  | ok b => exact congrArg Except.ok (some.inj h)

/-- **One step.** -/
theorem step_distinct {a : Action} (hs : Distinct integerInput s)
    (hfree : ImportsFree integerInput s a) (h : step integerInput s a = some s') :
    Distinct integerInput s' := by
  unfold step at h
  split at h
  case isFalse => cases h
  rename_i hvalid
  cases a with
  | createApplication id appName serverId hostPort running =>
    simp only [validRequest, Bool.and_eq_true] at hvalid
    exact createApplication_distinct hs hvalid.1 (ok_of_toOption h)
  | updateApplication id patch running applied =>
    exact updateApplication_distinct hs (ok_of_toOption h)
  | createDatabase id name hostPort running =>
    exact createDatabase_distinct hs (ok_of_toOption h)
  | createCompanion databaseId hostPort running =>
    simp only [validRequest, Bool.and_eq_true] at hvalid
    exact createCompanion_distinct hs hvalid.2 (ok_of_toOption h)
  | createComposeApp id name slug =>
    cases h
    exact createComposeApp_distinct hs hvalid
  | createFromTemplate id name slug ports running =>
    simp only [validRequest, Bool.and_eq_true, List.all_eq_true] at hvalid
    exact createFromTemplate_distinct hs hvalid.1 hvalid.2 (ok_of_toOption h)
  | updateComposeApp id ports running =>
    refine updateComposeApp_distinct hs ?_ (ok_of_toOption h)
    rintro ports rfl
    simpa only [validRequest, all_some, List.all_eq_true] using hvalid
  | importApplication id appName serverId hostPort place =>
    obtain ⟨out, hout, rfl⟩ := map_eq_some_iff.mp h
    exact importApplication_distinct hs hvalid hfree hout
  | importDatabase id name hostPort place =>
    obtain ⟨out, hout, rfl⟩ := map_eq_some_iff.mp h
    exact importDatabase_distinct hs hfree hout
  | importStack id name slug ports place =>
    obtain ⟨out, hout, rfl⟩ := map_eq_some_iff.mp h
    exact importStack_distinct hs hvalid hfree hout

/-- **A run whose imports meet the condition publishes no host port twice** on any daemon,
in whatever order rows are created, updated and imported. -/
theorem published_nodup (as : List Action) (s : Rows)
    (hmeets : Runs.Meets (step integerInput) (ImportsFree integerInput) empty as)
    (hrun : Runs.exec (step integerInput) empty as = some s) :
    (published integerInput s).Nodup := by
  have hs : Distinct integerInput s :=
    Runs.exec_invariant (fun _ _ _ hs hfree hstep => step_distinct hs hfree hstep) as empty s
      (empty_distinct integerInput) hmeets hrun
  refine List.Nodup.of_map Prod.snd ?_
  rw [map_snd_published]
  exact hs.ports

end Import

/-- Decimal digits, the part of PostgreSQL's input the samples use. -/
def decimal (s : JsString) : Option Nat :=
  if s ≠ [] ∧ s.all isDigit then some (s.foldl (fun n c => n * 10 + (c.toNat - 48)) 0) else none

/-- A database with its admin app on 8081, a stack on 8080 moved to 8443, an application of
the port the stack left, and imports that find free ports and a taken one. -/
def sampleRun : List Action :=
  [.createDatabase (js "d") (js "main") (some 5432) [],
    .createCompanion (js "d") (some 8081) [],
    .createFromTemplate (js "s") (js "web") (js "web-1") [⟨js "web", 80, 8080⟩] [],
    .updateComposeApp (js "s") (some [⟨js "web", 80, 8443⟩]) [],
    .createApplication (js "a") (js "api") none (some 8080) [],
    .updateApplication (js "a") ⟨some (some 9000), some (some (js "remote"))⟩ [] true,
    .importApplication (js "b") (js "old") none (some (.text (js "8080"))) (js "old"),
    .importStack (js "t") (js "copy") (js "copy-1") [⟨js "web", 80, .number 8443⟩, ⟨js "db", 1, .number 7000⟩]
      (js "copy")]

theorem published_nodup_sample :
    (Runs.exec (step decimal) empty sampleRun).isSome = true ∧
      ∀ s, Runs.exec (step decimal) empty sampleRun = some s → (published decimal s).Nodup :=
  ⟨by decide, fun s hrun => published_nodup sampleRun s (by decide) hrun⟩

/-- The admin app of a database listens on 8081, and an imported application gets 8081 as
well: no query of the import reads the companions. -/
theorem import_misses_companion :
    ¬ ∀ (as : List Action) (s : Rows), Runs.exec (step decimal) empty as = some s →
      (published decimal s).Nodup := by
  intro h
  have := h [.createDatabase (js "d") (js "main") none [], .createCompanion (js "d") (some 8081) [],
      .importApplication (js "a") (js "api") none (some (.number 8081)) (js "api")]
    ⟨[⟨js "a", js "api", none, some 8081⟩], [⟨js "d", js "main", none⟩], [⟨js "d", some 8081⟩], []⟩
    (by decide)
  revert this
  decide

end Aoox.HostPorts
